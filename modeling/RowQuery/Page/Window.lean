/-!
# Windows of rows

A window is a range of places in an ordered list of rows. Counts narrow it: an offset and a limit from
its start, then a count from its start, then a count from its end. A count that reaches beyond the
window keeps all that is left of it.

Results: `start_le_stop_cut` and `stop_cut_le`, a window that is cut stays a range inside the window.
-/

namespace RowQuery

/-- The places from `start` up to and without `stop`. -/
structure Window where
  start : Nat
  stop : Nat
deriving DecidableEq

namespace Window

def size (w : Window) : Nat := w.stop - w.start

def drop (w : Window) (n : Nat) : Window := ⟨min (w.start + n) w.stop, w.stop⟩

/-- The first places of the window, or all of them without a count. -/
def first (w : Window) : Option Nat → Window
  | some n => ⟨w.start, min w.stop (w.start + n)⟩
  | none => w

/-- The last places of the window, or all of them without a count. -/
def last (w : Window) : Option Nat → Window
  | some n => ⟨max w.start (w.stop - n), w.stop⟩
  | none => w

/-- The window narrowed by the counts of a query. -/
def cut (w : Window) (offset limit first last : Option Nat) : Window :=
  (((w.drop (offset.getD 0)).first limit).first first).last last

def slice {α : Type} (w : Window) (xs : List α) : List α := (xs.drop w.start).take w.size

theorem start_le_stop_drop {w : Window} (n : Nat) : (w.drop n).start ≤ (w.drop n).stop := by
  simp only [drop]
  omega

theorem start_le_stop_first {w : Window} (h : w.start ≤ w.stop) (n : Option Nat) :
    (w.first n).start ≤ (w.first n).stop := by
  cases n <;> simp only [first] <;> omega

theorem start_le_stop_last {w : Window} (h : w.start ≤ w.stop) (n : Option Nat) :
    (w.last n).start ≤ (w.last n).stop := by
  cases n <;> simp only [last] <;> omega

theorem start_le_stop_cut (w : Window) (offset limit first last : Option Nat) :
    (w.cut offset limit first last).start ≤ (w.cut offset limit first last).stop :=
  start_le_stop_last (start_le_stop_first (start_le_stop_first (start_le_stop_drop _) _) _) _

theorem stop_first_le (w : Window) (n : Option Nat) : (w.first n).stop ≤ w.stop := by
  cases n <;> simp only [first] <;> omega

theorem stop_last (w : Window) (n : Option Nat) : (w.last n).stop = w.stop := by
  cases n <;> rfl

theorem stop_cut_le (w : Window) (offset limit first last : Option Nat) :
    (w.cut offset limit first last).stop ≤ w.stop := by
  rw [cut, stop_last]
  exact Nat.le_trans (stop_first_le _ _) (stop_first_le _ _)

end Window

end RowQuery
