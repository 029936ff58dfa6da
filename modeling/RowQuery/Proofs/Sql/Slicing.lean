import Mathlib.Data.List.Pairwise
import RowQuery.Proofs.Page.KeyOrder
import RowQuery.Proofs.Page.Window
import RowQuery.Proofs.Outcome
import RowQuery.Sql.Statement

/-!
# Slices by statement

A database answers a statement with the rows that fulfil its conditions, in the order that it asks for,
without the rows that its offset skips and with no more than its limit. Arranged, the answer is the
slice of these rows that a page shows: a count from the end is taken either from the front of the
reversed order or from the end of what was fetched.

Results:
* `eq_of_sorted_of_untied`: rows without ties have one order.
* `exists_fetches`, `arrange_eq_cutRows`: there is an answer, and every answer, arranged, is what the
  counts leave of the rows.
-/

namespace RowQuery

/-! ## The order of rows -/

section Order

variable {ρ : Type} [Record ρ]

/-- Rows are sorted by an ordering. -/
def SortedBy (order : List OrderKey) (rows : List ρ) : Prop :=
  rows.Pairwise fun a b => (OrderKey.compareRows order a b).isLE

/-- No two rows tie under an ordering. -/
def Untied (order : List OrderKey) (rows : List ρ) : Prop :=
  rows.Pairwise fun a b => OrderKey.compareRows order a b ≠ .eq

instance (order : List OrderKey) (rows : List ρ) : Decidable (SortedBy order rows) := by
  unfold SortedBy
  infer_instance

instance (order : List OrderKey) (rows : List ρ) : Decidable (Untied order rows) := by
  unfold Untied
  infer_instance

/-- Rows in the reversed order are, reversed, in the order. -/
theorem sortedBy_map_reversed {order : List OrderKey} {rows : List ρ} :
    SortedBy (order.map OrderKey.reversed) rows ↔ SortedBy order rows.reverse := by
  unfold SortedBy
  rw [List.pairwise_reverse]
  simp only [OrderKey.compareRows_reversed]

theorem sortedBy_reversed_reverse {order : List OrderKey} {rows : List ρ}
    (h : SortedBy order rows) : SortedBy (order.map OrderKey.reversed) rows.reverse := by
  rw [sortedBy_map_reversed, List.reverse_reverse]
  exact h

theorem untied_reversed_reverse {order : List OrderKey} {rows : List ρ} (h : Untied order rows) :
    Untied (order.map OrderKey.reversed) rows.reverse := by
  unfold Untied
  rw [List.pairwise_reverse]
  refine h.imp ?_
  intro a b hab
  rw [OrderKey.compareRows_reversed]
  exact hab

variable {order : List OrderKey} {rows sorted : List ρ}

/-- Rows without ties have one order. -/
theorem eq_of_sorted_of_untied (hperm : sorted.Perm rows) (hsorted : SortedBy order sorted)
    (hrows : SortedBy order rows) (hties : Untied order rows) : sorted = rows := by
  have : Std.Symm fun a b : ρ => OrderKey.compareRows order a b ≠ .eq :=
    ⟨fun _ _ hab hba => hab (Std.OrientedCmp.eq_symm hba)⟩
  refine hperm.eq_of_pairwise ?_ hsorted hrows
  intro a b ha hb hab hba
  by_contra hne
  exact List.Pairwise.forall hties (hperm.mem_iff.mp ha) hb hne
    (Std.OrientedCmp.isLE_antisymm hab hba)

end Order

/-! ## Counts -/

section Counts

variable {α : Type}

/-- The first rows of the first rows are as many as the smaller count says. -/
theorem firstRows_firstRows (limit first : Option Nat) (xs : List α) :
    Window.firstRows first (Window.firstRows limit xs) =
      Window.firstRows (Sql.Statement.smaller limit first) xs := by
  cases limit with
  | none => rfl
  | some m =>
    cases first with
    | none => rfl
    | some n =>
      show (xs.take m).take n = xs.take (min m n)
      rw [List.take_take, Nat.min_comm]

theorem keepLast_eq_lastRows (n : Option Nat) (xs : List α) :
    Sql.keepLast n xs = Window.lastRows n xs := by
  cases n <;> rfl

/-- Of a window between other rows a page shows what the counts leave of the rows in the window. -/
theorem slice_cut_eq_cutRows (offset limit first last : Option Nat) (front window back : List α) :
    ((⟨front.length, front.length + window.length⟩ : Window).cut offset limit first last).slice
      (front ++ (window ++ back)) = Window.cutRows offset limit first last window := by
  have hshows : (⟨front.length, front.length + window.length⟩ : Window).Shows front window :=
    ⟨rfl, rfl⟩
  obtain ⟨before, behind, hwindow, hcut⟩ := hshows.cut offset limit first last
  have hslice := hcut.slice_eq (behind ++ back)
  rw [List.append_assoc front, ← List.append_assoc (Window.cutRows _ _ _ _ _) behind,
    ← List.append_assoc before, ← hwindow] at hslice
  exact hslice

end Counts

/-! ## Statements -/

namespace Sql

variable {ρ : Type} [Record ρ]

/-- The clauses that say which of the selected rows a statement fetches, and in which order. -/
structure Clauses where
  order : List OrderKey
  limit : Option Nat
  offset : Option Nat
deriving DecidableEq

/-- A database may answer clauses on some selected rows by these rows, in an order that the clauses ask
for, without the first ones that they skip and with no more than their limit. -/
def Clauses.Fetches (c : Clauses) (selected fetched : List ρ) : Prop :=
  ∃ ordered, ordered.Perm selected ∧ SortedBy c.order ordered ∧
    fetched = Window.firstRows c.limit (ordered.drop (c.offset.getD 0))

/-- The clauses of a statement. -/
def Select.clauses (s : Select) : Clauses := ⟨s.order, s.limit, s.offset⟩

/-- A database may answer a statement whose conditions select some rows as its clauses allow. -/
def Select.Fetches (s : Select) (selected fetched : List ρ) : Prop := s.clauses.Fetches selected fetched

theorem Select.fetches_iff {s : Select} {selected fetched : List ρ} :
    s.Fetches selected fetched ↔ ∃ ordered, ordered.Perm selected ∧ SortedBy s.order ordered ∧
      fetched = Window.firstRows s.limit (ordered.drop (s.offset.getD 0)) := Iff.rfl

namespace Statement

theorem ofQuery_eq_ok {table : String} {q : Query} {s : Statement} (h : ofQuery table q = .ok s) :
    s.reversed = countsFromEnd q ∧
      s.keepLast = (if countsFromEnd q then none else q.last) ∧
      s.select.order = (if countsFromEnd q then q.order.map OrderKey.reversed else q.order) ∧
      s.select.limit = (if countsFromEnd q then q.last else smaller q.limit q.first) ∧
      s.select.offset = q.offset := by
  obtain ⟨after, _, h⟩ := Outcome.bind_eq_ok.mp h
  obtain ⟨before, _, h⟩ := Outcome.bind_eq_ok.mp h
  cases h
  exact ⟨rfl, rfl, rfl, rfl, rfl⟩

/-- The ordering of a query, or its reverse. -/
def directed (reversed : Bool) (order : List OrderKey) : List OrderKey :=
  if reversed then order.map OrderKey.reversed else order

theorem order_of_ofQuery {table : String} {q : Query} {s : Statement} (h : ofQuery table q = .ok s) :
    s.select.order = directed s.reversed q.order := by
  obtain ⟨hreversed, _, horder, _, _⟩ := ofQuery_eq_ok h
  rw [horder, hreversed]
  rfl

theorem counts_of_countsFromEnd {q : Query} (h : countsFromEnd q = true) :
    q.first = none ∧ q.limit = none ∧ q.offset = none := by
  unfold countsFromEnd at h
  simp only [Bool.and_eq_true, Option.isNone_iff_eq_none] at h
  exact ⟨h.1.1.2, h.1.2, h.2⟩

section Answers

variable {table : String} {q : Query} {s : Statement} {window : List ρ}

/-- Some answer is possible. -/
theorem exists_fetches (h : ofQuery table q = .ok s) (hsorted : SortedBy q.order window) :
    ∃ fetched, s.select.Fetches window fetched := by
  simp only [Select.fetches_iff, order_of_ofQuery h, directed]
  cases s.reversed with
  | true =>
    exact ⟨_, window.reverse, List.reverse_perm window, sortedBy_reversed_reverse hsorted, rfl⟩
  | false => exact ⟨_, window, .refl window, hsorted, rfl⟩

/-- Every answer, arranged, is what the counts leave of the rows. -/
theorem arrange_eq_cutRows (h : ofQuery table q = .ok s) (hsorted : SortedBy q.order window)
    (hties : Untied q.order window) {fetched : List ρ} (hf : s.select.Fetches window fetched) :
    s.arrange fetched = Window.cutRows q.offset q.limit q.first q.last window := by
  obtain ⟨hreversed, hkeep, horder, hlimit, hoffset⟩ := ofQuery_eq_ok h
  obtain ⟨ordered, hperm, hordered, rfl⟩ := Select.fetches_iff.mp hf
  unfold arrange arrangeRows Window.cutRows
  rw [horder] at hordered
  rw [hreversed, hkeep, hlimit, hoffset, keepLast_eq_lastRows]
  cases hend : countsFromEnd q with
  | true =>
    obtain ⟨hfirst, hlimit, hoffset⟩ := counts_of_countsFromEnd hend
    rw [hend] at hordered
    have hreverse : ordered = window.reverse :=
      eq_of_sorted_of_untied (hperm.trans (List.reverse_perm window).symm) hordered
        (sortedBy_reversed_reverse hsorted) (untied_reversed_reverse hties)
    rw [hfirst, hlimit, hoffset, hreverse]
    show (Window.firstRows q.last window.reverse).reverse = Window.lastRows q.last window
    rw [Window.firstRows_reverse, List.reverse_reverse]
  | false =>
    rw [hend] at hordered
    rw [eq_of_sorted_of_untied hperm hordered hsorted hties, firstRows_firstRows]
    rfl

end Answers

end Statement

end Sql

end RowQuery
