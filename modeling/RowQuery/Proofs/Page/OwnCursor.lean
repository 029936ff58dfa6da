import RowQuery.Proofs.Cursor.Recorded
import RowQuery.Proofs.Page.Parts

/-!
# The cursor of a row

The cursor that a page gives for a row bounds a window exactly at that row, if the row is still among
the candidates. A cursor of recorded values does so if no other candidate ties with the row. A cursor of
a place does so if the place is a 64-bit integer, as every place in a list in memory is.

Results:
* `placeBy_cursorAt`: the cursor of a row bounds at the row.
* `paginate_after_cursorAt`, `paginate_before_cursorAt`: the pages behind and in front of a row.
-/

namespace RowQuery.Page

variable {ρ : Type} [Record ρ]

/-- What the cursors of a strategy need of the rows, so that they tell them apart: recorded values need
an order that is transitive on them, and ties broken; places need to be 64-bit integers. -/
def CursorsExact (options : PageOptions) (q : Query) (rows : List ρ) : Prop :=
  match options.strategy with
  | .keyset =>
    TransitiveOn Value.sortCompare (keyValues options q rows) ∧ TiesBroken options q rows
  | .positional => ((passing q rows).length : Int) ≤ Int64.maxValue.toInt

instance (options : PageOptions) (q : Query) (rows : List ρ) :
    Decidable (CursorsExact options q rows) := by
  unfold CursorsExact
  split <;> infer_instance

/-! ## Recorded values -/

/-- The cursor of a row records its key. -/
theorem anchor_cursorAt {keys : List OrderKey} {e : Entry ρ} (he : e.key = OrderKey.rowKey keys e.row)
    (place : Nat) : anchor keys (cursorAt .keyset keys place e) = .ok e.key := by
  have hleading : (cursorAt .keyset keys place e).leading keys =
      keys.map fun k => (k, Record.value e.row k.field) := by
    show (Cursor.ofPairs ((keys.map OrderKey.field).zip e.key)).leading keys = _
    rw [he]
    exact Cursor.leading_ofPairs_rowKey keys e.row
  have hvalues : (keys.map fun k => (k, Record.value e.row k.field)).map Prod.snd = e.key := by
    rw [he, List.map_map]
    rfl
  unfold anchor
  rw [hleading]
  cases keys with
  | nil => exact congrArg Except.ok hvalues
  | cons k keys => exact congrArg Except.ok hvalues

section Strict

variable {keys : List OrderKey} {front back : List (Entry ρ)} {e : Entry ρ}

omit [Record ρ] in
/-- Among candidates in strict order, the border at one of them is in front of it, or behind it if it
passes the test itself. -/
theorem border_at_strict {test : Ordering → Bool} (ht : IsCut test)
    (h : (front ++ e :: back).Pairwise fun a b => compareEntries keys a b = .lt) :
    Bisection.border (fun d => test (OrderKey.compareKeys keys d.key e.key)) (front ++ e :: back) =
      front.length + (test .eq).toNat := by
  obtain ⟨_, hback, hfront⟩ := List.pairwise_append.mp h
  have hself : OrderKey.compareKeys keys e.key e.key = .eq := Std.ReflCmp.compare_self
  have hbefore : ∀ d ∈ front, test (OrderKey.compareKeys keys d.key e.key) = true := by
    intro d hd
    have hlt : OrderKey.compareKeys keys d.key e.key = .lt := hfront d hd e List.mem_cons_self
    rw [hlt]
    exact ht.front
  have hbehind : ∀ d ∈ back, test (OrderKey.compareKeys keys d.key e.key) = false := by
    intro d hd
    have hgt : OrderKey.compareKeys keys d.key e.key = .gt :=
      Std.OrientedCmp.gt_of_lt ((List.pairwise_cons.mp hback).1 d hd)
    rw [hgt]
    exact ht.behind
  cases hpasses : test .eq with
  | true =>
    have hborder : Bisection.border (fun d : Entry ρ => test (OrderKey.compareKeys keys d.key e.key))
        ((front ++ [e]) ++ back) = (front ++ [e]).length := by
      refine Bisection.border_eq_of_sorted ?_ hbehind
      intro d hd
      rcases List.mem_append.mp hd with hd | hd
      · exact hbefore d hd
      · rw [List.mem_singleton.mp hd, hself, hpasses]
    rwa [List.append_assoc, List.singleton_append, List.length_append] at hborder
  | false =>
    refine Bisection.border_eq_of_sorted hbefore ?_
    intro d hd
    rcases List.mem_cons.mp hd with rfl | hd
    · rw [hself, hpasses]
    · exact hbehind d hd

end Strict

/-! ## Places -/

omit [Record ρ] in
/-- The cursor of a row records its place. -/
theorem position_cursorAt (keys : List OrderKey) (e : Entry ρ) {place : Nat}
    (h : (place : Int) < Int64.maxValue.toInt) :
    position (cursorAt .positional keys place e) = .ok place := by
  have hget : (cursorAt .positional keys place e).get? positionField =
      some (.int (Int64.ofNat place)) := by
    show (Cursor.put .empty positionField _).get? positionField = _
    rw [Cursor.get?_put_self]
  have hmax : Int64.maxValue.toInt = 9223372036854775807 := rfl
  have hplace : (Int64.ofNat place).toInt = place := Int64.toInt_ofNat_of_lt (by omega)
  unfold position
  rw [hget]
  show (if 0 ≤ (Int64.ofNat place).toInt then _ else _) = _
  rw [hplace, if_pos (Int.natCast_nonneg place), Int.toNat_natCast]

/-! ## Both strategies -/

section Exact

variable {options : PageOptions} {q : Query} {rows : List ρ} {front back : List (Entry ρ)}
  {e : Entry ρ}

theorem length_front_lt (he : entriesOf options q rows = front ++ e :: back) :
    front.length < (entriesOf options q rows).length := by
  rw [he, List.length_append]
  exact Nat.lt_add_of_pos_right (Nat.succ_pos _)

theorem length_front_lt_maxValue
    (h : ((passing q rows).length : Int) ≤ Int64.maxValue.toInt)
    (he : entriesOf options q rows = front ++ e :: back) :
    (front.length : Int) < Int64.maxValue.toInt := by
  have hlt := length_front_lt he
  rw [length_entriesOf] at hlt
  exact Int.lt_of_lt_of_le (Int.ofNat_lt.mpr hlt) h

theorem mem_of_split (he : entriesOf options q rows = front ++ e :: back) :
    e ∈ entriesOf options q rows := by
  rw [he]
  exact List.mem_append_right front List.mem_cons_self

/-- The cursor of a row bounds in front of the row, or behind it if the row passes the test and its place
is moved on. -/
theorem placeBy_cursorAt {test : Ordering → Bool} {shift : Nat} (ht : IsCut test)
    (hshift : (test .eq).toNat = shift) (h : CursorsExact options q rows)
    (he : entriesOf options q rows = front ++ e :: back) :
    placeBy test shift options.strategy (keysOf options q) (entriesOf options q rows)
      (cursorAt options.strategy (keysOf options q) front.length e) = .ok (front.length + shift) := by
  subst hshift
  unfold CursorsExact at h
  cases hs : options.strategy with
  | keyset =>
    rw [hs] at h
    have hstrict := entriesOf_strict h.1 h.2
    rw [he] at hstrict
    show (anchor _ _ >>= _) = _
    rw [anchor_cursorAt (key_eq_rowKey (mem_of_split he)), he]
    exact congrArg Except.ok (border_at_strict ht hstrict)
  | positional =>
    rw [hs] at h
    have hle : front.length + (test .eq).toNat ≤ (entriesOf options q rows).length :=
      Nat.le_trans (Nat.add_le_add_left (Bool.toNat_le _) _) (length_front_lt he)
    show (position _ >>= _) = _
    rw [position_cursorAt _ _ (length_front_lt_maxValue h he)]
    exact congrArg Except.ok (Nat.min_eq_left hle)

/-- The pages behind a row show the rows behind it. -/
theorem paginate_after_cursorAt (h : CursorsExact options q rows)
    (he : entriesOf options q rows = front ++ e :: back) (n : Option Nat) :
    paginate options
        { q.unbounded with
          after := some (cursorAt options.strategy (keysOf options q) front.length e)
          first := n } rows =
      .ok (between options (keysOf options q) (front ++ [e]) (Window.firstRows n back)
        (Window.beyondFirst n back)) := by
  refine paginate_after ?_ ?_ n
  · rw [List.length_append, List.length_singleton]
    exact placeBy_cursorAt isCut_isLE rfl h he
  · rw [he, List.append_cons]

/-- The pages in front of a row show the rows in front of it. -/
theorem paginate_before_cursorAt (h : CursorsExact options q rows)
    (he : entriesOf options q rows = front ++ e :: back) (n : Option Nat) :
    paginate options
        { q.unbounded with
          before := some (cursorAt options.strategy (keysOf options q) front.length e)
          last := n } rows =
      .ok (between options (keysOf options q) (Window.beforeLast n front) (Window.lastRows n front)
        (e :: back)) :=
  paginate_before (placeBy_cursorAt isCut_isLT rfl h he) he n

end Exact

end RowQuery.Page
