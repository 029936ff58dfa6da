import Mathlib.Data.List.Basic
import RowQuery.Cursor.Token
import RowQuery.Proofs.Cursor.Recorded

/-!
# Fields in the order of their first pairs

A cursor is built pair by pair. A pair of a field that is not recorded yet is added at the end; any other
pair gives its value to the field and leaves it in its place. So the fields stand in the order of their
first pairs, while the values are those of the last ones.

Results:
* `InOrderOf.put`: one more pair keeps the fields in the order of their first pairs.
* `inOrderOf_ofPairs`: they are in this order in every cursor that is built from pairs.
* `get?_ofPairs_eq_some_iff`, `get?_ofPairs_eq_none_iff`: the value of a field is that of its last pair.
* `exists_pairs_of_ofToken`: an accepted token leads to a cursor that is built from pairs.
* `ofPairs_first_insertion`: all of it, and that no cursor with a token has a field twice.
-/

namespace RowQuery.Cursor

/-! ## Fields -/

/-- Some fields are those of a list of names, in the order in which the names first occur there. -/
structure InOrderOf (names fields : List String) : Prop where
  mem_iff : ∀ field, field ∈ fields ↔ field ∈ names
  ordered : fields.Pairwise fun f g => names.idxOf f < names.idxOf g

namespace InOrderOf

variable {names fields : List String}

theorem nil : InOrderOf [] [] := ⟨fun _ => Iff.rfl, List.Pairwise.nil⟩

/-- Names that are there keep their places when one is added at the end. -/
theorem ordered_concat (h : InOrderOf names fields) (field : String) :
    fields.Pairwise fun f g => (names ++ [field]).idxOf f < (names ++ [field]).idxOf g := by
  refine h.ordered.imp_of_mem ?_
  intro f g hf hg hlt
  rw [List.idxOf_append_of_mem ((h.mem_iff f).mp hf), List.idxOf_append_of_mem ((h.mem_iff g).mp hg)]
  exact hlt

/-- A name that comes next is added at the end, unless it is there. -/
theorem put (h : InOrderOf names fields) (field : String) :
    InOrderOf (names ++ [field]) (if field ∈ fields then fields else fields ++ [field]) := by
  split
  · next hmem =>
    refine ⟨fun f => ?_, h.ordered_concat field⟩
    rw [List.mem_append, List.mem_singleton, ← h.mem_iff]
    constructor
    · exact Or.inl
    · rintro (hf | rfl)
      · exact hf
      · exact hmem
  · next hnew =>
    refine ⟨fun f => ?_, ?_⟩
    · rw [List.mem_append, List.mem_append, h.mem_iff]
    · refine List.pairwise_append.mpr ⟨h.ordered_concat field, List.pairwise_singleton _ field, ?_⟩
      intro f hf g hg
      have hplace : names.idxOf f < names.length := List.idxOf_lt_length_of_mem ((h.mem_iff f).mp hf)
      have hlast : field ∉ names := mt (h.mem_iff field).mpr hnew
      rw [List.mem_singleton.mp hg, List.idxOf_append_of_mem ((h.mem_iff f).mp hf),
        List.idxOf_append_of_notMem hlast]
      exact Nat.lt_add_right _ hplace

end InOrderOf

section Pairs

variable (pairs : List (String × Value))

/-- The fields of a cursor stand in the order of their first pairs. -/
theorem inOrderOf_ofPairs : InOrderOf (pairs.map Prod.fst) (ofPairs pairs).fields := by
  refine ofPairs_induction (P := fun pairs c => InOrderOf (pairs.map Prod.fst) c.fields)
    InOrderOf.nil ?_ pairs
  intro pairs p c h
  rw [List.map_append, fields_put]
  exact h.put p.1

/-! ## Values -/

/-- A field has the value of its last pair. -/
theorem get?_ofPairs_eq_some_iff (field : String) (value : Value) :
    (ofPairs pairs).get? field = some value ↔
      ∃ front back, pairs = front ++ (field, value) :: back ∧ field ∉ back.map Prod.fst := by
  rw [get?_ofPairs, Option.map_eq_some_iff]
  constructor
  · rintro ⟨⟨f, v⟩, hfind, rfl⟩
    obtain ⟨hfield, back, front, hsplit, hback⟩ := List.find?_eq_some_iff_append.mp hfind
    obtain rfl : f = field := beq_iff_eq.mp hfield
    refine ⟨front.reverse, back.reverse, ?_, ?_⟩
    · rw [← List.reverse_reverse pairs, hsplit]
      simp
    · rw [List.mem_map]
      rintro ⟨p, hp, rfl⟩
      simpa using hback p (List.mem_reverse.mp hp)
  · rintro ⟨front, back, rfl, hback⟩
    refine ⟨(field, value), ?_, rfl⟩
    refine List.find?_eq_some_iff_append.mpr ⟨beq_self_eq_true field, back.reverse, front.reverse, ?_, ?_⟩
    · simp
    · intro p hp
      have hne : p.1 ≠ field := by
        rintro rfl
        exact hback (List.mem_map_of_mem (List.mem_reverse.mp hp))
      simpa using hne

/-- Nothing is recorded for a field without a pair. -/
theorem get?_ofPairs_eq_none_iff (field : String) :
    (ofPairs pairs).get? field = none ↔ field ∉ pairs.map Prod.fst := by
  rw [get?_ofPairs, Option.map_eq_none_iff, List.find?_eq_none, List.mem_map]
  simp only [List.mem_reverse, beq_iff_eq, not_exists, not_and]

/-! ## Tokens -/

/-- An accepted token leads to a cursor that is built from pairs. -/
theorem exists_pairs_of_ofToken {token : String} {c : Cursor} (h : ofToken token = .ok c) :
    ∃ pairs, c = ofPairs pairs := by
  unfold ofToken at h
  split at h
  · cases h
  · split at h
    · next read _ => exact ⟨read, (Except.ok.inj h).symm⟩
    · cases h

/-- A cursor built from pairs records each field once, in the order of the first pairs of the fields. It
records for a field the value of the last pair of the field, and nothing if and only if the field has no
pair. Built from its own pairs it is the same. So a cursor that an accepted token leads to records each
field once too, and is the same when it is built from its own pairs. -/
theorem ofPairs_first_insertion :
    (ofPairs pairs).fields.Nodup ∧
    InOrderOf (pairs.map Prod.fst) (ofPairs pairs).fields ∧
    (∀ field value, (ofPairs pairs).get? field = some value ↔
      ∃ front back, pairs = front ++ (field, value) :: back ∧ field ∉ back.map Prod.fst) ∧
    (∀ field, (ofPairs pairs).get? field = none ↔ field ∉ pairs.map Prod.fst) ∧
    ofPairs (ofPairs pairs).pairs = ofPairs pairs ∧
    ∀ token c, ofToken token = .ok c → c.fields.Nodup ∧ ofPairs c.pairs = c := by
  refine ⟨nodup_fields_ofPairs pairs, inOrderOf_ofPairs pairs, get?_ofPairs_eq_some_iff pairs,
    get?_ofPairs_eq_none_iff pairs, ofPairs_pairs pairs, ?_⟩
  intro token c htoken
  obtain ⟨read, rfl⟩ := exists_pairs_of_ofToken htoken
  exact ⟨nodup_fields_ofPairs read, ofPairs_pairs read⟩

end Pairs

/-- Three pairs, two of them of one field. -/
def repeatedPairs : List (String × Value) := [("a", .int 1), ("b", .int 2), ("a", .int 3)]

/-- A token of a document that holds the three pairs as they are. -/
def repeatedToken : String :=
  "W1siYSIseyJ0eXBlIjoiaW50IiwidmFsdWUiOjF9XSxbImIiLHsidHlwZSI6Imlu" ++
    "dCIsInZhbHVlIjoyfV0sWyJhIix7InR5cGUiOiJpbnQiLCJ2YWx1ZSI6M31dXQ"

theorem ofPairs_first_insertion_repeated :
    ofToken repeatedToken = .ok (ofPairs repeatedPairs) ∧
      (ofPairs repeatedPairs).fields = ["a", "b"] ∧
      (ofPairs repeatedPairs).get? "a" = some (.int 3) ∧
      (ofPairs repeatedPairs).fields.Nodup ∧
      ofPairs (ofPairs repeatedPairs).pairs = ofPairs repeatedPairs := by
  have htoken : ofToken repeatedToken = .ok (ofPairs repeatedPairs) := by decide +kernel
  obtain ⟨_, _, hvalue, _, _, haccepted⟩ := ofPairs_first_insertion repeatedPairs
  have hlast := (hvalue "a" (.int 3)).mpr ⟨[("a", .int 1), ("b", .int 2)], [], rfl, nofun⟩
  exact ⟨htoken, by decide, hlast, haccepted _ _ htoken⟩

end RowQuery.Cursor
