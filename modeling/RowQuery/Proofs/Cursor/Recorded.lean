import Mathlib.Data.List.Induction
import RowQuery.Cursor.Keys
import RowQuery.Page.Key

/-!
# The values that a cursor records

A cursor built from pairs records for each field the value of the last pair of that field. The cursor
built from the fields of an ordering and the key of a row therefore records that key, even if the
ordering has a field twice.

Results:
* `ofPairs_induction`: what one more pair keeps holds of the cursor built from all pairs.
* `get?_ofPairs`: the last pair of a field decides.
* `leading_ofPairs_rowKey`: the cursor of a row records its whole key.
* `ofPairs_pairs`: built from its own pairs, a cursor is the same.
-/

namespace RowQuery.Cursor

theorem ofPairs_concat (pairs : List (String × Value)) (p : String × Value) :
    ofPairs (pairs ++ [p]) = (ofPairs pairs).put p.1 p.2 := by
  unfold ofPairs
  rw [List.foldl_append]
  rfl

/-- What holds of no pairs, and is kept when one more pair is recorded, holds of all pairs and the cursor
built from them. -/
theorem ofPairs_induction {P : List (String × Value) → Cursor → Prop} (hempty : P [] empty)
    (hput : ∀ pairs p c, P pairs c → P (pairs ++ [p]) (c.put p.1 p.2))
    (pairs : List (String × Value)) : P pairs (ofPairs pairs) := by
  -- From the end, because a cursor grows by the last of its pairs.
  induction pairs using List.reverseRecOn with
  | nil => exact hempty
  | append_singleton pairs p ih =>
    rw [ofPairs_concat]
    exact hput pairs p _ ih

/-- The last pair of a field decides which value is recorded for it. -/
theorem get?_ofPairs (pairs : List (String × Value)) (field : String) :
    (ofPairs pairs).get? field = (pairs.reverse.find? fun p => p.1 == field).map Prod.snd := by
  refine ofPairs_induction (P := fun pairs c =>
    c.get? field = (pairs.reverse.find? fun p => p.1 == field).map Prod.snd) rfl ?_ pairs
  intro pairs p c ih
  rw [List.reverse_concat]
  by_cases hp : p.1 = field
  · subst hp
    rw [get?_put_self]
    simp
  · rw [get?_put_of_ne c p.2 (Ne.symm hp), ih]
    simp [hp]

/-- Where the value of each pair depends on its field alone, that value is recorded. -/
theorem get?_ofPairs_of_mem {pairs : List (String × Value)} {field : String} (value : String → Value)
    (hv : ∀ p ∈ pairs, p.2 = value p.1) (hf : field ∈ pairs.map Prod.fst) :
    (ofPairs pairs).get? field = some (value field) := by
  rw [get?_ofPairs]
  obtain ⟨p, hp, hfield⟩ := List.mem_map.mp hf
  cases hfind : pairs.reverse.find? fun p => p.1 == field with
  | none =>
    have hne := List.find?_eq_none.mp hfind p (List.mem_reverse.mpr hp)
    exact absurd (beq_iff_eq.mpr hfield) hne
  | some r =>
    have hr : r.1 = field := by simpa using List.find?_some hfind
    have hmem : r ∈ pairs := List.mem_reverse.mp (List.mem_of_find?_eq_some hfind)
    rw [Option.map_some, hv r hmem, hr]

/-! ## The pairs of a cursor -/

theorem putPair_of_not_mem {field : String} (value : Value) {pairs : List (String × Value)}
    (h : field ∉ pairs.map Prod.fst) : putPair field value pairs = pairs ++ [(field, value)] := by
  induction pairs with
  | nil => rfl
  | cons p pairs ih =>
    rw [List.map_cons, List.mem_cons, not_or] at h
    rw [putPair, if_neg (Ne.symm h.1), ih h.2]
    rfl

/-- What holds of the value put and of those recorded holds of all that are recorded then. -/
theorem forall_mem_putPair {P : Value → Prop} {field : String} {value : Value}
    {pairs : List (String × Value)} (hv : P value) (h : ∀ p ∈ pairs, P p.2) :
    ∀ p ∈ putPair field value pairs, P p.2 := by
  induction pairs with
  | nil =>
    intro p hp
    rw [List.mem_singleton.mp hp]
    exact hv
  | cons q pairs ih =>
    obtain ⟨hq, hpairs⟩ := List.forall_mem_cons.mp h
    unfold putPair
    split
    · exact List.forall_mem_cons.mpr ⟨hv, hpairs⟩
    · exact List.forall_mem_cons.mpr ⟨hq, ih hpairs⟩

theorem forall_mem_ofPairs {P : Value → Prop} {pairs : List (String × Value)}
    (h : ∀ p ∈ pairs, P p.2) : ∀ p ∈ (ofPairs pairs).pairs, P p.2 := by
  refine ofPairs_induction (P := fun pairs c => (∀ p ∈ pairs, P p.2) → ∀ p ∈ c.pairs, P p.2)
    (fun _ => nofun) ?_ pairs h
  intro pairs p c ih hall
  obtain ⟨hpairs, hp⟩ := List.forall_mem_append.mp hall
  exact forall_mem_putPair (hp p List.mem_cons_self) (ih hpairs)

/-- A value that is recorded stands in a pair of the cursor. -/
theorem mem_pairs_of_get? {c : Cursor} {field : String} {value : Value}
    (h : c.get? field = some value) : (field, value) ∈ c.pairs := by
  unfold get? at h
  generalize c.pairs = pairs at h
  induction pairs with
  | nil => cases h
  | cons p pairs ih =>
    unfold getPair? at h
    split at h
    · next hfield =>
      cases hfield
      cases h
      exact List.mem_cons_self
    · exact List.mem_cons_of_mem p (ih h)

theorem nodup_fields_put {c : Cursor} (h : c.fields.Nodup) (field : String) (value : Value) :
    (c.put field value).fields.Nodup := by
  rw [fields_put]
  split
  · exact h
  · next hnew =>
    refine List.nodup_append.mpr ⟨h, List.pairwise_singleton _ field, ?_⟩
    rintro k hk _ hfield rfl
    rw [List.mem_singleton.mp hfield] at hk
    exact hnew hk

/-- A cursor records each field once. -/
theorem nodup_fields_ofPairs (pairs : List (String × Value)) : (ofPairs pairs).fields.Nodup :=
  ofPairs_induction (P := fun _ c => c.fields.Nodup) List.nodup_nil
    (fun _ p _ h => nodup_fields_put h p.1 p.2) pairs

/-- Pairs of different fields are recorded as they are. -/
theorem pairs_ofPairs {pairs : List (String × Value)} (h : (pairs.map Prod.fst).Nodup) :
    (ofPairs pairs).pairs = pairs := by
  refine ofPairs_induction (P := fun pairs c => (pairs.map Prod.fst).Nodup → c.pairs = pairs)
    (fun _ => rfl) ?_ pairs h
  intro pairs p c ih hnodup
  rw [List.map_append, List.nodup_append] at hnodup
  obtain ⟨hpairs, _, hapart⟩ := hnodup
  have hnew : p.1 ∉ c.pairs.map Prod.fst := by
    rw [ih hpairs]
    exact fun hmem => hapart p.1 hmem p.1 List.mem_cons_self rfl
  show putPair p.1 p.2 c.pairs = pairs ++ [p]
  rw [putPair_of_not_mem p.2 hnew, ih hpairs]

/-- Built from its own pairs, a cursor is the same. -/
theorem ofPairs_pairs (pairs : List (String × Value)) :
    ofPairs (ofPairs pairs).pairs = ofPairs pairs :=
  congrArg Cursor.mk (pairs_ofPairs (nodup_fields_ofPairs pairs))

/-! ## The keys of rows -/

/-- The keys that lead an ordering are all of them, if the cursor records them all. -/
theorem leading_eq_map {c : Cursor} {keys : List OrderKey} {value : OrderKey → Value}
    (h : ∀ k ∈ keys, c.get? k.field = some (value k)) :
    c.leading keys = keys.map fun k => (k, value k) := by
  induction keys with
  | nil => rfl
  | cons k keys ih =>
    obtain ⟨hk, hkeys⟩ := List.forall_mem_cons.mp h
    unfold leading
    rw [hk, ih hkeys]
    rfl

section RowKey

variable {ρ : Type} [Record ρ]

/-- The cursor of a row records the value of the row for each field of the ordering. -/
theorem get?_ofPairs_rowKey (keys : List OrderKey) (row : ρ) {k : OrderKey} (hk : k ∈ keys) :
    (ofPairs ((keys.map OrderKey.field).zip (OrderKey.rowKey keys row))).get? k.field =
      some (Record.value row k.field) := by
  have hzip : (keys.map OrderKey.field).zip (OrderKey.rowKey keys row) =
      keys.map fun k => (k.field, Record.value row k.field) := by
    unfold OrderKey.rowKey
    rw [List.zip_map']
  rw [hzip]
  refine get?_ofPairs_of_mem (Record.value row) ?_ ?_
  · intro p hp
    obtain ⟨k, _, rfl⟩ := List.mem_map.mp hp
    rfl
  · rw [List.map_map]
    exact List.mem_map_of_mem hk

/-- The cursor of a row records the whole key of the row. -/
theorem leading_ofPairs_rowKey (keys : List OrderKey) (row : ρ) :
    (ofPairs ((keys.map OrderKey.field).zip (OrderKey.rowKey keys row))).leading keys =
      keys.map fun k => (k, Record.value row k.field) :=
  leading_eq_map fun _ hk => get?_ofPairs_rowKey keys row hk

/-- What holds of the values that the cursor of a row records holds of those of the row. -/
theorem forall_mem_pairs_rowKey_iff {P : Value → Prop} (keys : List OrderKey) (row : ρ) :
    (∀ p ∈ (ofPairs ((keys.map OrderKey.field).zip (OrderKey.rowKey keys row))).pairs, P p.2) ↔
      ∀ k ∈ keys, P (Record.value row k.field) := by
  constructor
  · exact fun h k hk => h _ (mem_pairs_of_get? (get?_ofPairs_rowKey keys row hk))
  · intro h
    refine forall_mem_ofPairs fun p hp => ?_
    obtain ⟨k, hk, hvalue⟩ := List.mem_map.mp (List.of_mem_zip hp).2
    rw [← hvalue]
    exact h k hk

end RowKey

end RowQuery.Cursor
