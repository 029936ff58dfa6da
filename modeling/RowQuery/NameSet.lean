/-!
# Sets of names

A set of names is kept in order, every name once, so two sets with the same names are equal.

Results: `mem_insert` says which names are in the set after an insertion; `ext_mem` that a set is
determined by its names.
-/

namespace RowQuery

/-- A set of names in ascending order. -/
structure NameSet where
  names : List String
  sorted : names.Pairwise (· < ·)
deriving DecidableEq

namespace NameSet

def empty : NameSet := ⟨[], .nil⟩

instance : Inhabited NameSet := ⟨empty⟩

instance : Membership String NameSet := ⟨fun s name => name ∈ s.names⟩

/-- An ordered list with a name added. -/
def insertName (name : String) : List String → List String
  | [] => [name]
  | n :: rest =>
    if name < n then name :: n :: rest
    else if name = n then n :: rest
    else n :: insertName name rest

theorem mem_insertName {x name : String} {names : List String} :
    x ∈ insertName name names ↔ x = name ∨ x ∈ names := by
  induction names with
  | nil => simp [insertName]
  | cons n rest ih =>
    simp only [insertName]
    split
    · simp
    · split
      · rename_i h
        simp [h]
      · simp only [List.mem_cons, ih]
        grind

theorem insertName_sorted {name : String} {names : List String} (h : names.Pairwise (· < ·)) :
    (insertName name names).Pairwise (· < ·) := by
  induction names with
  | nil => simp [insertName]
  | cons n rest ih =>
    have hn := List.pairwise_cons.mp h
    simp only [insertName]
    split
    · rename_i hlt
      refine List.pairwise_cons.mpr ⟨fun y hy => ?_, h⟩
      rcases List.mem_cons.mp hy with rfl | hy
      · exact hlt
      · exact String.lt_trans hlt (hn.1 y hy)
    · split
      · exact h
      · rename_i hlt hne
        refine List.pairwise_cons.mpr ⟨fun y hy => ?_, ih hn.2⟩
        rcases mem_insertName.mp hy with rfl | hy
        · exact Std.lt_of_le_of_ne (Std.not_lt.mp hlt) (Ne.symm hne)
        · exact hn.1 y hy

def insert (s : NameSet) (name : String) : NameSet :=
  ⟨insertName name s.names, insertName_sorted s.sorted⟩

def insertAll (s : NameSet) (names : List String) : NameSet := names.foldl insert s

def ofList (names : List String) : NameSet := empty.insertAll names

def isEmpty (s : NameSet) : Bool := s.names.isEmpty

theorem mem_insert {x name : String} {s : NameSet} : x ∈ s.insert name ↔ x = name ∨ x ∈ s :=
  mem_insertName

theorem mem_insertAll {x : String} {names : List String} {s : NameSet} :
    x ∈ s.insertAll names ↔ x ∈ names ∨ x ∈ s := by
  induction names generalizing s with
  | nil => simp [insertAll]
  | cons n rest ih =>
    simp only [insertAll, List.foldl_cons, List.mem_cons] at ih ⊢
    rw [ih, mem_insert]
    grind

theorem ext_mem {s t : NameSet} (h : ∀ x, x ∈ s ↔ x ∈ t) : s = t := by
  have hperm : s.names.Perm t.names := by
    refine (List.perm_ext_iff_of_nodup ?_ ?_).mpr h
    · exact s.sorted.imp fun hlt => (String.ne_of_lt hlt)
    · exact t.sorted.imp fun hlt => (String.ne_of_lt hlt)
  have heq : s.names = t.names :=
    hperm.eq_of_pairwise (fun a b _ _ hab hba => absurd (String.lt_trans hab hba) (String.lt_irrefl a))
      s.sorted t.sorted
  cases s
  cases t
  simp_all

end NameSet

end RowQuery
