import RowQuery.Json.Number
import RowQuery.Text.LowerCase
import RowQuery.Value.Basic

/-!
# Trees of settings

Sources give settings as trees: tables of named settings, lists, and plain values. One tree is laid
over another: tables are merged name by name, in lower case, and anything else takes the place of what
was there. A table without names changes nothing. What stands in a list is not merged and keeps its
names as they are given.

Results: `find?_update_self` and `find?_update_of_ne`, an update changes one name alone.
-/

namespace RowQuery

/-- What a source gives for a setting. -/
inductive Setting where
  | null
  | bool (b : Bool)
  | int (i : Int64)
  | float (x : Double)
  | text (s : String)
  | list (items : List Setting)
  | table (entries : List (String × Setting))

namespace Setting

instance : Inhabited Setting := ⟨.null⟩

/-- The entries of a table; anything else has none. -/
def entries : Setting → List (String × Setting)
  | .table es => es
  | _ => []

/-- The elements of a list; anything else has none. -/
def items : Setting → List Setting
  | .list is => is
  | _ => []

/-- The setting with a name among some entries. -/
def lookup? (name : String) : List (String × Setting) → Option Setting
  | [] => none
  | (k, s) :: rest => if k = name then some s else lookup? name rest

/-- The setting with a name in a table. -/
def find? (t : Setting) (name : String) : Option Setting := lookup? name t.entries

/-- Entries with one of them changed; one that is missing starts as an empty table. -/
def changeEntry (name : String) (f : Setting → Setting) :
    List (String × Setting) → List (String × Setting)
  | [] => [(name, f (.table []))]
  | (k, s) :: rest => if k = name then (k, f s) :: rest else (k, s) :: changeEntry name f rest

/-- A table with one entry changed. What is no table becomes one. -/
def update (t : Setting) (name : String) (f : Setting → Setting) : Setting :=
  .table (changeEntry name f t.entries)

/-- A list with one element changed, and lengthened up to that element. What is no list becomes one. A
negative place counts from the end. -/
def updateAt (t : Setting) (place : Int) (f : Setting → Setting) : Setting :=
  let is := t.items
  let i := if 0 ≤ place then place.toNat else is.length - place.natAbs
  let is := is ++ List.replicate (i + 1 - is.length) .null
  .list (is.modify i f)

mutual

/-- A tree laid over another one. -/
def overlay (target : Setting) : Setting → Setting
  | .table es => overlayEntries target es
  | s => s

/-- The entries of a table laid over a tree one by one. -/
def overlayEntries (target : Setting) : List (String × Setting) → Setting
  | [] => target
  | (name, s) :: rest =>
    overlayEntries (target.update (Text.lower name) fun t => overlay t s) rest

end

mutual

/-- The tree that a document denotes. Of members with one name the last one counts. -/
def ofJson? : Json → Option Setting
  | .null => some .null
  | .bool b => some (.bool b)
  | .number n =>
    match (Json.number n).toInt64? with
    | some i => some (.int i)
    | none => n.toDouble?.map .float
  | .string s => some (.text s)
  | .array js => (ofJsonItems? js).map .list
  | .object members => (ofJsonMembers? members).map .table
  | .garbled => none

/-- The trees that the elements of an array denote. -/
def ofJsonItems? : List Json → Option (List Setting)
  | [] => some []
  | j :: rest => do
    let s ← ofJson? j
    let ss ← ofJsonItems? rest
    some (s :: ss)

/-- The entries that the members of an object denote. -/
def ofJsonMembers? : List (String × Json) → Option (List (String × Setting))
  | [] => some []
  | (name, j) :: rest => do
    let s ← ofJson? j
    let ss ← ofJsonMembers? rest
    some (if ss.any fun e => e.1 == name then ss else (name, s) :: ss)

end

theorem lookup?_changeEntry_self (name : String) (f : Setting → Setting)
    (es : List (String × Setting)) :
    lookup? name (changeEntry name f es) = some (f ((lookup? name es).getD (.table []))) := by
  induction es with
  | nil => simp [changeEntry, lookup?]
  | cons e rest ih =>
    obtain ⟨k, s⟩ := e
    by_cases h : k = name <;> simp [changeEntry, lookup?, h, ih]

theorem lookup?_changeEntry_of_ne {name other : String} (f : Setting → Setting)
    (es : List (String × Setting)) (h : other ≠ name) :
    lookup? other (changeEntry name f es) = lookup? other es := by
  have h' : ¬name = other := fun e => h e.symm
  induction es with
  | nil => simp [changeEntry, lookup?, h']
  | cons e rest ih =>
    obtain ⟨k, s⟩ := e
    by_cases hk : k = name
    · subst hk
      simp [changeEntry, lookup?, h']
    · simp [changeEntry, lookup?, hk, ih]

theorem find?_update_self (t : Setting) (name : String) (f : Setting → Setting) :
    (t.update name f).find? name = some (f ((t.find? name).getD (.table []))) :=
  lookup?_changeEntry_self name f t.entries

theorem find?_update_of_ne (t : Setting) {name other : String} (f : Setting → Setting)
    (h : other ≠ name) : (t.update name f).find? other = t.find? other :=
  lookup?_changeEntry_of_ne f t.entries h

end Setting

end RowQuery
