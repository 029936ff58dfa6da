import RowQuery.Value.Basic

/-!
# Cursors

A cursor marks a place in an ordered set of rows by the values that the row there holds in some
fields. It is built from field and value pairs: a field keeps the place of its first pair and the
value of its last one.

Results:
* `fields_put`: putting a value adds its field at the end, unless the field is there.
* `get?_put_self`, `get?_put_of_ne`: putting a value changes that field alone.
-/

namespace RowQuery

/-- The values recorded for some fields, in order. -/
structure Cursor where
  pairs : List (String × Value)
deriving DecidableEq

namespace Cursor

instance : Inhabited Cursor := ⟨⟨[]⟩⟩

/-- The pairs with the value of a field replaced, or the field added at the end. -/
def putPair (field : String) (value : Value) : List (String × Value) → List (String × Value)
  | [] => [(field, value)]
  | (k, v) :: rest => if k = field then (k, value) :: rest else (k, v) :: putPair field value rest

/-- The value of the first pair with a field. -/
def getPair? (field : String) : List (String × Value) → Option Value
  | [] => none
  | (k, v) :: rest => if k = field then some v else getPair? field rest

def empty : Cursor := ⟨[]⟩

/-- The cursor with one more value recorded. -/
def put (c : Cursor) (field : String) (value : Value) : Cursor := ⟨putPair field value c.pairs⟩

/-- The cursor that records the given pairs one after the other. -/
def ofPairs (pairs : List (String × Value)) : Cursor :=
  pairs.foldl (fun c p => c.put p.1 p.2) empty

def get? (c : Cursor) (field : String) : Option Value := getPair? field c.pairs

def contains (c : Cursor) (field : String) : Bool := (c.get? field).isSome

def fields (c : Cursor) : List String := c.pairs.map Prod.fst

def size (c : Cursor) : Nat := c.pairs.length

def isEmpty (c : Cursor) : Bool := c.pairs.isEmpty

theorem map_fst_putPair (field : String) (value : Value) (pairs : List (String × Value)) :
    (putPair field value pairs).map Prod.fst =
      if field ∈ pairs.map Prod.fst then pairs.map Prod.fst else pairs.map Prod.fst ++ [field] := by
  induction pairs with
  | nil => simp [putPair]
  | cons p rest ih =>
    simp only [putPair]
    by_cases h : p.1 = field
    · simp [h]
    · have h' : ¬field = p.1 := fun e => h e.symm
      simp only [h, if_false, List.map_cons, List.mem_cons, h', false_or, ih]
      split <;> simp

theorem fields_put (c : Cursor) (field : String) (value : Value) :
    (c.put field value).fields = if field ∈ c.fields then c.fields else c.fields ++ [field] :=
  map_fst_putPair field value c.pairs

theorem get?_put_self (c : Cursor) (field : String) (value : Value) :
    (c.put field value).get? field = some value := by
  simp only [put, get?]
  induction c.pairs with
  | nil => simp [putPair, getPair?]
  | cons p rest ih =>
    simp only [putPair]
    split <;> simp_all [getPair?]

theorem get?_put_of_ne (c : Cursor) {field other : String} (value : Value) (h : other ≠ field) :
    (c.put field value).get? other = c.get? other := by
  have h' : ¬field = other := fun e => h e.symm
  simp only [put, get?]
  induction c.pairs with
  | nil => simp [putPair, getPair?, h']
  | cons p rest ih =>
    simp only [putPair]
    split
    · rename_i hp
      simp [getPair?, hp, h']
    · simp [getPair?, ih]

end Cursor

end RowQuery
