import RowQuery.Proofs.Json.Numbers
import RowQuery.Proofs.Timestamp.Reading
import RowQuery.Proofs.Value.Settled
import RowQuery.Value.Json

/-!
# Values written in JSON are read back

The document of a value names its kind and holds its content, and each content leads back to the value,
but for floating-point numbers that are read as another number or as none, and for leap seconds inside a
minute. A list takes two levels of the document, its object and its array.

Results:
* `isSound_toJson`: the document of a value is sound.
* `ofJson?_toJson`: the settled form of a value is read back where there is room for its lists.
* `ofJson?_toJson_iff`: a value is read back from its document if and only if its floating-point numbers
  are, its points in time are settled and its lists fit into the depth.
-/

namespace RowQuery.Value

mutual

/-- Whether a value has no floating-point number inside. -/
def isFloatFree : Value → Bool
  | .float _ => false
  | .list items => areFloatFree items
  | _ => true

def areFloatFree : List Value → Bool
  | [] => true
  | v :: rest => v.isFloatFree && areFloatFree rest

end

mutual

/-- Whether every floating-point number inside a value is read back from what is written for it. -/
def areFloatsCarried : Value → Bool
  | .float x => Json.carries x
  | .list items => areItemFloatsCarried items
  | _ => true

def areItemFloatsCarried : List Value → Bool
  | [] => true
  | v :: rest => v.areFloatsCarried && areItemFloatsCarried rest

end

mutual

theorem areFloatsCarried_of_isFloatFree (v : Value) (h : v.isFloatFree = true) :
    v.areFloatsCarried = true := by
  cases v with
  | float x => cases h
  | list items => exact areItemFloatsCarried_of_areFloatFree items h
  | _ => rfl

theorem areItemFloatsCarried_of_areFloatFree (items : List Value) (h : areFloatFree items = true) :
    areItemFloatsCarried items = true := by
  cases items with
  | nil => rfl
  | cons v rest =>
    obtain ⟨hv, hrest⟩ := Bool.and_eq_true_iff.mp h
    exact Bool.and_eq_true_iff.mpr
      ⟨areFloatsCarried_of_isFloatFree v hv, areItemFloatsCarried_of_areFloatFree rest hrest⟩

end

mutual

/-- How many lists stand inside each other. -/
def listDepth : Value → Nat
  | .list items => maxListDepth items + 1
  | _ => 0

def maxListDepth : List Value → Nat
  | [] => 0
  | v :: rest => max v.listDepth (maxListDepth rest)

end

/-! ## Documents -/

theorem isSound_tagged {content : Json} (tag : String) (h : content.isSound = true) :
    (tagged tag content).isSound = true := by
  show (true && (content.isSound && true)) = true
  rw [h]
  rfl

mutual

/-- The document of a value is sound. -/
theorem isSound_toJson (v : Value) : v.toJson.isSound = true := by
  cases v with
  | null => rfl
  | bool b => rfl
  | int i => exact isSound_tagged "int" (Numeral.isCanonical_ofInt i.toInt)
  | float x => exact isSound_tagged "float" (Json.isSound_ofDouble x)
  | string s => rfl
  | dateTime t => rfl
  | list items => exact isSound_tagged "list" (areItemsSound_toJsonItems items)

theorem areItemsSound_toJsonItems (items : List Value) :
    Json.areItemsSound (toJsonItems items) = true := by
  cases items with
  | nil => rfl
  | cons v rest =>
    unfold toJsonItems Json.areItemsSound
    rw [isSound_toJson v, areItemsSound_toJsonItems rest]
    rfl

end

/-! ## Reading -/

theorem toInt64?_ofInt (i : Int64) : (Json.ofInt i.toInt).toInt64? = some i := by
  show ((Numeral.ofInt i.toInt).toInt?).bind Word.int64? = _
  rw [Numeral.toInt?_ofInt, Option.bind_some, Word.int64?_toInt]

/-- The elements that an array gives, read within the depth that is left inside it. -/
def itemsAt? (o : Origin) (depth : Nat) : Json → Option (List Value)
  | .array items =>
    match depth with
    | 0 => none
    | depth + 1 => items.mapM (read? o depth)
  | _ => none

theorem read?_object (o : Origin) (depth : Nat) (members : List (String × Json)) :
    read? o (depth + 1) (.object members) = (do
      let kind ← (← Json.member? "type" members)
      let content ← Json.member? "value" members
      let tag ← o.tagOfMember? depth kind
      if contentFirst members && !(content.all (Json.isReadable depth)) then none
      else ofContent? (itemsAt? (o.ofContent members) depth) tag content) :=
  read?.eq_1 o depth members

/-- The content of a document that names its kind first is read as one of this kind. -/
theorem read?_tagged (depth : Nat) (tag : String) (content : Json) :
    read? .direct (depth + 1) (tagged tag content) =
      ofContent? (itemsAt? .direct depth) tag (some content) := by
  rw [tagged, read?_object]
  simp [Json.member?, contentFirst, Origin.tagOfMember?, Json.name?, Origin.ofContent]

theorem read?_null (depth : Nat) : read? .direct (depth + 1) (toJson .null) = some .null := by
  rw [toJson, read?_object]
  simp [Json.member?, contentFirst, Origin.tagOfMember?, Json.name?, ofContent?]

section Contents

variable (items? : Json → Option (List Value))

theorem ofContent?_bool (b : Bool) : ofContent? items? "bool" (some (.bool b)) = some (.bool b) := by
  simp [ofContent?, Json.toBool?]

theorem ofContent?_int (i : Int64) :
    ofContent? items? "int" (some (.ofInt i.toInt)) = some (.int i) := by
  simp [ofContent?, toInt64?_ofInt]

theorem ofContent?_float (x : Double) :
    ofContent? items? "float" (some (.ofDouble x)) = ((Json.ofDouble x).toDouble?).map .float := by
  simp [ofContent?]

theorem ofContent?_string (s : String) :
    ofContent? items? "string" (some (.string s)) = some (.string s) := by
  simp [ofContent?, Json.toString?]

theorem ofContent?_dateTime (t : Timestamp) :
    ofContent? items? "date_time" (some (.string t.exactText)) = some (.dateTime t.settled) := by
  simp [ofContent?, Json.toString?, Timestamp.ofText?_exactText]

theorem ofContent?_list (content : Json) :
    ofContent? items? "list" (some content) = (items? content).map .list := by
  simp [ofContent?]

end Contents

/-- An infinity or a NaN is not read at all. -/
theorem ofJson?_toJson_eq_none {x : Double} (h : x.isFinite = false) (depth : Nat) :
    ofJson? (depth + 1) (toJson (.float x)) = none := by
  have hnull : Json.ofDouble x = .null := by
    unfold Json.ofDouble
    rw [h]
    rfl
  unfold ofJson?
  rw [toJson, read?_tagged, ofContent?_float, hnull]
  rfl

/-- What is read of the document of a value: only floating-point numbers, points in time and elements of
lists may turn out otherwise. -/
theorem read?_toJson (depth : Nat) (v : Value) :
    read? .direct (depth + 1) v.toJson =
      match v with
      | .float x => ((Json.ofDouble x).toDouble?).map .float
      | .dateTime t => some (.dateTime t.settled)
      | .list items => (itemsAt? .direct depth (.array (toJsonItems items))).map .list
      | v => some v := by
  cases v with
  | null => exact read?_null depth
  | bool b => exact (read?_tagged _ "bool" _).trans (ofContent?_bool _ b)
  | int i => exact (read?_tagged _ "int" _).trans (ofContent?_int _ i)
  | float x => exact (read?_tagged _ "float" _).trans (ofContent?_float _ x)
  | string s => exact (read?_tagged _ "string" _).trans (ofContent?_string _ s)
  | dateTime t => exact (read?_tagged _ "date_time" _).trans (ofContent?_dateTime _ t)
  | list items => exact (read?_tagged _ "list" _).trans (ofContent?_list _ _)

mutual

/-- A value whose floating-point numbers are read back and whose lists leave room in the depth is read
back in its settled form. -/
theorem ofJson?_toJson (v : Value) (hfloats : v.areFloatsCarried = true) {depth : Nat}
    (hdepth : 2 * v.listDepth < depth) : ofJson? depth v.toJson = some v.settled := by
  obtain ⟨depth, rfl⟩ : ∃ d, depth = d + 1 := ⟨depth - 1, by omega⟩
  unfold ofJson?
  rw [read?_toJson]
  cases v with
  | float x =>
    have hx : (Json.ofDouble x).toDouble? = some x := of_decide_eq_true hfloats
    exact congrArg (Option.map Value.float) hx
  | list items =>
    have hlists : 2 * (maxListDepth items + 1) < depth + 1 := hdepth
    obtain ⟨depth, rfl⟩ : ∃ d, depth = d + 1 := ⟨depth - 1, by omega⟩
    have hitems : (toJsonItems items).mapM (read? .direct depth) = some (settledItems items) :=
      mapM_toJsonItems items hfloats (by omega)
    exact congrArg (Option.map Value.list) hitems
  | null | bool _ | int _ | string _ | dateTime _ => rfl

theorem mapM_toJsonItems (items : List Value) (hfloats : areItemFloatsCarried items = true)
    {depth : Nat} (hdepth : 2 * maxListDepth items < depth) :
    (toJsonItems items).mapM (read? .direct depth) = some (settledItems items) := by
  cases items with
  | nil => rfl
  | cons v rest =>
    obtain ⟨hv, hrest⟩ := Bool.and_eq_true_iff.mp hfloats
    unfold maxListDepth at hdepth
    unfold toJsonItems settledItems
    exact Outcome.mapM_cons_eq_some_iff.mpr
      ⟨ofJson?_toJson v hv (by omega), mapM_toJsonItems rest hrest (by omega)⟩

end

mutual

/-- A value is read back if and only if its floating-point numbers are, its points in time are settled and
its lists fit into the depth. -/
theorem ofJson?_toJson_iff (v : Value) (n : Nat) :
    ofJson? (2 * n + 1) v.toJson = some v ↔
      (v.areFloatsCarried = true ∧ v.areTimesSettled = true) ∧ v.listDepth ≤ n := by
  constructor
  · intro hread
    unfold ofJson? at hread
    rw [read?_toJson] at hread
    cases v with
    | float x =>
      obtain ⟨_, hx, hfloat⟩ := Option.map_eq_some_iff.mp hread
      cases hfloat
      exact ⟨⟨decide_eq_true hx, rfl⟩, Nat.zero_le n⟩
    | dateTime t =>
      have hself : t.settled = t := dateTime.inj (Option.some.inj hread)
      exact ⟨⟨rfl, t.settled_eq_self_iff.mp hself⟩, Nat.zero_le n⟩
    | list items =>
      cases n with
      | zero => cases hread
      | succ n =>
        obtain ⟨_, hitems, hlist⟩ := Option.map_eq_some_iff.mp hread
        cases hlist
        obtain ⟨hcarried, hdepth⟩ := (mapM_toJsonItems_iff items n).mp hitems
        exact ⟨hcarried, Nat.succ_le_succ hdepth⟩
    | null | bool _ | int _ | string _ => exact ⟨⟨rfl, rfl⟩, Nat.zero_le n⟩
  · rintro ⟨⟨hfloats, htimes⟩, hdepth⟩
    rw [ofJson?_toJson v hfloats (by omega), v.settled_eq_self_iff.mpr htimes]

theorem mapM_toJsonItems_iff (items : List Value) (n : Nat) :
    (toJsonItems items).mapM (read? .direct (2 * n + 1)) = some items ↔
      (areItemFloatsCarried items = true ∧ areItemTimesSettled items = true) ∧
        maxListDepth items ≤ n := by
  cases items with
  | nil => exact iff_of_true rfl ⟨⟨rfl, rfl⟩, Nat.zero_le n⟩
  | cons v rest =>
    have hhead : read? .direct (2 * n + 1) v.toJson = some v ↔ _ := ofJson?_toJson_iff v n
    unfold toJsonItems areItemFloatsCarried areItemTimesSettled maxListDepth
    rw [Outcome.mapM_cons_eq_some_iff, hhead, mapM_toJsonItems_iff rest n, Bool.and_eq_true,
      Bool.and_eq_true, Nat.max_le, and_and_and_comm,
      and_and_and_comm (a := v.areFloatsCarried = true)]

end

end RowQuery.Value
