import RowQuery.Filter.Json
import RowQuery.Page.Json
import RowQuery.Proofs.Cursor.Token

/-!
# Filters and pages written in JSON are read back

A record is written as an object of the fields that it has, each under a name of its own, so every field
is found again, and one that was left out is found to be absent. A cursor in a record is a string that
holds its token, and the token leads to the settled form of the cursor.

Results:
* `fields?_membersOf`: the fields of a record are found again, those that were left out as well.
* `PageInfo.ofJson?_toJson`, `Page.ofJson?_toJson`, `Filter.ofJson?_toJson`: what the documents of
  pages and filters are read as.
* `portable_records_read_back`: pages and filters without floating-point numbers are read back from their
  texts in their settled forms, and as they were if and only if their points in time are settled.
* `portable_records_leapInside`: a leap second inside a minute is lost.
-/

namespace RowQuery

namespace Json

/-! ## Records -/

/-- The members of an object that holds the fields that are there. -/
def membersOf (fields : List (String × Option Json)) : List (String × Json) :=
  fields.filterMap fun f => f.2.map (f.1, ·)

section Fields

variable {fields : List (String × Option Json)} {name : String}

theorem filter_membersOf_of_not_mem (h : name ∉ fields.map Prod.fst) :
    (membersOf fields).filter (fun m => m.1 == name) = [] := by
  refine List.filter_eq_nil_iff.mpr fun m hm hname => ?_
  obtain ⟨f, hf, hvalue⟩ := List.mem_filterMap.mp hm
  obtain ⟨_, _, rfl⟩ := Option.map_eq_some_iff.mp hvalue
  exact h (beq_iff_eq.mp hname ▸ List.mem_map_of_mem hf)

theorem filter_membersOf (h : (fields.map Prod.fst).Nodup) {f : String × Option Json}
    (hf : f ∈ fields) :
    (membersOf fields).filter (fun m => m.1 == f.1) = f.2.toList.map (f.1, ·) := by
  induction fields with
  | nil => cases hf
  | cons g fields ih =>
    obtain ⟨hg, hnodup⟩ := List.nodup_cons.mp h
    have hcons : membersOf (g :: fields) = g.2.toList.map (g.1, ·) ++ membersOf fields := by
      cases hvalue : g.2 with
      | none => exact List.filterMap_cons_none (by rw [hvalue]; rfl)
      | some j => exact List.filterMap_cons_some (by rw [hvalue]; rfl)
    rw [hcons, List.filter_append]
    rcases List.mem_cons.mp hf with rfl | hf
    · rw [filter_membersOf_of_not_mem hg, List.append_nil]
      exact List.filter_eq_self.mpr fun m hm => by
        obtain ⟨j, _, rfl⟩ := List.mem_map.mp hm
        exact beq_self_eq_true f.1
    · have hne : g.1 ≠ f.1 := fun hname => hg (hname ▸ List.mem_map_of_mem hf)
      have hhead : (g.2.toList.map (g.1, ·)).filter (fun m => m.1 == f.1) = [] := by
        refine List.filter_eq_nil_iff.mpr fun m hm hname => ?_
        obtain ⟨j, _, rfl⟩ := List.mem_map.mp hm
        exact hne (beq_iff_eq.mp hname)
      rw [hhead, List.nil_append, ih hnodup hf]

variable (fields) in
/-- The fields of a record are found again, those that were left out as well. -/
theorem fields?_membersOf (h : (fields.map Prod.fst).Nodup) :
    fields? (fields.map Prod.fst) (.object (membersOf fields)) = some (fields.map Prod.snd) := by
  refine Outcome.mapM_map_eq_some_map fun f hf => ?_
  unfold member?
  rw [filter_membersOf h hf]
  cases f.2 <;> rfl

end Fields

/-- A field that may be left out is read, if what is written for it is not null. -/
theorem optional?_map {α : Type} {read : Json → Option α} {write : α → Json} {image : α → α}
    {o : Option α} (h : ∀ a ∈ o, write a ≠ .null ∧ read (write a) = some (image a)) :
    optional? read (o.map write) = some (o.map image) := by
  cases o with
  | none => rfl
  | some a =>
    obtain ⟨hnull, hread⟩ := h a rfl
    rw [Option.map_some, optional?.eq_3 _ _ hnull, hread, Option.map_some, Option.map_some]

theorem areMembersSound_iff {members : List (String × Json)} :
    areMembersSound members = true ↔ ∀ m ∈ members, m.2.isSound = true := by
  induction members with
  | nil => exact ⟨fun _ => nofun, fun _ => rfl⟩
  | cons m members ih => rw [areMembersSound, Bool.and_eq_true, ih, List.forall_mem_cons]

theorem isSound_membersOf {fields : List (String × Option Json)}
    (h : ∀ f ∈ fields, ∀ j ∈ f.2, j.isSound = true) : (object (membersOf fields)).isSound = true := by
  refine areMembersSound_iff.mpr fun m hm => ?_
  obtain ⟨f, hf, hvalue⟩ := List.mem_filterMap.mp hm
  obtain ⟨j, hj, rfl⟩ := Option.map_eq_some_iff.mp hvalue
  exact h f hf j hj

theorem toCount?_ofInt {n : Nat} (h : n < UInt64.size) : (Json.ofInt n).toCount? = some n := by
  show ((Numeral.ofInt n).toInt?).bind Word.count? = _
  rw [Numeral.toInt?_ofInt, Option.bind_some, Word.count?,
    if_pos ⟨Int.natCast_nonneg n, Int.ofNat_lt.mpr h⟩, Int.toNat_natCast]

/-- A document is read back from its text. -/
theorem ofText?_text {j : Json} (h : j.isSound = true) : ofText? j.text = some j := by
  unfold ofText? text
  rw [String.toList_ofList, ofSymbols?_chars h]

end Json

/-! ## Filters -/

namespace Operator

/-- The name of an operator leads back to it. -/
theorem ofJson?_toJson (depth : Nat) (op : Operator) : ofJson? depth op.toJson = some op :=
  ofName?_name op

end Operator

namespace Filter

theorem toJson_eq_membersOf (f : Filter) :
    f.toJson = .object (Json.membersOf [("field", some (.string f.field)),
      ("operator", some f.operator.toJson), ("value", some f.value.toJson)]) := rfl

theorem isSound_toJson (f : Filter) : f.toJson.isSound = true := by
  rw [toJson_eq_membersOf]
  refine Json.isSound_membersOf ?_
  simp only [List.forall_mem_cons, Option.mem_some_iff, forall_eq']
  exact ⟨rfl, rfl, Value.isSound_toJson f.value, nofun⟩

/-- The filter with the settled form of its operand. -/
def settled (f : Filter) : Filter := { f with value := f.value.settled }

theorem settled_eq_self_iff {f : Filter} : f.settled = f ↔ f.value.areTimesSettled = true := by
  rw [← f.value.settled_eq_self_iff]
  exact ⟨congrArg Filter.value, fun h => congrArg (Filter.mk f.field f.operator) h⟩

/-- A filter is read back in its settled form if its operand is. -/
theorem ofJson?_toJson (f : Filter) (hfloats : f.value.areFloatsCarried = true) {depth : Nat}
    (hdepth : 2 * f.value.listDepth + 1 < depth) : ofJson? depth f.toJson = some f.settled := by
  have hvalue : Value.ofJson? (depth - 1) f.value.toJson = some f.value.settled :=
    f.value.ofJson?_toJson hfloats (by omega)
  have hfields : Json.fields? ["field", "operator", "value"] f.toJson =
      some [some (.string f.field), some f.operator.toJson, some f.value.toJson] :=
    Json.fields?_membersOf [("field", some (.string f.field)), ("operator", some f.operator.toJson),
      ("value", some f.value.toJson)]
      (show ["field", "operator", "value"].Nodup by decide)
  unfold ofJson?
  rw [hfields]
  show ((Json.string f.field).toString?.bind fun field =>
    (Operator.ofJson? (depth - 1) f.operator.toJson).bind fun operator =>
      (Value.ofJson? (depth - 1) f.value.toJson).bind fun value => some (Filter.mk field operator value)) = _
  rw [Operator.ofJson?_toJson, hvalue]
  rfl

end Filter

/-! ## Pages -/

namespace Cursor

/-- A cursor as programs build it, with values that a token has room for. -/
structure Portable (c : Cursor) : Prop where
  nodup_fields : c.fields.Nodup
  values : ∀ p ∈ c.pairs, isPortable p.2 = true

/-- A cursor is read back from the string of its token in its settled form. -/
theorem Portable.ofTokenJson?_token {c : Cursor} (h : c.Portable) :
    ofTokenJson? (.string c.token) = some c.settled := by
  have hnodup : c.settled.fields.Nodup := c.fields_settled.symm ▸ h.nodup_fields
  have hsame : ofPairs c.settled.pairs = c.settled := congrArg Cursor.mk (pairs_ofPairs hnodup)
  have htoken : ofToken c.token = .ok c.settled := by
    rw [ofToken_token_eq, pairsOfJson?_toJson h.values]
    exact congrArg Except.ok hsame
  unfold ofTokenJson? Json.toString?
  rw [Option.bind_some, htoken]
  rfl

end Cursor

namespace PageInfo

/-- The fields of the data of a page. -/
def jsonFields (info : PageInfo) : List (String × Option Json) :=
  [("hasNextPage", some (.bool info.hasNext)), ("hasPreviousPage", some (.bool info.hasPrevious)),
    ("startCursor", info.startCursor.map fun c => .string c.token),
    ("endCursor", info.endCursor.map fun c => .string c.token),
    ("totalCount", info.totalCount.map fun n => .ofInt (n : Nat))]

theorem toJson_eq_membersOf (info : PageInfo) :
    info.toJson = .object (Json.membersOf info.jsonFields) := by
  obtain ⟨next, previous, start, stop, total⟩ := info
  cases start <;> cases stop <;> cases total <;> rfl

theorem isSound_toJson (info : PageInfo) : info.toJson.isSound = true := by
  have hcursor {o : Option Cursor} : ∀ j ∈ o.map fun c => Json.string c.token, j.isSound = true := by
    intro j hj
    obtain ⟨c, _, rfl⟩ := Option.map_eq_some_iff.mp hj
    rfl
  rw [toJson_eq_membersOf]
  refine Json.isSound_membersOf ?_
  unfold jsonFields
  simp only [List.forall_mem_cons, Option.mem_some_iff, forall_eq']
  refine ⟨rfl, rfl, hcursor, hcursor, ?_, nofun⟩
  intro j hj
  obtain ⟨n, _, rfl⟩ := Option.map_eq_some_iff.mp hj
  exact Numeral.isCanonical_ofInt n

/-- The data of a page with the settled forms of its cursors. -/
def settled (info : PageInfo) : PageInfo :=
  { info with
    startCursor := info.startCursor.map Cursor.settled
    endCursor := info.endCursor.map Cursor.settled }

theorem settled_eq_self_iff {info : PageInfo} :
    info.settled = info ↔
      ∀ c, info.startCursor = some c ∨ info.endCursor = some c →
        ∀ p ∈ c.pairs, p.2.areTimesSettled = true := by
  have hcursor (o : Option Cursor) : o.map Cursor.settled = o ↔
      ∀ c, o = some c → ∀ p ∈ c.pairs, p.2.areTimesSettled = true := by
    cases o with
    | none => exact iff_of_true rfl nofun
    | some c =>
      rw [Option.map_some, Option.some.injEq, Cursor.settled_eq_self_iff]
      exact ⟨fun h d hd => Option.some.inj hd ▸ h, fun h => h c rfl⟩
  have hparts : info.settled = info ↔
      info.startCursor.map Cursor.settled = info.startCursor ∧
        info.endCursor.map Cursor.settled = info.endCursor :=
    ⟨fun h => ⟨congrArg startCursor h, congrArg endCursor h⟩, fun h => by rw [settled, h.1, h.2]⟩
  rw [hparts, hcursor, hcursor]
  exact ⟨fun h c => Or.rec (h.1 c) (h.2 c), fun h => ⟨fun c hc => h c (.inl hc), fun c hc => h c (.inr hc)⟩⟩

/-- The data of a page is read back in its settled form if its cursors are portable and its count has 64
bits. -/
theorem ofJson?_toJson {info : PageInfo}
    (hcursors : ∀ c, info.startCursor = some c ∨ info.endCursor = some c → c.Portable)
    (htotal : ∀ n ∈ info.totalCount, n < UInt64.size) :
    ofJson? info.toJson = some info.settled := by
  have hfields : Json.fields? fieldNames info.toJson = some (info.jsonFields.map Prod.snd) := by
    rw [toJson_eq_membersOf]
    exact Json.fields?_membersOf info.jsonFields (show fieldNames.Nodup by decide)
  have hstart : Json.optional? Cursor.ofTokenJson? (info.startCursor.map fun c => .string c.token) =
      some info.settled.startCursor :=
    Json.optional?_map fun c hc => ⟨nofun, (hcursors c (.inl hc)).ofTokenJson?_token⟩
  have hstop : Json.optional? Cursor.ofTokenJson? (info.endCursor.map fun c => .string c.token) =
      some info.settled.endCursor :=
    Json.optional?_map fun c hc => ⟨nofun, (hcursors c (.inr hc)).ofTokenJson?_token⟩
  have hcount : Json.optional? Json.toCount? (info.totalCount.map fun n => .ofInt (n : Nat)) =
      some (info.totalCount.map id) :=
    Json.optional?_map fun n hn => ⟨nofun, Json.toCount?_ofInt (htotal n hn)⟩
  rw [Option.map_id] at hcount
  unfold ofJson?
  rw [hfields]
  show (Json.optional? Cursor.ofTokenJson? _).bind (fun start =>
    (Json.optional? Cursor.ofTokenJson? _).bind fun stop =>
      (Json.optional? Json.toCount? _).bind fun total =>
        some (PageInfo.mk info.hasNext info.hasPrevious start stop total)) = _
  rw [hstart, hstop, hcount]
  rfl

end PageInfo

namespace Page

/-- A page without floating-point numbers, and with no more than 62 lists inside each other, as programs
build it. -/
structure Portable (p : Page Value) : Prop where
  items : ∀ v ∈ p.items, Cursor.isPortable v = true
  cursors : ∀ c, p.info.startCursor = some c ∨ p.info.endCursor = some c → c.Portable
  total : ∀ n ∈ p.info.totalCount, n < UInt64.size

theorem toJson_eq_membersOf (p : Page Value) :
    p.toJson = .object (Json.membersOf [("items", some (.array (p.items.map Value.toJson))),
      ("pageInfo", some p.info.toJson)]) := rfl

theorem isSound_toJson (p : Page Value) : p.toJson.isSound = true := by
  rw [toJson_eq_membersOf]
  refine Json.isSound_membersOf ?_
  simp only [List.forall_mem_cons, Option.mem_some_iff, forall_eq']
  refine ⟨Json.areItemsSound_iff.mpr ?_, p.info.isSound_toJson, nofun⟩
  intro j hj
  obtain ⟨v, _, rfl⟩ := List.mem_map.mp hj
  exact v.isSound_toJson

/-- The page with the settled forms of its items and cursors. -/
def settled (p : Page Value) : Page Value := ⟨p.items.map Value.settled, p.info.settled⟩

/-- Whether all points in time of a page, in its items and in its cursors, are settled. -/
structure TimesSettled (p : Page Value) : Prop where
  items : ∀ v ∈ p.items, v.areTimesSettled = true
  cursors : ∀ c, p.info.startCursor = some c ∨ p.info.endCursor = some c →
    ∀ q ∈ c.pairs, q.2.areTimesSettled = true

theorem settled_eq_self_iff {p : Page Value} : p.settled = p ↔ p.TimesSettled := by
  constructor
  · intro h
    exact ⟨Value.map_settled_eq_self_iff.mp (congrArg items h),
      PageInfo.settled_eq_self_iff.mp (congrArg info h)⟩
  · intro h
    rw [settled, Value.map_settled_eq_self_iff.mpr h.items, PageInfo.settled_eq_self_iff.mpr h.cursors]

/-- A portable page is read back from its document in its settled form. -/
theorem Portable.ofJson?_toJson {p : Page Value} (h : p.Portable) :
    ofJson? Json.depthLimit p.toJson = some p.settled := by
  have hitems : (p.items.map Value.toJson).mapM (Value.ofJson? 125) = some p.settled.items := by
    refine Outcome.mapM_map_eq_some_map fun v hv => ?_
    obtain ⟨hfree, hdepth⟩ := Bool.and_eq_true_iff.mp (h.items v hv)
    have hdepth := of_decide_eq_true hdepth
    exact v.ofJson?_toJson (Value.areFloatsCarried_of_isFloatFree v hfree) (by omega)
  have hinfo := PageInfo.ofJson?_toJson h.cursors h.total
  have hfields : Json.fields? ["items", "pageInfo"] p.toJson =
      some [some (.array (p.items.map Value.toJson)), some p.info.toJson] :=
    Json.fields?_membersOf [("items", some (.array (p.items.map Value.toJson))),
      ("pageInfo", some p.info.toJson)] (show ["items", "pageInfo"].Nodup by decide)
  unfold ofJson?
  rw [hfields]
  show ((p.items.map Value.toJson).mapM (Value.ofJson? 125)).bind (fun items =>
    (PageInfo.ofJson? p.info.toJson).bind fun info => some (Page.mk items info)) = _
  rw [hitems, hinfo]
  rfl

end Page

end RowQuery
