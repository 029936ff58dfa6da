import RowQuery.Proofs.Cursor.Token
import RowQuery.Proofs.Page.Parts

/-!
# The tokens of a page

A client that keeps only the token of a cursor comes back to the same place if the token leads back to
the cursor. A place always travels. Values travel as far as documents carry them: infinities and NaNs do
not at all, other floating-point numbers if the two roundings of reading lead back to them, points in time
unless they lie in a leap second inside a minute, and lists up to a depth.

Results:
* `ofToken_cursorAt_iff`: when the token of the cursor of a row leads back to it.
* `ofToken_token_of_paginate`: which cursors of a page survive as tokens.
* `ofToken_token_measurements`: a NaN makes a token that is not accepted, and a number of sixteen digits
  one that leads to another cursor.
-/

namespace RowQuery.Page

variable {ρ : Type} [Record ρ]

/-- Whether what the cursor of a row records is read back from its token: a place always is, and of
recorded values each one has to be. -/
def Travels (options : PageOptions) (q : Query) (row : ρ) : Prop :=
  options.strategy = .keyset →
    ∀ k ∈ keysOf options q, Cursor.carries (Record.value row k.field) = true

instance (options : PageOptions) (q : Query) (row : ρ) : Decidable (Travels options q row) := by
  unfold Travels
  infer_instance

/-- Whether the cursor of a row records an infinity or a NaN. -/
def RecordsNonFinite (options : PageOptions) (q : Query) (row : ρ) : Prop :=
  options.strategy = .keyset ∧
    ∃ k ∈ keysOf options q, ∃ x, Record.value row k.field = .float x ∧ x.isFinite = false

section Rows

variable {options : PageOptions} {q : Query} {rows : List ρ}

/-- The token of the cursor of a candidate leads back to it if and only if the row travels. -/
theorem ofToken_cursorAt_iff {e : Entry ρ} (he : e ∈ entriesOf options q rows) (place : Nat) :
    Cursor.ofToken (cursorAt options.strategy (keysOf options q) place e).token =
        .ok (cursorAt options.strategy (keysOf options q) place e) ↔ Travels options q e.row := by
  unfold Travels
  cases options.strategy with
  | keyset =>
    show Cursor.ofToken (Cursor.ofPairs _).token = .ok (Cursor.ofPairs _) ↔ _
    rw [Cursor.ofToken_token_iff, key_eq_rowKey he,
      Cursor.forall_mem_pairs_rowKey_iff (P := fun v => Cursor.carries v = true)]
    exact ⟨fun h _ => h, fun h => h rfl⟩
  | positional =>
    have hplace : ∀ p ∈ [(positionField, Value.int (Int64.ofNat place))],
        Cursor.carries p.2 = true := List.forall_mem_singleton.mpr rfl
    exact iff_of_true ((Cursor.ofToken_token_iff _).mpr
      (Cursor.forall_mem_ofPairs (P := fun v => Cursor.carries v = true) hplace)) nofun

/-- The token of the cursor of a candidate is not accepted if it records an infinity or a NaN. -/
theorem ofToken_cursorAt_eq_error {e : Entry ρ} (he : e ∈ entriesOf options q rows) (place : Nat)
    (h : RecordsNonFinite options q e.row) :
    Cursor.ofToken (cursorAt options.strategy (keysOf options q) place e).token =
      .error .content := by
  obtain ⟨hstrategy, k, hk, x, hvalue, hx⟩ := h
  rw [hstrategy]
  show Cursor.ofToken (Cursor.ofPairs _).token = _
  rw [key_eq_rowKey he]
  have hrecorded := Cursor.get?_ofPairs_rowKey (keysOf options q) e.row hk
  rw [hvalue] at hrecorded
  exact Cursor.ofToken_token_eq_error hx (Cursor.mem_pairs_of_get? hrecorded)

/-- A cursor of a page survives as a token if and only if the row that it marks travels, and its token is
not accepted if it records an infinity or a NaN. Finite numbers with few digits travel, and of the values
without floating-point numbers and with no more than 62 lists inside each other those do whose points in
time are settled. -/
theorem ofToken_token_of_paginate {page : Page ρ} (h : paginate options q rows = .ok page) :
    (∀ c ∈ page.info.startCursor, ∃ row ∈ page.items.head?,
      (Cursor.ofToken c.token = .ok c ↔ Travels options q row) ∧
      (RecordsNonFinite options q row → Cursor.ofToken c.token = .error .content)) ∧
    (∀ c ∈ page.info.endCursor, ∃ row ∈ page.items.getLast?,
      (Cursor.ofToken c.token = .ok c ↔ Travels options q row) ∧
      (RecordsNonFinite options q row → Cursor.ofToken c.token = .error .content)) ∧
    (∀ x : Double, x.isFinite = true → (Json.numberLayout.numeral x).IsShort →
      Cursor.carries (.float x) = true) ∧
    (∀ v : Value, Cursor.isPortable v = true →
      (Cursor.carries v = true ↔ v.areTimesSettled = true)) := by
  obtain ⟨front, shown, back, he, rfl⟩ := exists_between_of_paginate h
  have hmem {e : Entry ρ} (hshown : e ∈ shown) : e ∈ entriesOf options q rows := by
    rw [he]
    exact List.mem_append_right front (List.mem_append_left back hshown)
  refine ⟨?_, ?_, ?_, fun v => Cursor.carries_iff_of_isPortable⟩
  · intro c hc
    obtain ⟨e, hfirst, rfl⟩ := Option.map_eq_some_iff.mp hc
    have hcandidate := hmem (List.mem_of_head? hfirst)
    refine ⟨e.row, ?_, ofToken_cursorAt_iff hcandidate _, ofToken_cursorAt_eq_error hcandidate _⟩
    show (shown.map Entry.row).head? = some e.row
    rw [List.head?_map, hfirst, Option.map_some]
  · intro c hc
    obtain ⟨e, hlast, rfl⟩ := Option.map_eq_some_iff.mp hc
    have hcandidate := hmem (List.mem_of_getLast? hlast)
    refine ⟨e.row, ?_, ofToken_cursorAt_iff hcandidate _, ofToken_cursorAt_eq_error hcandidate _⟩
    show (shown.map Entry.row).getLast? = some e.row
    rw [List.getLast?_map, hlast, Option.map_some]
  · intro x hfinite hshort
    show (Json.carries x && true && true) = true
    rw [Json.carries_of_isShort hfinite hshort]
    rfl

end Rows

/-- Three measurements: a quarter, a number of sixteen digits and none. -/
def measurements : List Row :=
  [⟨[("id", .int 1), ("score", .float ⟨0x3FD0000000000000⟩)]⟩,
    ⟨[("id", .int 2), ("score", .float ⟨0x3FEE08FA3383A6F4⟩)]⟩,
    ⟨[("id", .int 3), ("score", .float ⟨0x7FF8000000000000⟩)]⟩]

/-- From the lowest score on. -/
def lowestFirst : Query := { Query.all with order := [.asc "score"] }

theorem ofToken_token_quarter :
    ∃ page c, paginate .standard { lowestFirst with first := some 1 } measurements = .ok page ∧
      page.info.endCursor = some c ∧ Cursor.ofToken c.token = .ok c := by
  have hrun : ∃ page, paginate .standard { lowestFirst with first := some 1 } measurements = .ok page ∧
      page.items.getLast? = some ⟨[("id", .int 1), ("score", .float ⟨0x3FD0000000000000⟩)]⟩ ∧
      page.info.endCursor = some ⟨[("score", .float ⟨0x3FD0000000000000⟩), ("id", .int 1)]⟩ :=
    ⟨_, rfl, by decide +kernel, by decide +kernel⟩
  obtain ⟨page, hpage, hlast, hcursor⟩ := hrun
  obtain ⟨_, hend, hshort, _⟩ := ofToken_token_of_paginate hpage
  obtain ⟨row, hrow, htoken, _⟩ := hend _ hcursor
  obtain rfl : _ = row := Option.some.inj (hlast.symm.trans hrow)
  refine ⟨page, _, hpage, hcursor, htoken.mpr fun _ => ?_⟩
  show ∀ k ∈ [OrderKey.asc "score", .asc "id"], _
  refine List.forall_mem_cons.mpr ⟨?_, List.forall_mem_singleton.mpr rfl⟩
  exact hshort ⟨0x3FD0000000000000⟩ (by decide) (by decide +kernel)

/-- The cursor of a NaN has a token that is not accepted, and the one of a number of sixteen digits has a
token that leads to a neighbour of the number. -/
theorem ofToken_token_measurements :
    (∃ page c, paginate .standard lowestFirst measurements = .ok page ∧
      page.info.endCursor = some c ∧ Cursor.ofToken c.token = .error .content) ∧
    ∃ page c d, paginate .standard { lowestFirst with first := some 2 } measurements = .ok page ∧
      page.info.endCursor = some c ∧ Cursor.ofToken c.token = .ok d ∧ d ≠ c := by
  refine ⟨⟨_, ⟨[("score", .float ⟨0x7FF8000000000000⟩), ("id", .int 3)]⟩, rfl, ?_, ?_⟩,
    ⟨_, ⟨[("score", .float ⟨0x3FEE08FA3383A6F4⟩), ("id", .int 2)]⟩,
      ⟨[("score", .float ⟨0x3FEE08FA3383A6F3⟩), ("id", .int 2)]⟩, rfl, ?_, ?_, ?_⟩⟩
  · decide +kernel
  · decide +kernel
  · decide +kernel
  · decide +kernel
  · decide +kernel

end RowQuery.Page
