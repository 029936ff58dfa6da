import RowQuery.Proofs.Outcome
import RowQuery.Proofs.Page.Candidates
import RowQuery.Sql.Statement

/-!
# Rejected cursors

A cursor is rejected for what it records and the ordering of the query, whatever the rows. Pages with
recorded values reject a cursor without the leading field, which is the field that breaks ties if there is
no ordering; pages with places reject one without a place. A statement rejects a cursor without the first
field of the ordering, and every cursor if there is no ordering.

Results:
* `failsIff_placeBy`: what one cursor is rejected for by pages.
* `failsIff_bound`: what one cursor is rejected for by statements.
* `rejection_of_cursors`: when a page and a statement are rejected, and that with an ordering both are or
  none is.
-/

namespace RowQuery

open Outcome

/-! ## Definitions -/

namespace Query

/-- The cursors that are set. -/
def cursors (q : Query) : List Cursor := q.after.toList ++ q.before.toList

theorem exists_mem_cursors {q : Query} {p : Cursor → Prop} :
    (∃ c ∈ q.cursors, p c) ↔ (∃ c ∈ q.after.toList, p c) ∨ ∃ c ∈ q.before.toList, p c := by
  unfold cursors
  simp only [List.mem_append, or_and_right, exists_or]

end Query

namespace Cursor

/-- The cursor does not record a field. -/
def Lacks (c : Cursor) (field : String) : Prop := c.get? field = none

instance (c : Cursor) (field : String) : Decidable (c.Lacks field) :=
  inferInstanceAs (Decidable (c.get? field = none))

/-- The cursor records a place, an integer from zero on. -/
def RecordsPlace (c : Cursor) : Prop :=
  ∃ i : Int64, c.get? Page.positionField = some (.int i) ∧ 0 ≤ i.toInt

end Cursor

namespace Page

/-- The field that a recorded cursor cannot do without. -/
def leadingField (options : PageOptions) (q : Query) : String :=
  match q.order with
  | [] => options.tiebreaker
  | k :: _ => k.field

theorem exists_keysOf_eq_cons (options : PageOptions) (q : Query) :
    ∃ k rest, keysOf options q = k :: rest ∧ k.field = leadingField options q := by
  unfold keysOf leadingField OrderKey.sortKeys
  cases q.order with
  | nil => exact ⟨OrderKey.asc options.tiebreaker, [], rfl, rfl⟩
  | cons k rest =>
    split
    · exact ⟨k, rest, rfl, rfl⟩
    · exact ⟨k, rest ++ [OrderKey.asc options.tiebreaker], rfl, rfl⟩

/-! ## Pages -/

theorem failsIff_anchor (k : OrderKey) (rest : List OrderKey) (c : Cursor) :
    FailsIff (anchor (k :: rest) c) (.missingKey k.field) (c.Lacks k.field) := by
  have hnil := c.leading_eq_nil_iff k rest
  unfold anchor
  cases hleading : c.leading (k :: rest) with
  | nil => exact (FailsIff.error _).congr (iff_of_true trivial (hnil.mp hleading))
  | cons p pairs =>
    refine (FailsIff.ok _ _).congr (iff_of_false id fun hlacks => ?_)
    rw [hnil.mpr hlacks] at hleading
    cases hleading

theorem failsIff_position (c : Cursor) :
    FailsIff (position c) (.missingPosition positionField) ¬c.RecordsPlace := by
  unfold position Cursor.RecordsPlace
  split
  · rename_i i hget
    split
    · rename_i hi
      exact (FailsIff.ok _ _).congr (iff_of_false id fun h => h ⟨i, hget, hi⟩)
    · rename_i hi
      refine (FailsIff.error _).congr (iff_of_true trivial ?_)
      rintro ⟨j, hj, hplace⟩
      rw [hget] at hj
      cases hj
      exact hi hplace
  · rename_i hget
    refine (FailsIff.error _).congr (iff_of_true trivial ?_)
    rintro ⟨i, hi, _⟩
    exact hget i hi

/-- Why the cursors of a strategy are rejected. -/
def fault (options : PageOptions) (q : Query) : CursorFault :=
  match options.strategy with
  | .keyset => .missingKey (leadingField options q)
  | .positional => .missingPosition positionField

/-- Which cursors a strategy rejects. -/
def Rejects (options : PageOptions) (q : Query) (c : Cursor) : Prop :=
  match options.strategy with
  | .keyset => c.Lacks (leadingField options q)
  | .positional => ¬c.RecordsPlace

section Places

variable {ρ : Type} (options : PageOptions) (q : Query) (entries : List (Entry ρ)) (c : Cursor)

theorem failsIff_anchor_keysOf :
    FailsIff (anchor (keysOf options q) c) (.missingKey (leadingField options q))
      (c.Lacks (leadingField options q)) := by
  obtain ⟨k, rest, hkeys, hfield⟩ := exists_keysOf_eq_cons options q
  rw [hkeys, ← hfield]
  exact failsIff_anchor k rest c

theorem failsIff_placeBy (test : Ordering → Bool) (shift : Nat) :
    FailsIff (placeBy test shift options.strategy (keysOf options q) entries c) (fault options q)
      (Rejects options q c) := by
  unfold placeBy fault Rejects
  cases options.strategy with
  | keyset => exact (failsIff_anchor_keysOf options q c).bind_ok
  | positional => exact (failsIff_position c).bind_ok

end Places

theorem failsIff_boundOr {bound : Cursor → Except CursorFault Nat} {reason : CursorFault}
    {rejects : Cursor → Prop} (h : ∀ c, FailsIff (bound c) reason (rejects c)) (unbounded : Nat)
    (c : Option Cursor) :
    FailsIff (boundOr bound unbounded c) (.cursor reason) (∃ d ∈ c.toList, rejects d) :=
  FailsIff.of_option (f := boundOr bound unbounded) rfl (fun c => (h c).mapError) c

/-- A page is rejected with one of its cursors. -/
theorem failsIff_paginate {ρ : Type} [Record ρ] (options : PageOptions) (q : Query)
    (rows : List ρ) :
    FailsIff (paginate options q rows) (.cursor (fault options q))
      (∃ c ∈ q.cursors, Rejects options q c) := by
  have hafter := failsIff_boundOr
    (fun c => failsIff_placeBy options q (entriesOf options q rows) c Ordering.isLE 1) 0 q.after
  have hbefore := failsIff_boundOr
    (fun c => failsIff_placeBy options q (entriesOf options q rows) c Ordering.isLT 0)
    (entriesOf options q rows).length q.before
  have hwindow : FailsIff (cursorWindow options.strategy (keysOf options q)
      (entriesOf options q rows) q.after q.before) (.cursor (fault options q))
      (∃ c ∈ q.cursors, Rejects options q c) :=
    (hafter.bind fun _ => hbefore.bind_ok).congr Query.exists_mem_cursors.symm
  exact hwindow.bind_ok

end Page

/-! ## Statements -/

namespace Sql.Statement

/-- Whether a cursor does not record the first field of an ordering, or there is none. -/
def Rejects (order : List OrderKey) (c : Cursor) : Prop :=
  order = [] ∨ ∃ k ∈ order.head?, c.Lacks k.field

theorem ofCursor?_eq_none_iff (order : List OrderKey) (c : Cursor) (side : Side) :
    Keyset.ofCursor? order c side = none ↔ Rejects order c := by
  have hleading : Keyset.ofCursor? order c side = none ↔ c.leading order = [] := by
    unfold Keyset.ofCursor?
    cases c.leading order with
    | nil => exact iff_of_true rfl rfl
    | cons p pairs => exact iff_of_false nofun nofun
  rw [hleading]
  cases order with
  | nil => exact iff_of_true rfl (.inl rfl)
  | cons k rest =>
    rw [c.leading_eq_nil_iff k rest]
    constructor
    · intro hlacks
      exact .inr ⟨k, rfl, hlacks⟩
    · rintro (h | ⟨_, hk, hlacks⟩)
      · cases h
      · cases hk
        exact hlacks

theorem failsIff_bound (order : List OrderKey) (side : Side) (c : Option Cursor) :
    FailsIff (bound order side c) (.cursor .missingLeadingKey) (∃ d ∈ c.toList, Rejects order d) := by
  refine FailsIff.of_option (f := bound order side) rfl (fun c => ?_) c
  have hnone := ofCursor?_eq_none_iff order c side
  cases hkeyset : Keyset.ofCursor? order c side with
  | none =>
    have hbound : bound order side (some c) = .error (.cursor .missingLeadingKey) := by
      unfold bound
      simp only [hkeyset]
    rw [hbound]
    exact (FailsIff.error _).congr (iff_of_true trivial (hnone.mp hkeyset))
  | some keyset =>
    have hbound : bound order side (some c) = .ok [keyset] := by
      unfold bound
      simp only [hkeyset]
    rw [hbound]
    refine (FailsIff.ok _ _).congr (iff_of_false id fun hc => ?_)
    rw [hnone.mpr hc] at hkeyset
    cases hkeyset

/-- A statement is rejected with one of its cursors. -/
theorem failsIff_ofQuery (table : String) (q : Query) :
    FailsIff (ofQuery table q) (.cursor .missingLeadingKey) (∃ c ∈ q.cursors, Rejects q.order c) :=
  ((failsIff_bound q.order .after q.after).bind fun _ =>
    (failsIff_bound q.order .before q.before).bind_ok).congr Query.exists_mem_cursors.symm

end Sql.Statement

/-! ## Pages and statements -/

namespace Query

open Sql

/-- With an ordering the leading field of pages is the one of statements. -/
theorem statement_rejects_iff {q : Query} (hne : q.order ≠ []) (options : PageOptions) (c : Cursor) :
    Statement.Rejects q.order c ↔ c.Lacks (Page.leadingField options q) := by
  unfold Statement.Rejects Page.leadingField
  cases horder : q.order with
  | nil => exact absurd horder hne
  | cons k rest => simp

/-- A page is rejected if and only if a cursor that is set does not record the leading field, or no place
where cursors record places. A statement is rejected if and only if a cursor is set and there is no
ordering, or the cursor does not record its first field. Neither depends on rows or the table, and where
there is an ordering and cursors record values, they agree. -/
theorem rejection_of_cursors {ρ : Type} [Record ρ] (options : PageOptions) (q : Query)
    (rows : List ρ) (table : String) :
    (options.strategy = .keyset →
      FailsIff (paginate options q rows) (.cursor (.missingKey (Page.leadingField options q)))
        (∃ c ∈ q.cursors, c.Lacks (Page.leadingField options q))) ∧
    (options.strategy = .positional →
      FailsIff (paginate options q rows) (.cursor (.missingPosition Page.positionField))
        (∃ c ∈ q.cursors, ¬c.RecordsPlace)) ∧
    FailsIff (Statement.ofQuery table q) (.cursor .missingLeadingKey)
      (∃ c ∈ q.cursors, q.order = [] ∨ ∃ k ∈ q.order.head?, c.Lacks k.field) ∧
    (options.strategy = .keyset → q.order ≠ [] →
      ((∃ e, paginate options q rows = .error e) ↔
        ∃ e, Statement.ofQuery table q = .error e)) := by
  have hpage := Page.failsIff_paginate options q rows
  have hstatement := Statement.failsIff_ofQuery table q
  unfold Page.fault Page.Rejects at hpage
  refine ⟨?_, ?_, hstatement, ?_⟩
  · intro hkeyset
    rwa [hkeyset] at hpage
  · intro hpositional
    rwa [hpositional] at hpage
  · intro hkeyset hne
    rw [hkeyset] at hpage
    rw [hpage.exists_error, hstatement.exists_error]
    simp only [statement_rejects_iff hne options]

/-- The query for people in front of a cursor that records no age, and no place from zero on. -/
def unanchoredPeople : Query :=
  { Page.oldestFirst with
    after := some (Cursor.ofPairs [("age", .int 30), (Page.positionField, .int 0)])
    before := some (Cursor.ofPairs [("id", .int 4), (Page.positionField, .int (-1))]) }

theorem rejection_of_cursors_unanchoredPeople :
    let counted : PageOptions := { PageOptions.standard with strategy := .positional }
    paginate .standard unanchoredPeople Page.people = .error (.cursor (.missingKey "age")) ∧
      paginate counted unanchoredPeople Page.people = .error (.cursor (.missingPosition "_index")) ∧
      Statement.ofQuery "people" unanchoredPeople = .error (.cursor .missingLeadingKey) ∧
      ((∃ e, paginate .standard unanchoredPeople Page.people = .error e) ↔
        ∃ e, Statement.ofQuery "people" unanchoredPeople = .error e) := by
  have hmem : Cursor.ofPairs [("id", .int 4), (Page.positionField, .int (-1))] ∈
      unanchoredPeople.cursors := by decide
  have hlacks : (Cursor.ofPairs [("id", .int 4), (Page.positionField, .int (-1))]).Lacks "age" := by
    decide
  have hplace : ¬(Cursor.ofPairs [("id", .int 4), (Page.positionField, .int (-1))]).RecordsPlace := by
    rintro ⟨i, hi, hle⟩
    cases hi
    exact absurd hle (by decide)
  obtain ⟨hkeyset, _, hstatement, hagree⟩ :=
    rejection_of_cursors .standard unanchoredPeople Page.people "people"
  obtain ⟨_, hpositional, _⟩ :=
    rejection_of_cursors { PageOptions.standard with strategy := .positional } unanchoredPeople
      Page.people "people"
  exact ⟨(hkeyset rfl _).mpr ⟨rfl, _, hmem, hlacks⟩, (hpositional rfl _).mpr ⟨rfl, _, hmem, hplace⟩,
    (hstatement _).mpr ⟨rfl, _, hmem, .inr ⟨_, rfl, hlacks⟩⟩, hagree rfl (by decide)⟩

/-- Without an ordering a page takes a cursor that records the field which breaks ties, and a statement
takes none. -/
example :
    (paginate .standard (all.startAfter (.ofPairs [("id", .int 2)])) Page.people).toOption.isSome ∧
      (Statement.ofQuery "people" (all.startAfter (.ofPairs [("id", .int 2)]))).toOption = none := by
  decide +kernel

end Query

end RowQuery
