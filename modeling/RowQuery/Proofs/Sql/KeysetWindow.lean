import RowQuery.Proofs.Page.Selection
import RowQuery.Proofs.Sql.KeysetText

/-!
# The rows that keyset predicates select

A keyset predicate says of a row that it equals the recorded values in some of the first columns and
lies beyond the next one. Where the cursor records integers and texts, and the row holds values of the
same kinds, that is the comparison of keys from which a page finds the window of the cursor.

Results:
* `Keyset.holds_iff_compareToCursor`: the predicate holds of the rows on its side of the cursor.
* `Keyset.predicate_selects_window`: the text of the predicate denotes it, it holds of the rows on its
  side, and the page bounded by the cursor shows the rows of which it holds, of all that pass the
  filters.
-/

namespace RowQuery.Sql

/-! ## Meaning -/

/-- The outcome of comparing that a relation asks for. -/
def Relation.outcome : Relation → Ordering
  | .eq => .eq
  | .lt => .lt
  | .gt => .gt

/-- The outcome of comparing rows with a cursor that have a side of it. -/
def Side.outcome : Side → Ordering
  | .after => .gt
  | .before => .lt

/-- The query with a cursor that leaves the rows on one side. -/
def Side.bound (side : Side) (c : Cursor) (q : Query) : Query :=
  match side with
  | .after => q.startAfter c
  | .before => q.stopBefore c

/-- A cursor that records the first key of an ordering and nothing but integers and texts up to the
first key that it lacks. -/
structure RecordsPlainly (order : List OrderKey) (c : Cursor) : Prop where
  leading_ne_nil : c.leading order ≠ []
  plain : ∀ p ∈ c.leading order, p.2.isIntegerOrText = true

section Rows

variable {ρ : Type} [Record ρ]

def KeyTerm.holds (row : ρ) (t : KeyTerm) : Bool :=
  (Record.value row t.column).compare? t.value == some t.relation.outcome

/-- Whether a predicate holds of a row. -/
def Keyset.holds (k : Keyset) (row : ρ) : Bool :=
  k.branches.any fun terms => terms.all fun t => t.holds row

/-- A row whose values are of the kinds that a cursor records. -/
def SameKinds (order : List OrderKey) (c : Cursor) (row : ρ) : Prop :=
  ∀ p ∈ c.leading order, (Record.value row p.1.field).kind = p.2.kind

instance (order : List OrderKey) (c : Cursor) (row : ρ) : Decidable (SameKinds order c row) := by
  unfold SameKinds
  infer_instance

end Rows

/-- The standard dialect and the one that compares texts without regard to case write integers and texts
alike. -/
theorem writesValue_of_plain {r : Renderer} {v : Value}
    (hr : r.dialect = .standard ∨ r.dialect = .caseless) (h : v.isIntegerOrText = true) :
    r.writesValue v = true := by
  unfold Renderer.writesValue
  rw [h, Bool.true_and, beq_iff_eq]
  rcases hr with hr | hr
  · rw [hr]
  · rw [hr]
    cases v with
    | bool _ => cases h
    | _ => rfl

namespace Keyset

/-! ## The predicate and the order of keys -/

section Holds

variable {ρ : Type} [Record ρ] {row : ρ} {p : OrderKey × Value}

theorem holds_equal (hp : p.2.isIntegerOrText = true)
    (hkind : (Record.value row p.1.field).kind = p.2.kind) :
    (equal p).holds row = (p.1.compareIn (Record.value row p.1.field) p.2 == .eq) := by
  unfold KeyTerm.holds equal OrderKey.compareIn OrderKey.directed
  rw [(Value.compare?_eq_sortCompare hp hkind).2]
  cases p.1.descending <;> cases (Record.value row p.1.field).sortCompare p.2 <;> rfl

theorem holds_beyond (side : Side) (hp : p.2.isIntegerOrText = true)
    (hkind : (Record.value row p.1.field).kind = p.2.kind) :
    (beyond side p).holds row =
      (p.1.compareIn (Record.value row p.1.field) p.2 == side.outcome) := by
  unfold KeyTerm.holds beyond OrderKey.compareIn OrderKey.directed
  rw [(Value.compare?_eq_sortCompare hp hkind).2]
  cases side <;> cases p.1.descending <;>
    cases (Record.value row p.1.field).sortCompare p.2 <;> rfl

theorem compareToCursor_cons_some {k : OrderKey} {rest : List OrderKey} {c : Cursor} {v : Value}
    (h : c.get? k.field = some v) :
    Page.compareToCursor (k :: rest) row c =
      (k.compareIn (Record.value row k.field) v).then (Page.compareToCursor rest row c) := by
  unfold Page.compareToCursor Page.recordedPrefix
  rw [Cursor.leading, h]
  rfl

theorem compareToCursor_cons_none {k : OrderKey} {rest : List OrderKey} {c : Cursor}
    (h : c.get? k.field = none) : Page.compareToCursor (k :: rest) row c = .eq := by
  unfold Page.compareToCursor Page.recordedPrefix
  rw [Cursor.leading, h]
  rfl

/-- Some branch holds if and only if what all of them start with does and the row lies on the side. -/
theorem any_branchesFrom {order : List OrderKey} {c : Cursor} (side : Side) (equals : List KeyTerm)
    (hplain : ∀ p ∈ c.leading order, p.2.isIntegerOrText = true) (hkinds : SameKinds order c row) :
    ((branchesFrom side equals (c.leading order)).any fun terms => terms.all fun t => t.holds row) =
      ((equals.all fun t => t.holds row) &&
        (Page.compareToCursor order row c == side.outcome)) := by
  induction order generalizing equals with
  | nil =>
    have houtcome : (Ordering.eq == side.outcome) = false := by cases side <;> rfl
    show false = (_ && (Ordering.eq == side.outcome))
    rw [houtcome, Bool.and_false]
  | cons k rest ih =>
    unfold SameKinds at hkinds
    cases hget : c.get? k.field with
    | none =>
      have houtcome : (Ordering.eq == side.outcome) = false := by cases side <;> rfl
      rw [compareToCursor_cons_none hget, (c.leading_eq_nil_iff k rest).mpr hget, houtcome,
        Bool.and_false]
      rfl
    | some v =>
      have hleading : c.leading (k :: rest) = (k, v) :: c.leading rest := by
        rw [Cursor.leading, hget]
      rw [hleading] at hplain hkinds
      obtain ⟨hv, hplain⟩ := List.forall_mem_cons.mp hplain
      obtain ⟨hkind, hkinds⟩ := List.forall_mem_cons.mp hkinds
      rw [hleading, branchesFrom, List.any_cons, ih _ hplain hkinds, List.all_append,
        List.all_append, compareToCursor_cons_some hget]
      simp only [List.all_cons, List.all_nil, Bool.and_true]
      rw [holds_beyond side hv hkind, holds_equal hv hkind]
      -- The first key lies beyond the cursor, or it ties and the rest decides.
      cases k.compareIn (Record.value row k.field) v <;> cases side <;>
        cases equals.all fun t => t.holds row <;> rfl

/-- The predicate of a cursor holds of a row if and only if the row lies on the side of the cursor. -/
theorem holds_iff_compareToCursor {order : List OrderKey} {c : Cursor} {side : Side}
    (h : RecordsPlainly order c) (hkinds : SameKinds order c row) :
    (⟨branchesFrom side [] (c.leading order)⟩ : Keyset).holds row = true ↔
      Page.compareToCursor order row c = side.outcome := by
  unfold holds
  rw [any_branchesFrom side [] h.plain hkinds, List.all_nil, Bool.true_and, beq_iff_eq]

end Holds

/-! ## The text of the predicate -/

theorem ofCursor?_eq_some {order : List OrderKey} {c : Cursor} (side : Side)
    (h : c.leading order ≠ []) :
    ofCursor? order c side = some ⟨branchesFrom side [] (c.leading order)⟩ := by
  unfold ofCursor?
  split
  · next hnil => exact absurd hnil h
  · rfl

theorem eq_of_ofCursor? {order : List OrderKey} {c : Cursor} {side : Side} {k : Keyset}
    (h : ofCursor? order c side = some k) : k = ⟨branchesFrom side [] (c.leading order)⟩ := by
  unfold ofCursor? at h
  split at h
  · cases h
  · cases h
    rfl

theorem mem_branchesFrom {side : Side} {equals : List KeyTerm} {pairs : List (OrderKey × Value)}
    {terms : List KeyTerm} (h : terms ∈ branchesFrom side equals pairs) :
    terms ≠ [] ∧ ∀ t ∈ terms, t ∈ equals ∨ ∃ p ∈ pairs, t.column = p.1.field ∧ t.value = p.2 := by
  induction pairs generalizing equals with
  | nil => cases h
  | cons p pairs ih =>
    rcases List.mem_cons.mp h with rfl | h
    · refine ⟨by simp, ?_⟩
      intro t ht
      rcases List.mem_append.mp ht with ht | ht
      · exact .inl ht
      · rw [List.mem_singleton.mp ht]
        exact .inr ⟨p, List.mem_cons_self, rfl, rfl⟩
    · obtain ⟨hne, hterms⟩ := ih h
      refine ⟨hne, ?_⟩
      intro t ht
      rcases hterms t ht with ht | ⟨p', hp', ht⟩
      · rcases List.mem_append.mp ht with ht | ht
        · exact .inl ht
        · rw [List.mem_singleton.mp ht]
          exact .inr ⟨p, List.mem_cons_self, rfl, rfl⟩
      · exact .inr ⟨p', List.mem_cons_of_mem p hp', ht⟩

/-- The text of the predicate of a cursor denotes it, if columns and values can be told apart. -/
theorem ofText?_chars_branchesFrom {order : List OrderKey} {c : Cursor} {r : Renderer} (side : Side)
    (h : c.leading order ≠ [])
    (hr : ∀ p ∈ c.leading order, r.writesName p.1.field = true ∧ r.writesValue p.2 = true) :
    ofText? ((⟨branchesFrom side [] (c.leading order)⟩ : Keyset).chars r) =
      some ⟨branchesFrom side [] (c.leading order)⟩ := by
  refine ofText?_chars ?_ ?_
  · obtain ⟨p, rest, hcons⟩ := List.exists_cons_of_ne_nil h
    rw [hcons]
    exact List.cons_ne_nil _ _
  · intro terms hterms
    obtain ⟨hne, hmem⟩ := mem_branchesFrom hterms
    refine ⟨hne, ?_⟩
    intro t ht
    rcases hmem t ht with ht | ⟨p, hp, hcolumn, hvalue⟩
    · cases ht
    · unfold KeyTerm.isReadable
      rw [hcolumn, hvalue, (hr p hp).1, (hr p hp).2]
      rfl

/-! ## The window of a page -/

section Window

variable {ρ : Type} [Record ρ] {options : PageOptions} {q : Query} {rows : List ρ} {c : Cursor}

theorem transitiveAround_of_sameKinds (h : RecordsPlainly (Page.keysOf options q) c)
    (hkinds : ∀ row ∈ Page.passing q rows, SameKinds (Page.keysOf options q) c row) :
    Page.TransitiveAround options q rows c := by
  refine Value.transitiveOn_integersAndTexts ?_
  intro v hv
  rcases List.mem_append.mp hv with hv | hv
  · obtain ⟨row, hrow, hv⟩ := List.mem_flatMap.mp hv
    obtain ⟨k, hk, rfl⟩ := List.mem_map.mp hv
    obtain ⟨p, hp, rfl⟩ := List.mem_map.mp hk
    exact (Value.compare?_eq_sortCompare (h.plain p hp) (hkinds row hrow p hp)).1
  · obtain ⟨p, hp, rfl⟩ := List.mem_map.mp hv
    exact h.plain p hp

/-- The page bounded by a cursor shows the rows on the side of the cursor, of those that the page
without bounds shows. -/
theorem paginate_bound (side : Side) (hkeyset : options.strategy = .keyset)
    (h : c.leading (Page.keysOf options q) ≠ []) (ht : Page.TransitiveAround options q rows c) :
    ∃ page whole, paginate options (side.bound c q.unbounded) rows = .ok page ∧
      paginate options q.unbounded rows = .ok whole ∧
      page.items = whole.items.filter fun row =>
        Page.compareToCursor (Page.keysOf options q) row c == side.outcome := by
  cases side with
  | after =>
    obtain ⟨page, whole, hpage, hwhole, hitems⟩ :=
      Page.paginate_between_cursors (some c) none hkeyset
        (fun _ hc => by cases hc; exact ⟨h, ht⟩) nofun
    refine ⟨page, whole, hpage, hwhole, hitems.trans (List.filter_congr fun row _ => ?_)⟩
    exact Bool.and_true _
  | before =>
    obtain ⟨page, whole, hpage, hwhole, hitems⟩ :=
      Page.paginate_between_cursors none (some c) hkeyset nofun
        (fun _ hc => by cases hc; exact ⟨h, ht⟩)
    exact ⟨page, whole, hpage, hwhole, hitems.trans (List.filter_congr fun row _ => rfl)⟩

end Window

/-- The predicate of a cursor that records integers and texts can be read from its text, holds of the
rows on its side of the cursor, and leaves of the rows that pass the filters those that the cursor
leaves. -/
theorem predicate_selects_window {order : List OrderKey} {c : Cursor} (h : RecordsPlainly order c)
    (side : Side) :
    ∃ k, ofCursor? order c side = some k ∧
      (∀ r : Renderer,
        (∀ p ∈ c.leading order, r.writesName p.1.field = true ∧ r.writesValue p.2 = true) →
          ofText? (k.chars r) = some k) ∧
      (∀ {ρ : Type} [Record ρ] (row : ρ), SameKinds order c row →
        (k.holds row = true ↔ Page.compareToCursor order row c = side.outcome)) ∧
      ∀ {ρ : Type} [Record ρ] (options : PageOptions) (q : Query) (rows : List ρ),
        options.strategy = .keyset → q.order = order →
        OrderKey.sortsBy order options.tiebreaker = true →
        (∀ row ∈ Page.passing q rows, SameKinds order c row) →
          ∃ page whole, paginate options (side.bound c q.unbounded) rows = .ok page ∧
            paginate options q.unbounded rows = .ok whole ∧
            whole.items.Perm (Page.passing q rows) ∧
            page.items = whole.items.filter k.holds := by
  refine ⟨_, ofCursor?_eq_some side h.leading_ne_nil, ?_, ?_, ?_⟩
  · intro r hr
    exact ofText?_chars_branchesFrom side h.leading_ne_nil hr
  · intro ρ _ row hkinds
    exact holds_iff_compareToCursor h hkinds
  · rintro ρ _ options q rows hkeyset rfl htie hkinds
    have hkeys : Page.keysOf options q = q.order := if_pos htie
    rw [← hkeys] at h hkinds ⊢
    obtain ⟨page, whole, hpage, hwhole, hitems⟩ := paginate_bound side hkeyset h.leading_ne_nil
      (transitiveAround_of_sameKinds h hkinds)
    have hperm := Page.items_unbounded_perm hwhole
    refine ⟨page, whole, hpage, hwhole, hperm,
      hitems.trans (List.filter_congr fun row hrow => ?_)⟩
    rw [Bool.eq_iff_iff, beq_iff_eq]
    exact (holds_iff_compareToCursor h (hkinds row (hperm.mem_iff.mp hrow))).symm

theorem predicate_selects_people :
    ∃ k page whole,
      ofCursor? [.desc "age", .asc "id"] ⟨[("age", .int 30), ("id", .int 1)]⟩ .after = some k ∧
      ofText? (k.chars ⟨.caseless, true⟩) = some k ∧
      paginate .standard { Query.all with
          order := [.desc "age", .asc "id"]
          after := some ⟨[("age", .int 30), ("id", .int 1)]⟩ } (Page.people.take 3) = .ok page ∧
      paginate .standard { Query.all with order := [.desc "age", .asc "id"] } (Page.people.take 3) =
        .ok whole ∧
      whole.items.Perm (Page.people.take 3) ∧
      page.items = whole.items.filter k.holds := by
  have hplain : RecordsPlainly [.desc "age", .asc "id"] ⟨[("age", .int 30), ("id", .int 1)]⟩ :=
    ⟨by decide, by decide⟩
  obtain ⟨k, hk, htext, _, hwindow⟩ := predicate_selects_window hplain .after
  obtain ⟨page, whole, hpage, hwhole, hperm, hitems⟩ := hwindow .standard
    { Query.all with order := [.desc "age", .asc "id"] } (Page.people.take 3) rfl rfl rfl (by decide)
  refine ⟨k, page, whole, hk, htext _ ?_, hpage, hwhole, hperm, hitems⟩
  intro p hp
  exact ⟨rfl, writesValue_of_plain (.inr rfl) (hplain.plain p hp)⟩

end Keyset

end RowQuery.Sql
