import RowQuery.Proofs.Walk.Basic

/-!
# Walks through rows that stay the same

While the rows stay the same, what lies ahead of a page is one part of the candidates: those behind it
or those in front of it. A further page takes some of them, at least one, and leaves the others ahead.

Results:
* `Ahead.step`: the next page takes rows from those ahead.
* `Ahead.run`: a walk with enough requests takes all of them and ends.
* `walk_reaches_every_row`: a walk in either direction ends and gives all rows of the query.
-/

namespace RowQuery.Walk

open Page

variable {ρ : Type} [Record ρ]

section Steps

variable {h : Heading} {options : PageOptions} {q : Query} {rows ahead : List ρ} {page : Page ρ}

/-- The next page takes rows from those ahead. -/
theorem Ahead.step (ha : Ahead options q rows h page ahead) (hne : ahead ≠ [])
    (hexact : CursorsExact options q rows) {n : Nat} (hn : 0 < n) :
    ∃ next successor rest, h.next q.unbounded page.info n = some (.ok next) ∧
      paginate options next rows = .ok successor ∧ Ahead options q rows h successor rest ∧
      h.glue successor.items rest = ahead ∧ rest.length < ahead.length := by
  cases h with
  | forward =>
    obtain ⟨front, e, back, he, rfl, _, hcursor⟩ := ha.last hne
    have hback : back ≠ [] := fun hnone => hne (congrArg (List.map Entry.row) hnone)
    refine ⟨_, _, _, next_forward hcursor hn, paginate_after_cursorAt hexact he (some n),
      .behind ?_ (Window.firstRows_ne_nil hn), ?_, ?_⟩
    · rw [Window.firstRows_append_beyondFirst, List.append_assoc]
      exact he
    · show List.map _ _ ++ List.map _ _ = _
      rw [← List.map_append, Window.firstRows_append_beyondFirst]
    · rw [List.length_map, List.length_map]
      exact Window.length_beyondFirst_lt hn hback
  | backward =>
    obtain ⟨front, e, back, he, rfl, hcursor⟩ := ha.first hne
    have hfront : front ≠ [] := fun hnone => hne (congrArg (List.map Entry.row) hnone)
    refine ⟨_, _, _, next_backward hcursor hn, paginate_before_cursorAt hexact he (some n),
      .inFront ?_ (Window.lastRows_ne_nil hn), ?_, ?_⟩
    · rw [← List.append_assoc, Window.beforeLast_append_lastRows]
      exact he
    · show List.map _ _ ++ List.map _ _ = _
      rw [← List.map_append, Window.beforeLast_append_lastRows]
    · rw [List.length_map, List.length_map]
      exact Window.length_beforeLast_lt hn hfront

end Steps

/-! ## Runs -/

section Runs

variable {h : Heading} {options : PageOptions} {q : Query} {rows ahead : List ρ} {page : Page ρ}

/-- With enough requests a walk takes all rows that lie ahead, and ends. -/
theorem Ahead.run (ha : Ahead options q rows h page ahead) (hexact : CursorsExact options q rows)
    {requests : List (Request ρ)} (hrows : ∀ r ∈ requests, r.rows = rows)
    (hlength : ahead.length ≤ requests.length) :
    ∃ pages, (∀ further, following h options q.unbounded page (requests ++ further) = .ok pages) ∧
      Ended h (page :: pages) ∧ h.join pages = ahead := by
  -- Each request makes the part ahead shorter; where nothing is ahead, the walk has stopped.
  induction requests generalizing page ahead with
  | nil =>
    obtain rfl : ahead = [] := List.length_eq_zero_iff.mp (Nat.le_zero.mp hlength)
    exact ⟨[], following_of_ended ha.ended, (ended_singleton h page).mpr ha.ended, join_nil h⟩
  | cons r requests ih =>
    by_cases hne : ahead = []
    · subst hne
      exact ⟨[], fun _ => following_of_ended ha.ended _, (ended_singleton h page).mpr ha.ended,
        join_nil h⟩
    · obtain ⟨next, successor, rest, hnext, hpage, ha', hglue, hlt⟩ := ha.step hne hexact r.positive
      obtain ⟨hr, hrows⟩ := List.forall_mem_cons.mp hrows
      have hrest : rest.length ≤ requests.length :=
        Nat.le_of_lt_succ (Nat.lt_of_lt_of_le hlt hlength)
      obtain ⟨pages, hpages, hended, hjoin⟩ := ih ha' hrows hrest
      refine ⟨successor :: pages, ?_, (ended_cons_cons h page successor pages).mpr hended, ?_⟩
      · intro further
        rw [← hr] at hpage
        exact following_cons (ha.more_iff.mpr hne) hnext hpage (hpages further)
      · rw [join_cons, hjoin, hglue]

/-- The first requests of a sequence of requests for the same rows. -/
def repeated (rows : List ρ) (sizes : Nat → Nat) (hsizes : ∀ i, 0 < sizes i) (n : Nat) :
    List (Request ρ) :=
  (List.range n).map fun i => ⟨rows, sizes i, hsizes i⟩

omit [Record ρ] in
theorem length_repeated (rows : List ρ) (sizes : Nat → Nat) (hsizes : ∀ i, 0 < sizes i) (n : Nat) :
    (repeated rows sizes hsizes n).length = n := by
  unfold repeated
  rw [List.length_map, List.length_range]

omit [Record ρ] in
theorem rows_of_mem_repeated {sizes : Nat → Nat} {hsizes : ∀ i, 0 < sizes i} {n : Nat}
    {r : Request ρ} (hr : r ∈ repeated rows sizes hsizes n) : r.rows = rows := by
  obtain ⟨i, _, rfl⟩ := List.mem_map.mp hr
  rfl

omit [Record ρ] in
theorem repeated_succ (rows : List ρ) (sizes : Nat → Nat) (hsizes : ∀ i, 0 < sizes i) (n : Nat) :
    repeated rows sizes hsizes (n + 1) =
      ⟨rows, sizes 0, hsizes 0⟩ ::
        repeated rows (fun i => sizes (i + 1)) (fun i => hsizes (i + 1)) n := by
  unfold repeated
  rw [List.range_succ_eq_map, List.map_cons, List.map_map]
  rfl

omit [Record ρ] in
theorem repeated_add (rows : List ρ) (sizes : Nat → Nat) (hsizes : ∀ i, 0 < sizes i) (m n : Nat) :
    ∃ further, repeated rows sizes hsizes (m + n) = repeated rows sizes hsizes m ++ further := by
  unfold repeated
  rw [List.range_add, List.map_append]
  exact ⟨_, rfl⟩

/-- A walk through rows that stay the same ends, whatever the sizes of its pages, and its pages give the
rows of the page without bounds, which are all rows that pass. -/
theorem walk_reaches_every_row (h : Heading) (hexact : CursorsExact options q rows)
    (sizes : Nat → Nat) (hsizes : ∀ i, 0 < sizes i) :
    ∃ pages whole,
      (∀ n, (passing q rows).length < n →
        walk h options q.unbounded (repeated rows sizes hsizes n) = .ok pages) ∧
      Ended h pages ∧ paginate options q.unbounded rows = .ok whole ∧
      h.join pages = whole.items ∧ whole.items.Perm (passing q rows) := by
  obtain ⟨opening, page, ahead, hopening, hpage, ha, hglue⟩ :=
    exists_opening h options q rows (hsizes 0)
  have hlength : ahead.length ≤ (repeated rows (fun i => sizes (i + 1)) (fun i => hsizes (i + 1))
      (passing q rows).length).length := by
    rw [length_repeated, ← length_entriesOf options, ← List.length_map Entry.row, ← hglue]
    exact length_le_glue h page.items ahead
  obtain ⟨pages, hpages, hended, hjoin⟩ := ha.run hexact (fun _ => rows_of_mem_repeated) hlength
  have hwhole := paginate_unbounded options q rows
  refine ⟨page :: pages, _, ?_, hended, hwhole, ?_, items_unbounded_perm hwhole⟩
  · intro n hn
    obtain ⟨k, rfl⟩ := Nat.exists_eq_add_of_lt hn
    obtain ⟨further, hfurther⟩ := repeated_add rows (fun i => sizes (i + 1))
      (fun i => hsizes (i + 1)) (passing q rows).length k
    rw [repeated_succ, hfurther]
    exact walk_cons hopening hpage (hpages further)
  · rw [join_cons, hjoin, hglue]
    rfl

theorem walk_reaches_people :
    ∃ pages whole,
      (∀ n, (passing oldestFirst people).length < n →
        walk .backward .standard oldestFirst (repeated people (· + 1) Nat.succ_pos n) = .ok pages) ∧
      Ended .backward pages ∧ paginate .standard oldestFirst people = .ok whole ∧
      Heading.backward.join pages = whole.items ∧ whole.items.Perm (passing oldestFirst people) :=
  walk_reaches_every_row .backward (by decide +kernel) (· + 1) Nat.succ_pos

end Runs

end RowQuery.Walk
