import RowQuery.Proofs.Page.OwnCursor

/-!
# Walking through pages

A walk takes one page after the other, each from where the one before it ended, as long as that one
tells that more rows follow. It heads forward, from the first row on and behind each page, or backward,
from the last row on and in front of each page. Every request of a walk has its own rows and its own
number of rows to take, so the rows may change between two pages.

Results:
* `walk_cons`, `following_cons`: a walk goes on from a page by one request.
* `following_of_ended`: a walk stops at a page with no more rows.
-/

namespace RowQuery

namespace Query

theorem takeFirst_of_pos {q : Query} {n : Nat} (h : 0 < n) :
    q.takeFirst n = .ok { q with first := some n } := by
  unfold takeFirst positive
  rw [if_pos h]
  rfl

theorem takeLast_of_pos {q : Query} {n : Nat} (h : 0 < n) :
    q.takeLast n = .ok { q with last := some n } := by
  unfold takeLast positive
  rw [if_pos h]
  rfl

end Query

namespace Walk

/-! ## Definitions -/

/-- The direction of a walk. -/
inductive Heading where
  | forward
  | backward

namespace Heading

/-- Whether more rows follow a page. -/
def more : Heading → PageInfo → Bool
  | .forward, info => info.hasNext
  | .backward, info => info.hasPrevious

/-- The query for the first page of a walk. -/
def opening : Heading → Query → Nat → Except QueryError Query
  | .forward, q, n => q.takeFirst n
  | .backward, q, n => q.takeLast n

/-- The query for the page that follows a page, if that one has a row to go on from. -/
def next : Heading → Query → PageInfo → Nat → Option (Except QueryError Query)
  | .forward, q, info, n => q.onward info n
  | .backward, q, info, n => q.backward info n

/-- Rows met earlier together with those met later, as they stand. -/
def glue {α : Type} : Heading → List α → List α → List α
  | .forward, met, ahead => met ++ ahead
  | .backward, met, ahead => ahead ++ met

/-- The rows of all pages of a walk, as they stand. -/
def join {α : Type} : Heading → List (Page α) → List α
  | .forward, pages => pages.flatMap Page.items
  | .backward, pages => pages.reverse.flatMap Page.items

end Heading

/-- The rows there are when a page is asked for, and how many the page may have. -/
structure Request (ρ : Type) where
  rows : List ρ
  count : Nat
  positive : 0 < count

variable {ρ : Type} [Record ρ]

/-- The pages that follow a page, one for each request until no more rows follow. -/
def following (h : Heading) (options : PageOptions) (q : Query) (page : Page ρ) :
    List (Request ρ) → Except QueryError (List (Page ρ))
  | [] => .ok []
  | r :: rest =>
    if h.more page.info then
      match h.next q page.info r.count with
      | none => .ok []
      | some next => do
        let page ← paginate options (← next) r.rows
        let pages ← following h options q page rest
        .ok (page :: pages)
    else .ok []

/-- The pages of a walk. -/
def walk (h : Heading) (options : PageOptions) (q : Query) :
    List (Request ρ) → Except QueryError (List (Page ρ))
  | [] => .ok []
  | r :: rest => do
    let page ← paginate options (← h.opening q r.count) r.rows
    let pages ← following h options q page rest
    .ok (page :: pages)

omit [Record ρ] in
/-- No more rows follow the last page. -/
def Ended (h : Heading) (pages : List (Page ρ)) : Prop :=
  ∃ page, pages.getLast? = some page ∧ h.more page.info = false

/-! ## Steps -/

theorem next_forward {q : Query} {info : PageInfo} {c : Cursor} {n : Nat}
    (hc : info.endCursor = some c) (hn : 0 < n) :
    Heading.forward.next q info n = some (.ok { q.startAfter c with first := some n }) := by
  show info.endCursor.map _ = _
  rw [hc]
  exact congrArg some (Query.takeFirst_of_pos hn)

theorem next_backward {q : Query} {info : PageInfo} {c : Cursor} {n : Nat}
    (hc : info.startCursor = some c) (hn : 0 < n) :
    Heading.backward.next q info n = some (.ok { q.stopBefore c with last := some n }) := by
  show info.startCursor.map _ = _
  rw [hc]
  exact congrArg some (Query.takeLast_of_pos hn)

omit [Record ρ] in
theorem join_nil (h : Heading) : h.join ([] : List (Page ρ)) = [] := by
  cases h <;> rfl

omit [Record ρ] in
theorem join_cons (h : Heading) (page : Page ρ) (pages : List (Page ρ)) :
    h.join (page :: pages) = h.glue page.items (h.join pages) := by
  cases h with
  | forward => exact List.flatMap_cons
  | backward =>
    show (page :: pages).reverse.flatMap Page.items = pages.reverse.flatMap Page.items ++ page.items
    rw [List.reverse_cons, List.flatMap_append, List.flatMap_singleton]

omit [Record ρ] in
theorem length_le_glue (h : Heading) (met ahead : List ρ) :
    ahead.length ≤ (h.glue met ahead).length := by
  cases h with
  | forward => exact (List.sublist_append_right met ahead).length_le
  | backward => exact (List.sublist_append_left ahead met).length_le

omit [Record ρ] in
theorem ended_singleton (h : Heading) (page : Page ρ) :
    Ended h [page] ↔ h.more page.info = false := by
  constructor
  · rintro ⟨_, hlast, hmore⟩
    cases hlast
    exact hmore
  · intro hmore
    exact ⟨page, rfl, hmore⟩

omit [Record ρ] in
theorem ended_cons_cons (h : Heading) (page successor : Page ρ) (pages : List (Page ρ)) :
    Ended h (page :: successor :: pages) ↔ Ended h (successor :: pages) := by
  unfold Ended
  rw [List.getLast?_cons_cons]

section Steps

variable {h : Heading} {options : PageOptions} {q next : Query} {page : Page ρ}

/-- A walk stops at a page that no more rows follow. -/
theorem following_of_ended (hmore : h.more page.info = false) (requests : List (Request ρ)) :
    following h options q page requests = .ok [] := by
  cases requests with
  | nil => rfl
  | cons r rest =>
    unfold following
    rw [hmore]
    rfl

theorem following_cons {successor : Page ρ} {pages : List (Page ρ)} {r : Request ρ}
    {rest : List (Request ρ)} (hmore : h.more page.info = true)
    (hnext : h.next q page.info r.count = some (.ok next))
    (hpage : paginate options next r.rows = .ok successor)
    (hrest : following h options q successor rest = .ok pages) :
    following h options q page (r :: rest) = .ok (successor :: pages) := by
  unfold following
  rw [hmore, hnext]
  show (paginate options next r.rows >>= _) = _
  rw [hpage]
  show (following h options q successor rest >>= _) = _
  rw [hrest]
  rfl

theorem walk_cons {pages : List (Page ρ)} {r : Request ρ} {rest : List (Request ρ)}
    (hopening : h.opening q r.count = .ok next) (hpage : paginate options next r.rows = .ok page)
    (hrest : following h options q page rest = .ok pages) :
    walk h options q (r :: rest) = .ok (page :: pages) := by
  show (h.opening q r.count >>= _) = _
  rw [hopening]
  show (paginate options next r.rows >>= _) = _
  rw [hpage]
  show (following h options q page rest >>= _) = _
  rw [hrest]
  rfl

end Steps

/-! ## Ahead of a page -/

open Page

/-- The rows that lie ahead of a page in the direction of a walk. -/
inductive Ahead (options : PageOptions) (q : Query) (rows : List ρ) :
    Heading → Page ρ → List ρ → Prop
  | behind {front shown back : List (Entry ρ)} :
      entriesOf options q rows = front ++ (shown ++ back) → (back ≠ [] → shown ≠ []) →
      Ahead options q rows .forward (between options (keysOf options q) front shown back)
        (back.map Entry.row)
  | inFront {front shown back : List (Entry ρ)} :
      entriesOf options q rows = front ++ (shown ++ back) → (front ≠ [] → shown ≠ []) →
      Ahead options q rows .backward (between options (keysOf options q) front shown back)
        (front.map Entry.row)

section Ahead

variable {h : Heading} {options : PageOptions} {q : Query} {rows ahead : List ρ} {page : Page ρ}

/-- More rows follow a page if and only if some lie ahead. -/
theorem Ahead.more_iff (ha : Ahead options q rows h page ahead) :
    h.more page.info = true ↔ ahead ≠ [] := by
  cases ha with
  | behind => exact hasNext_between options _ _ _ _
  | inFront => exact hasPrevious_between options _ _ _ _

/-- With nothing ahead a walk has ended. -/
theorem Ahead.ended (ha : Ahead options q rows h page []) : h.more page.info = false := by
  cases hmore : h.more page.info with
  | false => rfl
  | true => exact absurd rfl (ha.more_iff.mp hmore)

/-- A page that rows follow has a last row, whose cursor it gives. -/
theorem Ahead.last (ha : Ahead options q rows .forward page ahead) (hne : ahead ≠ []) :
    ∃ front e back, entriesOf options q rows = front ++ e :: back ∧ back.map Entry.row = ahead ∧
      page.items.getLast? = some e.row ∧
      page.info.endCursor =
        some (cursorAt options.strategy (keysOf options q) front.length e) := by
  cases ha with
  | @behind front shown back he hshown =>
    have hback : back ≠ [] := fun hnone => hne (congrArg (List.map Entry.row) hnone)
    obtain ⟨init, e, rfl⟩ : ∃ init e, shown = init ++ [e] :=
      ⟨_, _, (List.dropLast_concat_getLast (hshown hback)).symm⟩
    refine ⟨front ++ init, e, back, ?_, rfl, ?_, endCursor_between options _ front init back e⟩
    · rw [he, List.append_assoc, List.append_assoc]
      rfl
    · show ((init ++ [e]).map Entry.row).getLast? = _
      rw [List.map_append]
      exact List.getLast?_concat

/-- A page that rows stand in front of has a first row, whose cursor it gives. -/
theorem Ahead.first (ha : Ahead options q rows .backward page ahead) (hne : ahead ≠ []) :
    ∃ front e back, entriesOf options q rows = front ++ e :: back ∧ front.map Entry.row = ahead ∧
      page.info.startCursor =
        some (cursorAt options.strategy (keysOf options q) front.length e) := by
  cases ha with
  | @inFront front shown back he hshown =>
    have hfront : front ≠ [] := fun hnone => hne (congrArg (List.map Entry.row) hnone)
    obtain ⟨e, rest, rfl⟩ := List.exists_cons_of_ne_nil (hshown hfront)
    exact ⟨front, e, rest ++ back, he, rfl, startCursor_between options _ front rest back e⟩

/-- The first page of a walk takes rows from all rows of the query. -/
theorem exists_opening (h : Heading) (options : PageOptions) (q : Query) (rows : List ρ) {n : Nat}
    (hn : 0 < n) :
    ∃ opening page ahead, h.opening q.unbounded n = .ok opening ∧
      paginate options opening rows = .ok page ∧ Ahead options q rows h page ahead ∧
      h.glue page.items ahead = (entriesOf options q rows).map Entry.row := by
  cases h with
  | forward =>
    refine ⟨_, _, _, Query.takeFirst_of_pos hn, paginate_first_all options q rows (some n),
      .behind ?_ (Window.firstRows_ne_nil hn), ?_⟩
    · exact (Window.firstRows_append_beyondFirst _ _).symm
    · show List.map _ _ ++ List.map _ _ = _
      rw [← List.map_append, Window.firstRows_append_beyondFirst]
  | backward =>
    have hpage := paginate_last (cursorWindow_none options.strategy (keysOf options q) _)
      (List.append_nil _).symm (shows_all (entriesOf options q rows)) (some n)
    rw [List.nil_append] at hpage
    refine ⟨_, _, _, Query.takeLast_of_pos hn, hpage, .inFront ?_ (Window.lastRows_ne_nil hn), ?_⟩
    · rw [List.append_nil]
      exact (Window.beforeLast_append_lastRows _ _).symm
    · show List.map _ _ ++ List.map _ _ = _
      rw [← List.map_append, Window.beforeLast_append_lastRows]

end Ahead

end Walk

end RowQuery
