import Mathlib.Data.List.DropRight
import RowQuery.Proofs.Outcome
import RowQuery.Query.Step

/-!
# Steps field by field

Whether a step fails does not depend on the query, and what it does to a field depends on that field
alone. So the steps that touch a field decide it, however they are mixed with the others. Filters, keys of
the ordering and names to load are added to or replaced as a whole; counts and cursors are set.

Results:
* `step_eq_ok_iff`: what one step does, if it does not fail.
* `revised_concat`: the query revised by several steps is revised by one more.
* `run_eq_ok_iff`: several steps give the revised query if none of them fails, and no query otherwise.
* `countsPositive_of_run`: counts that have to be positive are.
* `steps_by_field`: all of these, and that steps which agree on every field give the same query.
-/

namespace RowQuery.Query

/-! ## Parts that are added to -/

/-- What a step does to a part of a query that can be added to. -/
inductive Revision (α β : Type) where
  | replace (part : α)
  | append (more : List β)
deriving DecidableEq

namespace Revision

variable {α β : Type}

def replacement? : Revision α β → Option α
  | replace part => some part
  | append _ => none

def added : Revision α β → List β
  | replace _ => []
  | append more => more

/-- The last replacement, or the part as it was. -/
def base (given : α) (rs : List (Revision α β)) : α :=
  (rs.filterMap replacement?).getLast?.getD given

/-- What is added behind the last replacement, in order. -/
def additions (rs : List (Revision α β)) : List β :=
  (rs.rtakeWhile fun r => r.replacement?.isNone).flatMap added

/-- The part after a revision, if there is one. -/
def apply (join : α → List β → α) (part : α) : Option (Revision α β) → α
  | none => part
  | some (replace part) => part
  | some (append more) => join part more

theorem apply_map_replace (join : α → List β → α) (part : α) (o : Option α) :
    apply join part (o.map replace) = o.getD part := by
  cases o <;> rfl

/-- One more revision of a part, where adding twice is adding both. -/
theorem join_concat {join : α → List β → α} (hnil : ∀ part, join part [] = part)
    (happend : ∀ part xs ys, join part (xs ++ ys) = join (join part xs) ys) (given : α)
    (rs : List (Revision α β)) (r : Option (Revision α β)) :
    join (base given (rs ++ r.toList)) (additions (rs ++ r.toList)) =
      apply join (join (base given rs) (additions rs)) r := by
  unfold base additions
  cases r with
  | none => rw [Option.toList_none, List.append_nil, apply]
  | some r =>
    rw [Option.toList_some, List.filterMap_append]
    cases r with
    | replace part =>
      rw [List.rtakeWhile_concat_neg _ _ _ (by simp [replacement?])]
      simp [replacement?, apply, hnil]
    | append more =>
      rw [List.rtakeWhile_concat_pos _ _ _ (by simp [replacement?]), List.flatMap_append, happend]
      simp [replacement?, apply, added]

end Revision

/-! ## What a step does to a field -/

namespace Step

def filterRevision? : Step → Option (Revision (List Filter) Filter)
  | .whereField field condition => some (.append [condition.toFilter field])
  | .whereExpr expr => expr.toFilters.toOption.map .append
  | .copyWith update => update.filters.map .replace
  | _ => none

def orderRevision? : Step → Option (Revision (List OrderKey) OrderKey)
  | .orderBy field direction => some (.append [.of field direction])
  | .orderByField field direction => some (.append [.of field.name direction])
  | .copyWith update => update.order.map .replace
  | _ => none

def preloadRevision? : Step → Option (Revision NameSet String)
  | .preload names => some (.append names)
  | .preloadOne name => some (.append [name])
  | .copyWith update => update.preload.map .replace
  | _ => none

def limit? : Step → Option Nat
  | .limit n => some n
  | .copyWith update => update.limit
  | _ => none

def offset? : Step → Option Nat
  | .offset n => some n
  | .copyWith update => update.offset
  | _ => none

def after? : Step → Option Cursor
  | .after cursor => some cursor
  | .copyWith update => update.after
  | _ => none

def before? : Step → Option Cursor
  | .before cursor => some cursor
  | .copyWith update => update.before
  | _ => none

def first? : Step → Option Nat
  | .first n => some n
  | .copyWith update => update.first
  | _ => none

def last? : Step → Option Nat
  | .last n => some n
  | .copyWith update => update.last
  | _ => none

/-- Whether the step does not fail: its expression can be lowered, and its counts are positive. -/
def Succeeds : Step → Prop
  | .whereExpr expr => ∃ filters, expr.toFilters = .ok filters
  | .limit n | .first n | .last n => 0 < n
  | .copyWith update =>
    (∀ n ∈ update.limit, 0 < n) ∧ (∀ n ∈ update.first, 0 < n) ∧ ∀ n ∈ update.last, 0 < n
  | _ => True

end Step

/-- The query after a step that does not fail. -/
def revise (q : Query) (s : Step) : Query where
  filters := Revision.apply (· ++ ·) q.filters s.filterRevision?
  order := Revision.apply (· ++ ·) q.order s.orderRevision?
  limit := s.limit?.or q.limit
  offset := s.offset?.or q.offset
  after := s.after?.or q.after
  before := s.before?.or q.before
  first := s.first?.or q.first
  last := s.last?.or q.last
  preload := Revision.apply NameSet.insertAll q.preload s.preloadRevision?

theorem positive_eq_ok_iff {name : CountName} {n m : Nat} :
    positive name n = .ok m ↔ 0 < n ∧ m = n := by
  unfold positive
  split
  · rename_i h
    rw [Except.ok.injEq, eq_comm]
    exact (and_iff_right h).symm
  · rename_i h
    exact iff_of_false nofun fun hn => h hn.1

theorem positiveOr_eq_ok_iff {name : CountName} {replacement current r : Option Nat} :
    positiveOr name replacement current = .ok r ↔
      (∀ n ∈ replacement, 0 < n) ∧ r = replacement.or current := by
  cases replacement with
  | none =>
    show Except.ok current = .ok r ↔ _
    rw [Except.ok.injEq, eq_comm]
    exact (and_iff_right nofun).symm
  | some n =>
    unfold positiveOr positive
    by_cases h : 0 < n <;> simp [h, Except.map, eq_comm]

/-- What a step that may fail for a zero sets is positive. -/
theorem positive_bind_eq_ok_iff {name : CountName} {n : Nat} {f : Nat → Query} {r : Query} :
    (positive name n >>= fun n => .ok (f n)) = .ok r ↔ 0 < n ∧ r = f n := by
  rw [Outcome.bind_eq_ok]
  constructor
  · rintro ⟨m, hm, h⟩
    obtain ⟨hn, rfl⟩ := positive_eq_ok_iff.mp hm
    cases h
    exact ⟨hn, rfl⟩
  · rintro ⟨hn, rfl⟩
    exact ⟨n, positive_eq_ok_iff.mpr ⟨hn, rfl⟩, rfl⟩

theorem whereExpr_eq_ok_iff {q r : Query} {e : Expr} :
    q.whereExpr e = .ok r ↔ (Step.whereExpr e).Succeeds ∧ r = q.revise (.whereExpr e) := by
  show (e.toFilters >>= fun filters => Except.ok { q with filters := q.filters ++ filters }) = .ok r ↔
    (∃ filters, e.toFilters = .ok filters) ∧
      r = { q with
        filters := Revision.apply (· ++ ·) q.filters (e.toFilters.toOption.map .append) }
  cases e.toFilters with
  | ok filters =>
    show Except.ok { q with filters := q.filters ++ filters } = .ok r ↔ _
    rw [Except.ok.injEq, eq_comm]
    exact (and_iff_right ⟨filters, rfl⟩).symm
  | error e =>
    refine iff_of_false nofun ?_
    rintro ⟨⟨_, h⟩, _⟩
    cases h

theorem copyWith_eq_ok_iff {q r : Query} {u : Update} :
    q.copyWith u = .ok r ↔ (Step.copyWith u).Succeeds ∧ r = q.revise (.copyWith u) := by
  have hrevise : q.revise (.copyWith u) =
      { filters := u.filters.getD q.filters
        order := u.order.getD q.order
        limit := u.limit.or q.limit
        offset := u.offset.or q.offset
        after := u.after.or q.after
        before := u.before.or q.before
        first := u.first.or q.first
        last := u.last.or q.last
        preload := u.preload.getD q.preload } := by
    unfold revise
    simp only [Step.filterRevision?, Step.orderRevision?, Step.preloadRevision?,
      Revision.apply_map_replace]
    rfl
  rw [hrevise]
  unfold copyWith Step.Succeeds
  simp only [Outcome.bind_eq_ok, positiveOr_eq_ok_iff]
  constructor
  · rintro ⟨_, ⟨hlimit, rfl⟩, _, ⟨hfirst, rfl⟩, _, ⟨hlast, rfl⟩, h⟩
    cases h
    exact ⟨⟨hlimit, hfirst, hlast⟩, rfl⟩
  · rintro ⟨⟨hlimit, hfirst, hlast⟩, rfl⟩
    exact ⟨_, ⟨hlimit, rfl⟩, _, ⟨hfirst, rfl⟩, _, ⟨hlast, rfl⟩, rfl⟩

/-- A step gives the revised query, or fails whatever the query. -/
theorem step_eq_ok_iff {q r : Query} {s : Step} :
    q.step s = .ok r ↔ s.Succeeds ∧ r = q.revise s := by
  have hdone : ∀ {q' : Query}, (Except.ok q' : Except QueryError Query) = .ok r ↔ True ∧ r = q' := by
    intro q'
    rw [Except.ok.injEq, eq_comm, true_and]
  cases s with
  | whereField field condition => exact hdone
  | whereExpr expr => exact whereExpr_eq_ok_iff
  | orderBy field direction => exact hdone
  | orderByField field direction => exact hdone
  | limit n => exact positive_bind_eq_ok_iff
  | offset n => exact hdone
  | after cursor => exact hdone
  | before cursor => exact hdone
  | first n => exact positive_bind_eq_ok_iff
  | last n => exact positive_bind_eq_ok_iff
  | preload names => exact hdone
  | preloadOne name => exact hdone
  | copyWith update => exact copyWith_eq_ok_iff

/-! ## Several steps -/

/-- What the last step sets that sets something, or what was set before. -/
def lastSet {α : Type} (set? : Step → Option α) (given : Option α) (steps : List Step) : Option α :=
  (steps.filterMap set?).getLast?.or given

/-- The query after several steps that do not fail: every field as the steps that touch it decide. -/
def revised (q : Query) (steps : List Step) : Query where
  filters :=
    Revision.base q.filters (steps.filterMap Step.filterRevision?)
      ++ Revision.additions (steps.filterMap Step.filterRevision?)
  order :=
    Revision.base q.order (steps.filterMap Step.orderRevision?)
      ++ Revision.additions (steps.filterMap Step.orderRevision?)
  limit := lastSet Step.limit? q.limit steps
  offset := lastSet Step.offset? q.offset steps
  after := lastSet Step.after? q.after steps
  before := lastSet Step.before? q.before steps
  first := lastSet Step.first? q.first steps
  last := lastSet Step.last? q.last steps
  preload :=
    (Revision.base q.preload (steps.filterMap Step.preloadRevision?)).insertAll
      (Revision.additions (steps.filterMap Step.preloadRevision?))

theorem filterMap_concat {α : Type} (f : Step → Option α) (steps : List Step) (s : Step) :
    (steps ++ [s]).filterMap f = steps.filterMap f ++ (f s).toList := by
  rw [List.filterMap_append]
  cases hs : f s <;> simp [hs]

theorem lastSet_concat {α : Type} (set? : Step → Option α) (given : Option α) (steps : List Step)
    (s : Step) : lastSet set? given (steps ++ [s]) = (set? s).or (lastSet set? given steps) := by
  unfold lastSet
  rw [filterMap_concat]
  cases set? s with
  | none => rw [Option.toList_none, List.append_nil, Option.none_or]
  | some v => rw [Option.toList_some, List.getLast?_concat, Option.some_or, Option.some_or]

theorem revised_nil (q : Query) : q.revised [] = q := by
  unfold revised
  simp [Revision.base, Revision.additions, lastSet, NameSet.insertAll]

/-- One more step revises the query that was revised by the steps before it. -/
theorem revised_concat (q : Query) (steps : List Step) (s : Step) :
    q.revised (steps ++ [s]) = (q.revised steps).revise s := by
  have hjoin : ∀ {α : Type} (xs ys zs : List α), xs ++ (ys ++ zs) = xs ++ ys ++ zs :=
    fun xs ys zs => (List.append_assoc xs ys zs).symm
  have hinsert : ∀ (names : NameSet) (xs ys : List String),
      names.insertAll (xs ++ ys) = (names.insertAll xs).insertAll ys :=
    fun names xs ys => List.foldl_append
  unfold revised revise
  simp only [lastSet_concat, filterMap_concat, Revision.join_concat List.append_nil hjoin,
    Revision.join_concat (fun _ => rfl) hinsert]

theorem run_concat (q : Query) (steps : List Step) (s : Step) :
    q.run (steps ++ [s]) = q.run steps >>= fun r => r.step s := by
  induction steps generalizing q with
  | nil =>
    show q.step s >>= _ = q.step s
    cases q.step s <;> rfl
  | cons t steps ih =>
    show q.step t >>= _ = (q.step t >>= _) >>= _
    cases q.step t with
    | ok next => exact ih next
    | error e => rfl

/-- Several steps give the revised query if none of them fails, and no query otherwise. -/
theorem run_eq_ok_iff {q r : Query} {steps : List Step} :
    q.run steps = .ok r ↔ (∀ s ∈ steps, s.Succeeds) ∧ r = q.revised steps := by
  induction steps using List.reverseRecOn generalizing r with
  | nil =>
    show Except.ok q = .ok r ↔ _
    rw [Except.ok.injEq, eq_comm, revised_nil]
    exact (and_iff_right (List.forall_mem_nil _)).symm
  | append_singleton steps s ih =>
    rw [run_concat, Outcome.bind_eq_ok, revised_concat, List.forall_mem_append,
      List.forall_mem_singleton]
    constructor
    · rintro ⟨next, hnext, hr⟩
      obtain ⟨hsteps, rfl⟩ := ih.mp hnext
      obtain ⟨hs, rfl⟩ := step_eq_ok_iff.mp hr
      exact ⟨⟨hsteps, hs⟩, rfl⟩
    · rintro ⟨⟨hsteps, hs⟩, rfl⟩
      exact ⟨q.revised steps, ih.mpr ⟨hsteps, rfl⟩, step_eq_ok_iff.mpr ⟨hs, rfl⟩⟩

/-! ## Counts -/

/-- The counts that have to be positive are, where they are set. -/
structure CountsPositive (q : Query) : Prop where
  limit : ∀ n ∈ q.limit, 0 < n
  first : ∀ n ∈ q.first, 0 < n
  last : ∀ n ∈ q.last, 0 < n

theorem countsPositive_all : all.CountsPositive := ⟨nofun, nofun, nofun⟩

theorem Step.Succeeds.positive {s : Step} (h : s.Succeeds) :
    (∀ n ∈ s.limit?, 0 < n) ∧ (∀ n ∈ s.first?, 0 < n) ∧ ∀ n ∈ s.last?, 0 < n := by
  have hset : ∀ {m : Nat}, 0 < m → ∀ n ∈ some m, 0 < n := by
    intro m hm n hn
    cases hn
    exact hm
  cases s with
  | limit n => exact ⟨hset h, nofun, nofun⟩
  | first n => exact ⟨nofun, hset h, nofun⟩
  | last n => exact ⟨nofun, nofun, hset h⟩
  | copyWith update => exact h
  | _ => exact ⟨nofun, nofun, nofun⟩

theorem CountsPositive.step {q r : Query} {s : Step} (hq : q.CountsPositive) (h : q.step s = .ok r) :
    r.CountsPositive := by
  obtain ⟨hs, rfl⟩ := step_eq_ok_iff.mp h
  obtain ⟨hlimit, hfirst, hlast⟩ := hs.positive
  have hor : ∀ {o p : Option Nat}, (∀ n ∈ o, 0 < n) → (∀ n ∈ p, 0 < n) → ∀ n ∈ o.or p, 0 < n := by
    intro o p ho hp
    cases o with
    | none => exact hp
    | some m => exact ho
  exact ⟨hor hlimit hq.limit, hor hfirst hq.first, hor hlast hq.last⟩

theorem CountsPositive.run {q r : Query} {steps : List Step} (hq : q.CountsPositive)
    (h : q.run steps = .ok r) : r.CountsPositive := by
  induction steps generalizing q with
  | nil =>
    cases h
    exact hq
  | cons s steps ih =>
    obtain ⟨next, hnext, hrest⟩ := Outcome.bind_eq_ok.mp h
    exact ih (hq.step hnext) hrest

/-! ## Steps that agree on every field -/

/-- Two lists of steps do the same to every field, one after the other. -/
structure AgreeByField (steps others : List Step) : Prop where
  filters : steps.filterMap Step.filterRevision? = others.filterMap Step.filterRevision?
  order : steps.filterMap Step.orderRevision? = others.filterMap Step.orderRevision?
  limit : steps.filterMap Step.limit? = others.filterMap Step.limit?
  offset : steps.filterMap Step.offset? = others.filterMap Step.offset?
  after : steps.filterMap Step.after? = others.filterMap Step.after?
  before : steps.filterMap Step.before? = others.filterMap Step.before?
  first : steps.filterMap Step.first? = others.filterMap Step.first?
  last : steps.filterMap Step.last? = others.filterMap Step.last?
  preload : steps.filterMap Step.preloadRevision? = others.filterMap Step.preloadRevision?

theorem AgreeByField.revised_eq {steps others : List Step} (h : AgreeByField steps others)
    (q : Query) : q.revised steps = q.revised others := by
  unfold revised lastSet
  rw [h.filters, h.order, h.limit, h.offset, h.after, h.before, h.first, h.last, h.preload]

/-- The names to load along are those of the last replacement and the later additions. -/
theorem mem_preload_revised {q : Query} {steps : List Step} {name : String} :
    name ∈ (q.revised steps).preload ↔
      name ∈ Revision.additions (steps.filterMap Step.preloadRevision?) ∨
        name ∈ Revision.base q.preload (steps.filterMap Step.preloadRevision?) :=
  NameSet.mem_insertAll

/-- Steps give a query if and only if none of them fails, and every field of it is as the steps that touch
the field decide; names to load along are united with those that are added. So steps that agree on every
field give the same query, however they are mixed. From the query for all rows, steps give queries with
positive counts, and it is the only query that is empty. -/
theorem steps_by_field (q : Query) (steps : List Step) :
    (∀ r, q.run steps = .ok r ↔ (∀ s ∈ steps, s.Succeeds) ∧ r = q.revised steps) ∧
    (∀ name, name ∈ (q.revised steps).preload ↔
      name ∈ Revision.additions (steps.filterMap Step.preloadRevision?) ∨
        name ∈ Revision.base q.preload (steps.filterMap Step.preloadRevision?)) ∧
    (∀ others, AgreeByField steps others → (∀ s ∈ others, s.Succeeds) →
      ∀ r, q.run steps = .ok r → q.run others = .ok r) ∧
    (∀ r, all.run steps = .ok r → r.CountsPositive) ∧
    (q.isEmpty = true ↔ q = all) := by
  refine ⟨fun r => run_eq_ok_iff, fun name => mem_preload_revised, ?_,
    fun r => countsPositive_all.run, isEmpty_iff⟩
  intro others hagree hothers r hr
  obtain ⟨_, rfl⟩ := run_eq_ok_iff.mp hr
  exact run_eq_ok_iff.mpr ⟨hothers, hagree.revised_eq q⟩

/-- Steps that narrow a query, replace its filters on the way and add to them again. -/
def narrowing : List Step :=
  [.whereField "age" (.greaterThan (.int 30)), .limit 5, .preload ["posts"],
    .copyWith ⟨some [⟨"name", .equals, .string "Ada"⟩], none, some 6, none, none, none, none, none, none⟩,
    .orderBy "age" .desc, .whereExpr (.comparison "id" .lessThan (.int 9)), .preloadOne "likes",
    .limit 7, .first 3]

/-- The same steps, mixed in another way. -/
def narrowingMixed : List Step :=
  [.orderBy "age" .desc, .first 3, .whereField "age" (.greaterThan (.int 30)), .preload ["posts"],
    .preloadOne "likes", .limit 5,
    .copyWith ⟨some [⟨"name", .equals, .string "Ada"⟩], none, some 6, none, none, none, none, none, none⟩,
    .limit 7, .whereExpr (.comparison "id" .lessThan (.int 9))]

theorem steps_by_field_narrowing :
    ∃ r, all.run narrowing = .ok r ∧ all.run narrowingMixed = .ok r ∧ r.CountsPositive ∧
      r.filters = [⟨"name", .equals, .string "Ada"⟩, ⟨"id", .lessThan, .int 9⟩] ∧ r.limit = some 7 := by
  have hsucceeds : ∀ s ∈ narrowing, s.Succeeds := by
    simp [narrowing, Step.Succeeds, Expr.toFilters]
  have hmixed : ∀ s ∈ narrowingMixed, s.Succeeds := by
    simp [narrowingMixed, Step.Succeeds, Expr.toFilters]
  have hagree : AgreeByField narrowing narrowingMixed :=
    ⟨rfl, rfl, rfl, rfl, rfl, rfl, rfl, rfl, rfl⟩
  obtain ⟨hrun, _, hothers, hcounts, _⟩ := steps_by_field all narrowing
  have hr : all.run narrowing = .ok (all.revised narrowing) := (hrun _).mpr ⟨hsucceeds, rfl⟩
  exact ⟨_, hr, hothers _ hagree hmixed _ hr, hcounts _ hr, by decide, by decide⟩

end RowQuery.Query
