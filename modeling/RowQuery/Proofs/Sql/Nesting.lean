import Mathlib.Data.List.TakeWhile
import RowQuery.Proofs.Sql.Writing

/-!
# Parentheses and conditions of a text of SQL

Parentheses count only as symbols: inside a name or a string they are part of one token. The conditions
of a statement are what stands between the separating `AND`s of its `WHERE` clause, those that no
parentheses enclose.

`Nested` builds balanced tokens from single tokens, groups in parentheses and pieces one after another.
It also says which tokens there are, and which ones stand outside all parentheses.

Results:
* `Nested.isBalanced`, `Nested.known_of_mem`, `Nested.outer_of_mem`: what is built that way has these
  properties.
* `conditionsOf_statement`: the conditions of a statement are found again.
-/

namespace RowQuery.Sql

def Token.isParenthesis (t : Token) : Bool := t = .symbol '(' || t = .symbol ')'

/-- Each token with the number of parentheses that enclose it, where `depth` are open in front. -/
def levels : Nat → List Token → List (Token × Nat)
  | _, [] => []
  | depth, t :: rest =>
    if t = .symbol '(' then (t, depth) :: levels (depth + 1) rest
    else if t = .symbol ')' then (t, depth - 1) :: levels (depth - 1) rest
    else (t, depth) :: levels depth rest

/-- Whether each parenthesis that closes has one to close, and none stays open. -/
def isBalanced : Nat → List Token → Bool
  | depth, [] => depth == 0
  | depth, t :: rest =>
    if t = .symbol '(' then isBalanced (depth + 1) rest
    else if t = .symbol ')' then depth != 0 && isBalanced (depth - 1) rest
    else isBalanced depth rest

/-- The keywords that start a clause behind the conditions. -/
def laterClauses : List Token := [keyword "ORDER", keyword "LIMIT", keyword "OFFSET"]

/-- The conditions of a statement. -/
def conditionsOf (ts : List Token) : List (List Token) :=
  match (levels 0 ts).dropWhile fun p => p != (keyword "WHERE", 0) with
  | [] => []
  | _ :: rest =>
    ((rest.takeWhile fun p => !(p.2 == 0 && laterClauses.contains p.1)).splitOn (andToken, 0)).map
      fun condition => condition.map Prod.fst

/-- Balanced tokens that are all known, of which those outside all parentheses are outer ones. -/
inductive Nested (known : Token → Prop) : (Token → Prop) → List Token → Prop
  | nil {outer : Token → Prop} : Nested known outer []
  | token {outer : Token → Prop} {t : Token} (hknown : known t) (houter : outer t)
      (hplain : t.isParenthesis = false) : Nested known outer [t]
  | group {outer : Token → Prop} {ts : List Token} (h : Nested known (fun _ => True) ts) :
      Nested known outer (.symbol '(' :: ts ++ [.symbol ')'])
  | append {outer : Token → Prop} {ts us : List Token} (h : Nested known outer ts)
      (h' : Nested known outer us) : Nested known outer (ts ++ us)

theorem levels_open (depth : Nat) (rest : List Token) :
    levels depth (.symbol '(' :: rest) = (.symbol '(', depth) :: levels (depth + 1) rest := rfl

theorem levels_close (depth : Nat) (rest : List Token) :
    levels (depth + 1) (.symbol ')' :: rest) = (.symbol ')', depth) :: levels depth rest := rfl

theorem levels_cons_plain {t : Token} (h : t.isParenthesis = false) (depth : Nat) (rest : List Token) :
    levels depth (t :: rest) = (t, depth) :: levels depth rest := by
  simp only [Token.isParenthesis, Bool.or_eq_false_iff, decide_eq_false_iff_not] at h
  rw [levels, if_neg h.1, if_neg h.2]

theorem map_fst_levels (depth : Nat) (ts : List Token) : (levels depth ts).map Prod.fst = ts := by
  induction ts generalizing depth with
  | nil => rfl
  | cons t ts ih =>
    unfold levels
    split
    · rw [List.map_cons, ih]
    · split
      · rw [List.map_cons, ih]
      · rw [List.map_cons, ih]

namespace Nested

variable {known outer outer' : Token → Prop} {ts us : List Token}

theorem mono (h : Nested known outer ts) (hle : ∀ t, outer t → outer' t) : Nested known outer' ts := by
  induction h with
  | nil => exact .nil
  | token hknown houter hplain => exact .token hknown (hle _ houter) hplain
  | group h => exact .group h
  | append _ _ ih ih' => exact .append (ih hle) (ih' hle)

theorem of_forall (h : ∀ t ∈ ts, known t ∧ outer t ∧ t.isParenthesis = false) :
    Nested known outer ts := by
  induction ts with
  | nil => exact .nil
  | cons t ts ih =>
    obtain ⟨⟨hknown, houter, hplain⟩, hrest⟩ := List.forall_mem_cons.mp h
    exact .append (.token hknown houter hplain) (ih hrest)

theorem intercalate {separator : List Token} {items : List (List Token)}
    (hseparator : Nested known outer separator) (h : ∀ item ∈ items, Nested known outer item) :
    Nested known outer (List.intercalate separator items) := by
  induction items with
  | nil => exact .nil
  | cons item items ih =>
    obtain ⟨hitem, hitems⟩ := List.forall_mem_cons.mp h
    cases items with
    | nil =>
      rw [List.intercalate_singleton]
      exact hitem
    | cons next items =>
      rw [List.intercalate_cons_cons]
      exact .append (.append hitem hseparator) (ih hitems)

theorem known_of_mem (h : Nested known outer ts) {t : Token} (ht : t ∈ ts) :
    known t ∨ t.isParenthesis = true := by
  induction h with
  | nil => cases ht
  | token hknown => exact .inl (List.mem_singleton.mp ht ▸ hknown)
  | group _ ih =>
    rcases List.mem_append.mp ht with ht | ht
    · rcases List.mem_cons.mp ht with rfl | ht
      · exact .inr rfl
      · exact ih ht
    · exact .inr (List.mem_singleton.mp ht ▸ rfl)
  | append _ _ ih ih' => exact (List.mem_append.mp ht).elim ih ih'

/-! ## Balance -/

/-- Balanced tokens in front of others do not change how many parentheses are open. -/
theorem isBalanced_append (h : Nested known outer ts) (depth : Nat) (rest : List Token) :
    isBalanced depth (ts ++ rest) = isBalanced depth rest := by
  induction h generalizing depth rest with
  | nil => rfl
  | token _ _ hplain =>
    simp only [Token.isParenthesis, Bool.or_eq_false_iff, decide_eq_false_iff_not] at hplain
    rw [List.singleton_append, isBalanced, if_neg hplain.1, if_neg hplain.2]
  | @group _ ts _ ih =>
    have hclose : isBalanced (depth + 1) (.symbol ')' :: rest) = isBalanced depth rest := rfl
    rw [List.append_assoc, List.cons_append, isBalanced, if_pos rfl, ih, List.singleton_append, hclose]
  | append _ _ ih ih' => rw [List.append_assoc, ih, ih']

theorem isBalanced (h : Nested known outer ts) : Sql.isBalanced 0 ts = true := by
  have hall := h.isBalanced_append 0 []
  rw [List.append_nil] at hall
  exact hall

/-! ## Levels -/

theorem levels_append (h : Nested known outer ts) (depth : Nat) (rest : List Token) :
    levels depth (ts ++ rest) = levels depth ts ++ levels depth rest := by
  induction h generalizing depth rest with
  | nil => rfl
  | token _ _ hplain => rw [List.singleton_append, levels_cons_plain hplain, levels_cons_plain hplain]; rfl
  | group _ ih =>
    rw [List.append_assoc, List.singleton_append, List.cons_append, List.cons_append, levels_open,
      levels_open, ih, ih, levels_close, levels_close, List.cons_append, List.append_assoc]
    rfl
  | append _ _ ih ih' => rw [List.append_assoc, ih, ih, ih', List.append_assoc]

/-- The tokens of a group in parentheses stand deeper than the parentheses. -/
theorem levels_group (h : Nested known outer ts) (depth : Nat) :
    levels depth (.symbol '(' :: ts ++ [.symbol ')']) =
      (.symbol '(', depth) :: levels (depth + 1) ts ++ [(.symbol ')', depth)] := by
  rw [List.cons_append, levels_open, h.levels_append, levels_close]
  rfl

theorem le_of_mem_levels (h : Nested known outer ts) {depth : Nat} {p : Token × Nat}
    (hp : p ∈ levels depth ts) : depth ≤ p.2 := by
  induction h generalizing depth with
  | nil => cases hp
  | token _ _ hplain =>
    rw [levels_cons_plain hplain] at hp
    cases List.mem_singleton.mp hp
    exact Nat.le_refl depth
  | group h ih =>
    rw [h.levels_group] at hp
    rcases List.mem_append.mp hp with hp | hp
    · rcases List.mem_cons.mp hp with rfl | hp
      · exact Nat.le_refl depth
      · exact Nat.le_of_succ_le (ih hp)
    · cases List.mem_singleton.mp hp
      exact Nat.le_refl depth
  | append h _ ih ih' =>
    rw [h.levels_append] at hp
    exact (List.mem_append.mp hp).elim ih ih'

/-- A token that no further parentheses enclose is an outer one or a parenthesis. -/
theorem outer_of_mem (h : Nested known outer ts) {depth : Nat} {t : Token}
    (ht : (t, depth) ∈ levels depth ts) : outer t ∨ t.isParenthesis = true := by
  induction h generalizing depth with
  | nil => cases ht
  | token _ houter hplain =>
    rw [levels_cons_plain hplain] at ht
    cases List.mem_singleton.mp ht
    exact .inl houter
  | group h _ =>
    rw [h.levels_group] at ht
    rcases List.mem_append.mp ht with ht | ht
    · rcases List.mem_cons.mp ht with ht | ht
      · cases ht
        exact .inr rfl
      · exact absurd (h.le_of_mem_levels ht) (Nat.not_succ_le_self depth)
    · cases List.mem_singleton.mp ht
      exact .inr rfl
  | append h _ ih ih' =>
    rw [h.levels_append] at ht
    exact (List.mem_append.mp ht).elim ih ih'

theorem not_mem_levels (h : Nested known outer ts) {depth : Nat} {t : Token} (houter : ¬ outer t)
    (hplain : t.isParenthesis = false) : (t, depth) ∉ levels depth ts := by
  intro ht
  rcases h.outer_of_mem ht with ht | ht
  · exact houter ht
  · rw [hplain] at ht
    cases ht

theorem levels_intercalate {separator : List Token} {items : List (List Token)}
    (hseparator : Nested known outer separator) (h : ∀ item ∈ items, Nested known outer' item)
    (depth : Nat) : levels depth (List.intercalate separator items) =
      List.intercalate (levels depth separator) (items.map (levels depth)) := by
  induction items with
  | nil => rfl
  | cons item items ih =>
    obtain ⟨hitem, hitems⟩ := List.forall_mem_cons.mp h
    cases items with
    | nil => rw [List.map_singleton, List.intercalate_singleton, List.intercalate_singleton]
    | cons next items =>
      rw [List.intercalate_cons_cons, List.append_assoc, hitem.levels_append, hseparator.levels_append,
        ih hitems, List.map_cons, List.map_cons, List.map_cons, List.intercalate_cons_cons,
        List.append_assoc]

end Nested

/-! ## Conditions -/

/-- The keywords that start a clause or stand between conditions. -/
def separators : List Token := ["WHERE", "AND", "OR", "ORDER", "LIMIT", "OFFSET"].map keyword

theorem laterClauses_subset_separators : laterClauses ⊆ separators := by
  have hall : ∀ t ∈ laterClauses, t ∈ separators := by decide
  exact fun t => hall t

/-- A separating keyword is a word that is no number. -/
theorem exists_word_of_mem_separators {t : Token} (h : t ∈ separators) :
    ∃ cs, t = .word cs ∧ isNumeric cs = false := by
  obtain ⟨word, hword, rfl⟩ := List.mem_map.mp h
  have hall : ∀ word ∈ ["WHERE", "AND", "OR", "ORDER", "LIMIT", "OFFSET"],
      isNumeric word.toList = false := by decide
  exact ⟨word.toList, rfl, hall word hword⟩

section Conditions

variable {known : Token → Prop} {head tail : List Token} {conditions : List (List Token)}

theorem levels_ne {outer : Token → Prop} {t : Token} (hplain : t.isParenthesis = false)
    (houter : ¬ outer t) {ts : List Token} (h : Nested known outer ts) :
    ∀ p ∈ levels 0 ts, (p != (t, 0)) = true := by
  intro p hp
  refine bne_iff_ne.mpr ?_
  rintro rfl
  exact h.not_mem_levels houter hplain hp

theorem plain_of_mem_laterClauses {t : Token} (h : t ∈ laterClauses) : t.isParenthesis = false := by
  have hall : ∀ t ∈ laterClauses, t.isParenthesis = false := by decide
  exact hall t h

/-- Nothing stands in front of a clause that starts the tokens. -/
theorem takeWhile_levels_eq_nil {clauses ts : List Token}
    (hplain : ∀ t ∈ clauses, t.isParenthesis = false) (h : ∀ t ∈ ts.head?, t ∈ clauses) :
    ((levels 0 ts).takeWhile fun p => !(p.2 == 0 && clauses.contains p.1)) = [] := by
  cases ts with
  | nil => rfl
  | cons t ts =>
    have ht : t ∈ clauses := h t rfl
    rw [levels_cons_plain (hplain t ht), List.takeWhile_cons_of_neg]
    simpa using ht

/-- Conditions with `AND` between them. -/
theorem nested_conjunction (hand : known andToken)
    (h : ∀ c ∈ conditions, Nested known (· ∉ separators) c) :
    Nested known (· ∉ laterClauses) (List.intercalate [andToken] conditions) := by
  refine .intercalate (.token hand (by decide) rfl) fun c hc => (h c hc).mono fun t ht hlater => ?_
  exact ht (laterClauses_subset_separators hlater)

theorem levels_not_later {ts : List Token} (h : Nested known (· ∉ laterClauses) ts) :
    ∀ p ∈ levels 0 ts, (!(p.2 == 0 && laterClauses.contains p.1)) = true := by
  rintro ⟨t, depth⟩ hp
  rw [Bool.not_eq_true', Bool.and_eq_false_imp]
  intro hdepth
  obtain rfl : depth = 0 := beq_iff_eq.mp hdepth
  rw [← Bool.not_eq_true, List.contains_iff_mem]
  intro hmem
  exact h.not_mem_levels (not_not_intro hmem) (plain_of_mem_laterClauses hmem) hp

/-- The conditions of a statement are found again. -/
theorem conditionsOf_statement (hand : known andToken) (hhead : Nested known (· ∉ separators) head)
    (hconditions : ∀ c ∈ conditions, Nested known (· ∉ separators) c)
    (htail : Nested known (· ≠ keyword "WHERE") tail)
    (hlater : ∀ t ∈ tail.head?, t ∈ laterClauses) :
    conditionsOf (head ++ Select.whereTokens conditions ++ tail) = conditions := by
  have hheadLevels := levels_ne rfl (not_not_intro List.mem_cons_self) hhead
  unfold conditionsOf
  cases conditions with
  | nil =>
    have htailLevels := levels_ne rfl (not_not_intro rfl) htail
    rw [Select.whereTokens, List.append_nil, hhead.levels_append,
      List.dropWhile_append_of_pos hheadLevels, List.dropWhile_eq_nil_iff.mpr htailLevels]
  | cons c conditions =>
    have hconjunction := nested_conjunction hand hconditions
    have hstop := takeWhile_levels_eq_nil (fun _ => plain_of_mem_laterClauses) hlater
    have hlevels : levels 0 (head ++ Select.whereTokens (c :: conditions) ++ tail) =
        levels 0 head ++ (keyword "WHERE", 0) ::
          (levels 0 (List.intercalate [andToken] (c :: conditions)) ++ levels 0 tail) := by
      have hwhere : Select.whereTokens (c :: conditions) =
          keyword "WHERE" :: List.intercalate [andToken] (c :: conditions) := rfl
      rw [List.append_assoc, hhead.levels_append, hwhere, List.cons_append, levels_cons_plain rfl,
        hconjunction.levels_append]
    have hsplit : (levels 0 (List.intercalate [andToken] (c :: conditions))).splitOn (andToken, 0) =
        (c :: conditions).map (levels 0) := by
      have hseparator : Nested known (fun _ => True) [andToken] := .token hand trivial rfl
      rw [hseparator.levels_intercalate hconditions]
      refine List.splitOn_intercalate _ ?_ nofun
      intro ls hls
      obtain ⟨c, hc, rfl⟩ := List.mem_map.mp hls
      exact (hconditions c hc).not_mem_levels (by decide) rfl
    rw [hlevels, List.dropWhile_append_of_pos hheadLevels, List.dropWhile_cons_of_neg (by decide)]
    show List.map _ _ = _
    rw [List.takeWhile_append_of_pos (levels_not_later hconjunction), hstop, List.append_nil, hsplit,
      List.map_map]
    exact List.map_id'' (map_fst_levels 0) (c :: conditions)

end Conditions

end RowQuery.Sql
