import RowQuery.Sql.Quoted

/-!
# Tokens of SQL

A text of SQL is a sequence of words, of names in double quotes, of strings in single quotes and of
symbols. Blanks separate words and mean nothing else. In a name or a string the quotation mark is
written twice; a mark that stands alone ends it.

The text of a token may be followed by anything if the token closes itself, as a symbol does, and by
what cannot prolong it otherwise.

Results:
* `reads_enclose`: what stands between marks is one token, whatever it contains.
* `reads_word`: so are characters of words.
* `ReadsClosed.append`, `Reads.append_closed`, `reads_intercalate`: pieces of a text are read one by one.
* `reads_of_tokens?`, `readsClosed_of_run`: a fixed text is read by running the steps on it.
-/

namespace RowQuery.Sql

/-- A token of a text of SQL. -/
inductive Token where
  /-- A keyword, a number or a name without quotes. -/
  | word (cs : List Char)
  /-- A name in double quotes. -/
  | name (cs : List Char)
  /-- A string in single quotes. -/
  | text (cs : List Char)
  | symbol (c : Char)
deriving DecidableEq

/-- The token between two marks. -/
def Token.quoted (mark : Char) (inside : List Char) : Token :=
  if mark = '"' then .name inside else .text inside

namespace Lexer

def isWordChar (c : Char) : Bool := c.isAlphanum || c = '_' || c = '-' || c = '.'

def isMark (c : Char) : Bool := c = '"' || c = '\''

/-- What has been read of the token at hand. -/
inductive State where
  | between
  | word (cs : List Char)
  /-- Inside a token that starts with a mark. -/
  | inside (mark : Char) (cs : List Char)
  /-- Behind a mark that ends the token, unless another one follows it. -/
  | behind (mark : Char) (cs : List Char)

namespace State

/-- The tokens that a character makes complete where no token is at hand, and what follows. -/
def opening (c : Char) : List Token × State :=
  if c = ' ' then ([], .between)
  else if isMark c then ([], .inside c [])
  else if isWordChar c then ([], .word [c])
  else ([.symbol c], .between)

/-- The token at hand is complete, and a character follows it. -/
def closing (t : Token) (c : Char) : List Token × State := (t :: (opening c).1, (opening c).2)

/-- The tokens that a character makes complete, and what follows. -/
def step : State → Char → List Token × State
  | .between, c => opening c
  | .word cs, c => if isWordChar c then ([], .word (cs ++ [c])) else closing (.word cs) c
  | .inside mark cs, c => ([], if c = mark then .behind mark cs else .inside mark (cs ++ [c]))
  | .behind mark cs, c =>
    if c = mark then ([], .inside mark (cs ++ [c])) else closing (.quoted mark cs) c

/-- The tokens that the end of the text makes complete; a token between marks needs its second mark. -/
def finish : State → Option (List Token)
  | .between => some []
  | .word cs => some [.word cs]
  | .inside .. => none
  | .behind mark cs => some [.quoted mark cs]

end State

/-- The tokens of a text. -/
def scan : State → List Char → Option (List Token)
  | s, [] => s.finish
  | s, c :: rest => (scan (s.step c).2 rest).map ((s.step c).1 ++ ·)

end Lexer

def tokens? (cs : List Char) : Option (List Token) := Lexer.scan .between cs

namespace Lexer

/-! ## Pieces of a text -/

/-- A text does not prolong a token in front of it. -/
def Bounds (rest : List Char) : Prop :=
  ∀ c ∈ rest.head?, isWordChar c = false ∧ isMark c = false

/-- A text is read as some tokens, if what follows does not prolong the last one. -/
def Reads (cs : List Char) (ts : List Token) : Prop :=
  ∀ rest, Bounds rest → scan .between (cs ++ rest) = (scan .between rest).map (ts ++ ·)

/-- A text is read as some tokens, whatever follows. -/
def ReadsClosed (cs : List Char) (ts : List Token) : Prop :=
  ∀ rest, scan .between (cs ++ rest) = (scan .between rest).map (ts ++ ·)

theorem tokens?_eq_of_reads {cs : List Char} {ts : List Token} (h : Reads cs ts) :
    tokens? cs = some ts := by
  have hall := h [] (fun c hc => nomatch hc)
  rw [List.append_nil] at hall
  rw [tokens?, hall]
  simp [scan, State.finish]

theorem bounds_append {cs rest : List Char} (h : Bounds cs) (hne : cs ≠ []) : Bounds (cs ++ rest) := by
  obtain ⟨c, cs, rfl⟩ := List.exists_cons_of_ne_nil hne
  exact h

theorem map_append_append (ts us : List Token) (o : Option (List Token)) :
    (o.map (us ++ ·)).map (ts ++ ·) = o.map ((ts ++ us) ++ ·) := by
  cases o with
  | none => rfl
  | some vs => exact congrArg some (List.append_assoc ts us vs).symm

section Pieces

variable {cs ds : List Char} {ts us : List Token}

theorem ReadsClosed.reads (h : ReadsClosed cs ts) : Reads cs ts := fun rest _ => h rest

theorem ReadsClosed.append (h : ReadsClosed cs ts) (h' : Reads ds us) :
    Reads (cs ++ ds) (ts ++ us) := by
  intro rest hrest
  rw [List.append_assoc, h, h' rest hrest, map_append_append]

theorem ReadsClosed.append_closed (h : ReadsClosed cs ts) (h' : ReadsClosed ds us) :
    ReadsClosed (cs ++ ds) (ts ++ us) := by
  intro rest
  rw [List.append_assoc, h, h', map_append_append]

theorem Reads.append_closed (h : Reads cs ts) (h' : ReadsClosed ds us) (hb : Bounds ds)
    (hne : ds ≠ []) : ReadsClosed (cs ++ ds) (ts ++ us) := by
  intro rest
  rw [List.append_assoc, h _ (bounds_append hb hne), h', map_append_append]

theorem Reads.append (h : Reads cs ts) (h' : Reads ds us) (hb : Bounds ds) (hne : ds ≠ []) :
    Reads (cs ++ ds) (ts ++ us) := by
  intro rest hrest
  rw [List.append_assoc, h _ (bounds_append hb hne), h' rest hrest, map_append_append]

/-- Pieces between separators are read one by one. -/
theorem reads_intercalate {α : Type} {text : α → List Char} {tokens : α → List Token}
    {separator : List Char} {between : List Token} (hsep : ReadsClosed separator between)
    (hb : Bounds separator) (hne : separator ≠ []) {items : List α}
    (h : ∀ i ∈ items, Reads (text i) (tokens i)) :
    Reads (List.intercalate separator (items.map text)) (List.intercalate between (items.map tokens)) := by
  induction items with
  | nil => exact fun rest _ => by simp
  | cons i items ih =>
    obtain ⟨hi, hitems⟩ := List.forall_mem_cons.mp h
    cases items with
    | nil => simpa using hi
    | cons j items =>
      have hrest := (hi.append_closed hsep hb hne).append (ih hitems)
      simpa [List.intercalate_cons_cons, List.append_assoc] using hrest

end Pieces

/-! ## Tokens -/

/-- A character that makes no token complete. -/
theorem scan_silent {s s' : State} {c : Char} (h : s.step c = ([], s')) (rest : List Char) :
    scan s (c :: rest) = scan s' rest := by
  show (scan (s.step c).2 rest).map ((s.step c).1 ++ ·) = _
  rw [h]
  exact Option.map_id_apply

theorem readsClosed_blank : ReadsClosed [' '] [] := by
  intro rest
  exact (scan_silent (s := .between) rfl rest).trans Option.map_id_apply.symm

/-- What follows a complete token is read on its own. -/
theorem scan_of_bounds {s : State} {t : Token} (hfinish : s.finish = some [t])
    (hstep : ∀ c, isWordChar c = false → isMark c = false → s.step c = State.closing t c)
    {rest : List Char} (h : Bounds rest) :
    scan s rest = (scan .between rest).map ([t] ++ ·) := by
  cases rest with
  | nil => exact hfinish
  | cons c rest =>
    obtain ⟨hword, hmark⟩ := h c rfl
    show (scan (s.step c).2 rest).map ((s.step c).1 ++ ·) =
      ((scan (State.opening c).2 rest).map ((State.opening c).1 ++ ·)).map ([t] ++ ·)
    rw [hstep c hword hmark, map_append_append]
    rfl

theorem scan_word {cs : List Char} (h : ∀ c ∈ cs, isWordChar c = true) (start rest : List Char) :
    scan (.word start) (cs ++ rest) = scan (.word (start ++ cs)) rest := by
  induction cs generalizing start with
  | nil => rw [List.append_nil, List.nil_append]
  | cons c cs ih =>
    obtain ⟨hc, hcs⟩ := List.forall_mem_cons.mp h
    have hstep : (State.word start).step c = ([], .word (start ++ [c])) := if_pos hc
    rw [List.cons_append, scan_silent hstep, ih hcs, List.append_assoc, List.singleton_append]

theorem isMark_of_isWordChar {c : Char} (h : isWordChar c = true) : isMark c = false := by
  cases hmark : isMark c with
  | false => rfl
  | true =>
    unfold isMark at hmark
    simp only [Bool.or_eq_true, decide_eq_true_eq] at hmark
    rcases hmark with rfl | rfl <;> exact absurd h (by decide)

theorem ne_blank_of_isWordChar {c : Char} (h : isWordChar c = true) : c ≠ ' ' := by
  rintro rfl
  exact absurd h (by decide)

/-- Characters of words, at least one, are a word. -/
theorem reads_word {cs : List Char} (h : ∀ c ∈ cs, isWordChar c = true) (hne : cs ≠ []) :
    Reads cs [.word cs] := by
  obtain ⟨c, cs, rfl⟩ := List.exists_cons_of_ne_nil hne
  obtain ⟨hc, hcs⟩ := List.forall_mem_cons.mp h
  have hopening : State.between.step c = ([], .word [c]) := by
    show State.opening c = _
    unfold State.opening
    rw [if_neg (ne_blank_of_isWordChar hc), isMark_of_isWordChar hc, hc]
    rfl
  intro rest hrest
  rw [List.cons_append, scan_silent hopening, scan_word hcs]
  refine scan_of_bounds rfl ?_ hrest
  intro d hd _
  exact if_neg (Bool.eq_false_iff.mp hd)

theorem scan_encode (mark : Char) (start inside rest : List Char) :
    scan (.inside mark start) (Quoted.encode mark inside ++ mark :: rest) =
      scan (.behind mark (start ++ inside)) rest := by
  have hstep (start : List Char) (c : Char) : (State.inside mark start).step c =
      ([], if c = mark then .behind mark start else .inside mark (start ++ [c])) := rfl
  induction inside generalizing start with
  | nil =>
    have hmark := hstep start mark
    rw [if_pos rfl] at hmark
    rw [Quoted.encode, List.nil_append, scan_silent hmark, List.append_nil]
  | cons c inside ih =>
    have hc := hstep start c
    rw [Quoted.encode, List.append_cons start]
    by_cases h : c = mark
    · -- The mark is written twice: the first one may end the token, the second one takes that back.
      subst h
      have hagain : (State.behind c start).step c = ([], .inside c (start ++ [c])) := if_pos rfl
      rw [if_pos rfl] at hc ⊢
      rw [List.cons_append, List.cons_append, scan_silent hc, scan_silent hagain, ih]
    · rw [if_neg h] at hc ⊢
      rw [List.cons_append, scan_silent hc, ih]

/-- What stands between marks is one token, whatever it contains. -/
theorem reads_enclose {mark : Char} (h : isMark mark = true) (inside : List Char) :
    Reads (Quoted.enclose mark (Quoted.encode mark inside)) [.quoted mark inside] := by
  have hblank : mark ≠ ' ' := by
    rintro rfl
    exact absurd h (by decide)
  have hopening : State.between.step mark = ([], .inside mark []) := by
    show State.opening mark = _
    unfold State.opening
    rw [if_neg hblank, h]
    rfl
  intro rest hrest
  rw [Quoted.enclose, List.cons_append, List.cons_append, List.append_assoc, scan_silent hopening,
    List.singleton_append, scan_encode, List.nil_append]
  refine scan_of_bounds rfl ?_ hrest
  intro d _ hd
  refine if_neg ?_
  rintro rfl
  rw [h] at hd
  cases hd

/-! ## Fixed texts -/

/-- The tokens that a text makes complete, and what has been read of the last one. -/
def run : State → List Char → List Token × State
  | s, [] => ([], s)
  | s, c :: rest => ((s.step c).1 ++ (run (s.step c).2 rest).1, (run (s.step c).2 rest).2)

theorem scan_append (s : State) (cs rest : List Char) :
    scan s (cs ++ rest) = (scan (run s cs).2 rest).map ((run s cs).1 ++ ·) := by
  induction cs generalizing s with
  | nil => exact Option.map_id_apply.symm
  | cons c cs ih =>
    show (scan (s.step c).2 (cs ++ rest)).map ((s.step c).1 ++ ·) = _
    rw [ih, map_append_append]
    rfl

theorem readsClosed_of_run {cs : List Char} {ts : List Token} (h : run .between cs = (ts, .between)) :
    ReadsClosed cs ts := by
  intro rest
  rw [scan_append, h]

theorem readsClosed_parentheses {cs : List Char} {ts : List Token} (h : Reads cs ts) :
    ReadsClosed ('(' :: cs ++ [')']) (.symbol '(' :: ts ++ [.symbol ')']) := by
  have hopen : ReadsClosed ['('] [.symbol '('] := readsClosed_of_run rfl
  have hclose : ReadsClosed [')'] [.symbol ')'] := readsClosed_of_run rfl
  exact hopen.append_closed (h.append_closed hclose (fun c hc => by cases hc; decide) nofun)

/-- Only marks open a token that needs a second mark. -/
def State.Marked : State → Prop
  | .inside mark _ | .behind mark _ => isMark mark = true
  | _ => True

theorem State.marked_opening (c : Char) : (opening c).2.Marked := by
  unfold opening
  split
  · trivial
  · split
    · next hmark => exact hmark
    · split <;> trivial

theorem State.marked_step {s : State} (h : s.Marked) (c : Char) : (s.step c).2.Marked := by
  cases s with
  | between => exact marked_opening c
  | word cs =>
    show (if isWordChar c then ([], State.word (cs ++ [c])) else closing (.word cs) c).2.Marked
    split
    · trivial
    · exact marked_opening c
  | inside mark cs =>
    show (if c = mark then State.behind mark cs else .inside mark (cs ++ [c])).Marked
    split <;> exact h
  | behind mark cs =>
    show (if c = mark then ([], State.inside mark (cs ++ [c]))
      else closing (.quoted mark cs) c).2.Marked
    split
    · exact h
    · exact marked_opening c

theorem State.marked_run {s : State} (h : s.Marked) (cs : List Char) : (run s cs).2.Marked := by
  induction cs generalizing s with
  | nil => exact h
  | cons c cs ih => exact ih (marked_step h c)

/-- What is complete at the end of a text is complete where nothing prolongs it. -/
theorem scan_of_finish {s : State} {ts : List Token} (hmarked : s.Marked) (h : s.finish = some ts)
    {rest : List Char} (hrest : Bounds rest) : scan s rest = (scan .between rest).map (ts ++ ·) := by
  cases s with
  | between =>
    cases h
    exact Option.map_id_apply.symm
  | word cs =>
    cases h
    refine scan_of_bounds rfl ?_ hrest
    intro c hc _
    exact if_neg (Bool.eq_false_iff.mp hc)
  | inside mark cs => cases h
  | behind mark cs =>
    cases h
    refine scan_of_bounds rfl ?_ hrest
    intro c _ hc
    refine if_neg ?_
    rintro rfl
    exact absurd hmarked (Bool.eq_false_iff.mp hc)

/-- A text that has tokens is read as them. -/
theorem reads_of_tokens? {cs : List Char} {ts : List Token} (h : tokens? cs = some ts) :
    Reads cs ts := by
  rw [tokens?, ← List.append_nil cs, scan_append] at h
  obtain ⟨us, hfinish, hts⟩ := Option.map_eq_some_iff.mp h
  have hmarked : (run .between cs).2.Marked := State.marked_run (s := .between) trivial cs
  intro rest hrest
  rw [scan_append, scan_of_finish hmarked hfinish hrest, map_append_append]
  exact congrArg (fun vs => (scan .between rest).map (vs ++ ·)) hts

end Lexer

end RowQuery.Sql
