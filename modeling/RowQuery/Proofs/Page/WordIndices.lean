import Mathlib.Data.UInt
import RowQuery.Proofs.Page.Parts

/-!
# Places and counts of 64 bits

Places and counts are natural numbers in the definition of a page. Here they are words of 64 bits. A sum
of words is capped at the greatest word, and a difference at zero where it may be negative. Elsewhere a
difference has to exist, and so has each row that is looked up at a place.

Whatever the searches for the places of two cursors answer, the last window is a range among the
candidates, so nothing that has to exist is missing. Where they answer with borders, the page made with
words is the page of the query.

Results:
* `toWindow_cut`: counts that are words cut a window of words as they cut the window.
* `ofWordWindow?_eq`: in range nothing is missing, and the page is that of the window.
* `exists_wordIndices`: the last window of a query is in range.
* `wordIndices_safe`: so its page is there, and where the searches find borders it is that of the query.
-/

namespace RowQuery

/-! ## Words -/

namespace Word

/-- The sum of two words, or the greatest word if there is none. -/
def addCapped (a b : UInt64) : UInt64 := .ofNat (min (a.toNat + b.toNat) (UInt64.size - 1))

/-- The difference of two words, or zero if there is none. -/
def subCapped (a b : UInt64) : UInt64 := .ofNat (a.toNat - b.toNat)

/-- The difference of two words, if there is one. -/
def sub? (a b : UInt64) : Option UInt64 := if b ≤ a then some (a - b) else none

/-- The cap of a sum does not show below another word. -/
theorem min_toNat_addCapped (a b bound : UInt64) :
    min (addCapped a b).toNat bound.toNat = min (a.toNat + b.toNat) bound.toNat := by
  have hcapped : (addCapped a b).toNat = min (a.toNat + b.toNat) (UInt64.size - 1) :=
    UInt64.toNat_ofNat_of_lt' (Nat.lt_of_le_of_lt (Nat.min_le_right _ _) (by decide))
  have hbound : bound.toNat ≤ UInt64.size - 1 := Nat.le_sub_one_of_lt bound.toNat_lt_size
  rw [hcapped, Nat.min_assoc, Nat.min_eq_right hbound]

theorem toNat_subCapped (a b : UInt64) : (subCapped a b).toNat = a.toNat - b.toNat :=
  UInt64.toNat_ofNat_of_lt' (Nat.lt_of_le_of_lt (Nat.sub_le _ _) a.toNat_lt_size)

theorem sub?_of_le {a b : UInt64} (h : b ≤ a) : sub? a b = some (a - b) := if_pos h

theorem map_toNat_ofNat {count : Option Nat} (h : ∀ n ∈ count, n < UInt64.size) :
    (count.map UInt64.ofNat).map UInt64.toNat = count := by
  cases count with
  | none => rfl
  | some n => exact congrArg some (UInt64.toNat_ofNat_of_lt' (h n rfl))

end Word

/-! ## Windows of words -/

/-- The places from `start` up to and without `stop`, as words. -/
structure WordWindow where
  start : UInt64
  stop : UInt64
deriving DecidableEq

namespace WordWindow

def toWindow (w : WordWindow) : Window := ⟨w.start.toNat, w.stop.toNat⟩

def drop (w : WordWindow) (n : UInt64) : WordWindow :=
  ⟨min (Word.addCapped w.start n) w.stop, w.stop⟩

/-- The first places of the window, or all of them without a count. -/
def first (w : WordWindow) : Option UInt64 → WordWindow
  | some n => ⟨w.start, min w.stop (Word.addCapped w.start n)⟩
  | none => w

/-- The last places of the window, or all of them without a count. -/
def last (w : WordWindow) : Option UInt64 → WordWindow
  | some n => ⟨max w.start (Word.subCapped w.stop n), w.stop⟩
  | none => w

/-- The window narrowed by the counts of a query. -/
def cut (w : WordWindow) (offset limit first last : Option UInt64) : WordWindow :=
  (((w.drop (offset.getD 0)).first limit).first first).last last

theorem toWindow_drop (w : WordWindow) (n : UInt64) :
    (w.drop n).toWindow = w.toWindow.drop n.toNat := by
  show (⟨(min (Word.addCapped w.start n) w.stop).toNat, _⟩ : Window) = ⟨min _ _, _⟩
  rw [UInt64.toNat_min, Word.min_toNat_addCapped]
  rfl

theorem toWindow_first (w : WordWindow) (count : Option UInt64) :
    (w.first count).toWindow = w.toWindow.first (count.map UInt64.toNat) := by
  cases count with
  | none => rfl
  | some n =>
    show (⟨_, (min w.stop (Word.addCapped w.start n)).toNat⟩ : Window) = ⟨_, min _ _⟩
    rw [UInt64.toNat_min, Nat.min_comm, Word.min_toNat_addCapped, Nat.min_comm]
    rfl

theorem toWindow_last (w : WordWindow) (count : Option UInt64) :
    (w.last count).toWindow = w.toWindow.last (count.map UInt64.toNat) := by
  cases count with
  | none => rfl
  | some n =>
    show (⟨(max w.start (Word.subCapped w.stop n)).toNat, _⟩ : Window) = ⟨max _ _, _⟩
    rw [UInt64.toNat_max, Word.toNat_subCapped]
    rfl

/-- Cutting a window of words is cutting the window, however great the words are. -/
theorem toWindow_cut (w : WordWindow) (offset limit first last : Option UInt64) :
    (w.cut offset limit first last).toWindow =
      w.toWindow.cut (offset.map UInt64.toNat) (limit.map UInt64.toNat) (first.map UInt64.toNat)
        (last.map UInt64.toNat) := by
  have hoffset : (offset.getD 0).toNat = (offset.map UInt64.toNat).getD 0 := by
    cases offset <;> rfl
  unfold cut Window.cut
  rw [toWindow_last, toWindow_first, toWindow_first, toWindow_drop, hoffset]

/-- The greatest count keeps all that is left of a window. -/
example : (⟨2, 5⟩ : WordWindow).cut (some 1) none (some 18446744073709551615) none = ⟨3, 5⟩ := by
  decide

end WordWindow

namespace Page

variable {ρ : Type}

/-! ## Definitions -/

/-- Whether a cursor records what a strategy needs. -/
def Accepted (strategy : CursorStrategy) (keys : List OrderKey) (c : Cursor) : Prop :=
  match strategy with
  | .keyset => ∃ values, anchor keys c = .ok values
  | .positional => ∃ place, position c = .ok place

/-- The place at which a cursor bounds a window of words. Among keys it is searched for by a test of how
they compare; a recorded place is moved and kept among the candidates. -/
def wordPlace (search : (Entry ρ → Bool) → UInt64) (test : Ordering → Bool) (move : UInt64 → UInt64)
    (strategy : CursorStrategy) (keys : List OrderKey) (total : UInt64) (c : Cursor) :
    Except CursorFault UInt64 :=
  match strategy with
  | .keyset => do
    let values ← anchor keys c
    .ok (search fun e => test (OrderKey.compareKeys keys e.key values))
  | .positional => do
    let place ← position c
    .ok (min (move (.ofNat place)) total)

/-- A bound that a cursor sets, or the bound without a cursor. -/
def wordBound (bound : Cursor → Except CursorFault UInt64) (unbounded : UInt64) (c : Option Cursor) :
    Except QueryError UInt64 :=
  c.elim (.ok unbounded) fun c => (bound c).mapError .cursor

/-- The window of words that the cursors of a query leave. -/
def wordWindow (search : (Entry ρ → Bool) → UInt64) (strategy : CursorStrategy) (keys : List OrderKey)
    (total : UInt64) (after before : Option Cursor) : Except QueryError WordWindow := do
  let start ← wordBound (wordPlace search Ordering.isLE (Word.addCapped · 1) strategy keys total) 0 after
  let stop ← wordBound (wordPlace search Ordering.isLT id strategy keys total) total before
  .ok ⟨start, max stop start⟩

/-- The cursors of the first and the last row in a window of words, unless a place is out of range. -/
def wordCursors? (options : PageOptions) (keys : List OrderKey) (entries : List (Entry ρ))
    (w : WordWindow) : Option (Option Cursor × Option Cursor) :=
  if w.start < w.stop then do
    let head ← entries[w.start.toNat]?
    let place ← Word.sub? w.stop 1
    let tail ← entries[place.toNat]?
    some (some (cursorAt options.strategy keys w.start.toNat head),
      some (cursorAt options.strategy keys place.toNat tail))
  else some (none, none)

/-- The page of the rows in a window of words, unless a place is out of range. -/
def ofWordWindow? (options : PageOptions) (keys : List OrderKey) (entries : List (Entry ρ))
    (w : WordWindow) : Option (Page ρ) := do
  let total : UInt64 := .ofNat entries.length
  let cursors ← wordCursors? options keys entries w
  let size ← Word.sub? w.stop w.start
  some
    { items := ((entries.drop w.start.toNat).take size.toNat).map Entry.row
      info :=
        { hasNext := w.stop < total
          hasPrevious := 0 < w.start
          startCursor := cursors.1
          endCursor := cursors.2
          totalCount := if options.countTotal then some total.toNat else none } }

/-- The counts of a query are words. -/
structure CountsFit (q : Query) : Prop where
  offset : ∀ n ∈ q.offset, n < UInt64.size
  limit : ∀ n ∈ q.limit, n < UInt64.size
  first : ∀ n ∈ q.first, n < UInt64.size
  last : ∀ n ∈ q.last, n < UInt64.size

theorem toWindow_cut_counts {q : Query} (h : CountsFit q) (w : WordWindow) :
    (w.cut (q.offset.map UInt64.ofNat) (q.limit.map UInt64.ofNat) (q.first.map UInt64.ofNat)
      (q.last.map UInt64.ofNat)).toWindow = w.toWindow.cut q.offset q.limit q.first q.last := by
  rw [WordWindow.toWindow_cut, Word.map_toNat_ofNat h.offset, Word.map_toNat_ofNat h.limit,
    Word.map_toNat_ofNat h.first, Word.map_toNat_ofNat h.last]

/-- The window of words of a query, narrowed by its counts. -/
def wordIndices [Record ρ] (search : (Entry ρ → Bool) → UInt64) (options : PageOptions) (q : Query)
    (rows : List ρ) : Except QueryError WordWindow := do
  let w ← wordWindow search options.strategy (keysOf options q)
    (.ofNat (entriesOf options q rows).length) q.after q.before
  .ok (w.cut (q.offset.map UInt64.ofNat) (q.limit.map UInt64.ofNat) (q.first.map UInt64.ofNat)
    (q.last.map UInt64.ofNat))

/-! ## The places of cursors -/

section Places

variable {search : (Entry ρ → Bool) → UInt64} {strategy : CursorStrategy} {keys : List OrderKey}
  {total : UInt64}

/-- An accepted cursor bounds a window at a place among the candidates, whatever is searched for and
found. -/
theorem exists_wordPlace {c : Cursor} (h : Accepted strategy keys c)
    (hsearch : ∀ test, search test ≤ total) (test : Ordering → Bool) (move : UInt64 → UInt64) :
    ∃ place, wordPlace search test move strategy keys total c = .ok place ∧ place ≤ total := by
  cases strategy with
  | keyset =>
    obtain ⟨values, hvalues⟩ := h
    refine ⟨_, ?_, hsearch fun e => test (OrderKey.compareKeys keys e.key values)⟩
    show (anchor keys c >>= _) = _
    rw [hvalues]
    rfl
  | positional =>
    obtain ⟨place, hplace⟩ := h
    refine ⟨min (move (.ofNat place)) total, ?_, ?_⟩
    · show (position c >>= _) = _
      rw [hplace]
      rfl
    · rw [UInt64.le_iff_toNat_le, UInt64.toNat_min]
      exact Nat.min_le_right _ _

theorem exists_wordBound {cursor : Option Cursor} (h : ∀ c ∈ cursor, Accepted strategy keys c)
    (hsearch : ∀ test, search test ≤ total) (test : Ordering → Bool) (move : UInt64 → UInt64)
    {unbounded : UInt64} (hunbounded : unbounded ≤ total) :
    ∃ place,
      wordBound (wordPlace search test move strategy keys total) unbounded cursor = .ok place ∧
        place ≤ total := by
  cases cursor with
  | none => exact ⟨unbounded, rfl, hunbounded⟩
  | some c =>
    obtain ⟨place, hplace, hle⟩ := exists_wordPlace (h c rfl) hsearch test move
    exact ⟨place, Outcome.mapError_eq_ok.mpr hplace, hle⟩

/-- Accepted cursors leave a window of words that is a range among the candidates. -/
theorem exists_wordWindow {after before : Option Cursor} (hafter : ∀ c ∈ after, Accepted strategy keys c)
    (hbefore : ∀ c ∈ before, Accepted strategy keys c) (hsearch : ∀ test, search test ≤ total) :
    ∃ w, wordWindow search strategy keys total after before = .ok w ∧ w.stop ≤ total := by
  have hzero : 0 ≤ total := UInt64.le_iff_toNat_le.mpr (Nat.zero_le _)
  obtain ⟨start, hstart, hstartLe⟩ :=
    exists_wordBound hafter hsearch Ordering.isLE (Word.addCapped · 1) hzero
  obtain ⟨stop, hstop, hstopLe⟩ := exists_wordBound hbefore hsearch Ordering.isLT id
    (UInt64.le_refl total)
  refine ⟨⟨start, max stop start⟩, ?_, ?_⟩
  · unfold wordWindow
    rw [hstart, hstop]
    rfl
  · rw [UInt64.le_iff_toNat_le, UInt64.toNat_max]
    exact Nat.max_le.mpr ⟨hstopLe, hstartLe⟩

/-! ## Searches that find borders -/

variable {entries : List (Entry ρ)}

/-- A recorded place is a word. -/
theorem position_lt_size {c : Cursor} {place : Nat} (h : position c = .ok place) :
    place < UInt64.size := by
  unfold position at h
  split at h
  · next i _ =>
    split at h
    · cases h
      have hlt := i.toInt_lt
      have hsize : (UInt64.size : Int) = 2 ^ 64 := rfl
      omega
    · cases h
  · cases h

/-- Where the search finds borders, the place of words is the place, if words are moved on as far as it
shows among the candidates. -/
theorem placeBy_of_wordPlace {test : Ordering → Bool} {move : UInt64 → UInt64} (shift : Nat)
    (hmove : ∀ place, min (move place).toNat total.toNat = min (place.toNat + shift) total.toNat)
    (htotal : total.toNat = entries.length)
    (hsearch : ∀ test, (search test).toNat = Bisection.border test entries) {c : Cursor}
    {place : UInt64} (h : wordPlace search test move strategy keys total c = .ok place) :
    placeBy test shift strategy keys entries c = .ok place.toNat := by
  cases strategy with
  | keyset =>
    obtain ⟨values, hvalues, hplace⟩ := Outcome.bind_eq_ok.mp h
    cases hplace
    rw [hsearch]
    exact Outcome.bind_eq_ok.mpr ⟨values, hvalues, rfl⟩
  | positional =>
    obtain ⟨recorded, hrecorded, hplace⟩ := Outcome.bind_eq_ok.mp h
    cases hplace
    refine Outcome.bind_eq_ok.mpr ⟨recorded, hrecorded, ?_⟩
    rw [UInt64.toNat_min, hmove, htotal, UInt64.toNat_ofNat_of_lt' (position_lt_size hrecorded)]

theorem boundOr_of_wordBound {wordBounds : Cursor → Except CursorFault UInt64}
    {bounds : Cursor → Except CursorFault Nat} {unbounded place : UInt64} {c : Option Cursor}
    (hbounds : ∀ {c place}, wordBounds c = .ok place → bounds c = .ok place.toNat)
    (h : wordBound wordBounds unbounded c = .ok place) :
    boundOr bounds unbounded.toNat c = .ok place.toNat := by
  cases c with
  | none =>
    cases h
    rfl
  | some c => exact Outcome.mapError_eq_ok.mpr (hbounds (Outcome.mapError_eq_ok.mp h))

/-- Where the searches find borders, the window of words is the window of the cursors. -/
theorem cursorWindow_of_wordWindow (htotal : total.toNat = entries.length)
    (hsearch : ∀ test, (search test).toNat = Bisection.border test entries)
    {after before : Option Cursor} {w : WordWindow}
    (h : wordWindow search strategy keys total after before = .ok w) :
    cursorWindow strategy keys entries after before = .ok w.toWindow := by
  obtain ⟨start, hstart, h⟩ := Outcome.bind_eq_ok.mp h
  obtain ⟨stop, hstop, h⟩ := Outcome.bind_eq_ok.mp h
  cases h
  have hstart := boundOr_of_wordBound
    (placeBy_of_wordPlace 1 (fun place => Word.min_toNat_addCapped place 1 total) htotal hsearch)
    hstart
  have hstop := boundOr_of_wordBound (placeBy_of_wordPlace 0 (fun _ => rfl) htotal hsearch) hstop
  rw [htotal] at hstop
  refine Outcome.bind_eq_ok.mpr ⟨_, hstart, Outcome.bind_eq_ok.mpr ⟨_, hstop, ?_⟩⟩
  rw [← UInt64.toNat_max]
  rfl

end Places

/-! ## Pages -/

section Ranges

variable {entries : List (Entry ρ)} {w : WordWindow}

/-- In a window among the candidates the first and the last row are there to be looked up. -/
theorem wordCursors?_eq (options : PageOptions) (keys : List OrderKey)
    (hstop : w.stop.toNat ≤ entries.length) :
    wordCursors? options keys entries w =
      some ((ofWindow options keys entries w.toWindow).info.startCursor,
        (ofWindow options keys entries w.toWindow).info.endCursor) := by
  show _ = some (Option.map _ (w.toWindow.slice entries).head?,
    Option.map _ (w.toWindow.slice entries).getLast?)
  by_cases hlt : w.start < w.stop
  · have hplaces : w.toWindow.start < w.toWindow.stop := UInt64.lt_iff_toNat_lt.mp hlt
    -- The window has a place, so there is one in front of its end.
    have hone : 1 ≤ w.stop := UInt64.le_iff_toNat_le.mpr (Nat.zero_lt_of_lt hplaces)
    have hplace : (w.stop - 1).toNat = w.stop.toNat - 1 := UInt64.toNat_sub_of_le _ _ hone
    obtain ⟨head, hhead⟩ : ∃ e, entries[w.start.toNat]? = some e :=
      ⟨_, List.getElem?_eq_getElem (Nat.lt_of_lt_of_le hplaces hstop)⟩
    obtain ⟨tail, htail⟩ : ∃ e, entries[w.stop.toNat - 1]? = some e :=
      ⟨_, List.getElem?_eq_getElem
        (Nat.lt_of_lt_of_le (Nat.sub_one_lt_of_lt (Nat.zero_lt_of_lt hplaces)) hstop)⟩
    rw [Window.head?_slice hplaces, Window.getLast?_slice hplaces hstop]
    unfold wordCursors?
    rw [if_pos hlt, Word.sub?_of_le hone]
    simp only [Option.bind_eq_bind, Option.bind_some, hplace, WordWindow.toWindow, hhead, htail,
      Option.map_some]
  · have hslice : w.toWindow.slice entries = [] :=
      Window.slice_eq_nil (Nat.le_of_not_lt fun h => hlt (UInt64.lt_iff_toNat_lt.mpr h)) entries
    unfold wordCursors?
    rw [if_neg hlt, hslice]
    rfl

/-- In a window among the candidates nothing is missing, and the page is that of the window. -/
theorem ofWordWindow?_eq (options : PageOptions) (keys : List OrderKey)
    (hlength : entries.length < UInt64.size) (hle : w.start ≤ w.stop)
    (hstop : w.stop.toNat ≤ entries.length) :
    ofWordWindow? options keys entries w = some (ofWindow options keys entries w.toWindow) := by
  have htotal : (UInt64.ofNat entries.length).toNat = entries.length :=
    UInt64.toNat_ofNat_of_lt' hlength
  have hsize : (w.stop - w.start).toNat = w.toWindow.size := UInt64.toNat_sub_of_le _ _ hle
  have hnext : decide (w.stop < UInt64.ofNat entries.length) =
      decide (w.toWindow.stop < entries.length) :=
    decide_eq_decide.mpr (UInt64.lt_iff_toNat_lt.trans (by rw [htotal]; rfl))
  have hprevious : decide (0 < w.start) = decide (0 < w.toWindow.start) :=
    decide_eq_decide.mpr UInt64.lt_iff_toNat_lt
  unfold ofWordWindow?
  rw [wordCursors?_eq options keys hstop, Word.sub?_of_le hle]
  simp only [Option.bind_eq_bind, Option.bind_some, hsize, htotal, hnext, hprevious]
  rfl

end Ranges

theorem length_items_ofWindow (options : PageOptions) (keys : List OrderKey)
    {entries : List (Entry ρ)} {w : Window} (hstop : w.stop ≤ entries.length) :
    (ofWindow options keys entries w).items.length = w.size := by
  show ((w.slice entries).map Entry.row).length = w.size
  rw [List.length_map, Window.length_slice hstop]

/-- The page of a window has both cursors if it has a row, and none if it has not. -/
theorem isSome_cursors_iff (options : PageOptions) (keys : List OrderKey)
    (entries : List (Entry ρ)) (w : Window) :
    ((ofWindow options keys entries w).info.startCursor.isSome ↔
        (ofWindow options keys entries w).items ≠ []) ∧
      ((ofWindow options keys entries w).info.endCursor.isSome ↔
        (ofWindow options keys entries w).items ≠ []) := by
  unfold ofWindow
  cases w.slice entries with
  | nil => simp
  | cons e shown => simp [List.getLast?_cons]

variable [Record ρ] {options : PageOptions} {q : Query} {rows : List ρ}

/-- Whatever the searches for the places of accepted cursors answer, and however great the counts of a
query are, its last window is in range. -/
theorem exists_wordIndices {search : (Entry ρ → Bool) → UInt64}
    (hlength : (entriesOf options q rows).length < UInt64.size) (hcounts : CountsFit q)
    (hafter : ∀ c ∈ q.after, Accepted options.strategy (keysOf options q) c)
    (hbefore : ∀ c ∈ q.before, Accepted options.strategy (keysOf options q) c)
    (hsearch : ∀ test, (search test).toNat ≤ (entriesOf options q rows).length) :
    ∃ bounds w,
      wordWindow search options.strategy (keysOf options q)
        (.ofNat (entriesOf options q rows).length) q.after q.before = .ok bounds ∧
      wordIndices search options q rows = .ok w ∧
      w.toWindow = bounds.toWindow.cut q.offset q.limit q.first q.last ∧
      w.start ≤ w.stop ∧ w.stop.toNat ≤ (entriesOf options q rows).length := by
  have htotal : (UInt64.ofNat (entriesOf options q rows).length).toNat =
      (entriesOf options q rows).length := UInt64.toNat_ofNat_of_lt' hlength
  have hfound : ∀ test, search test ≤ UInt64.ofNat (entriesOf options q rows).length := by
    intro test
    rw [UInt64.le_iff_toNat_le, htotal]
    exact hsearch test
  obtain ⟨bounds, hbounds, hboundsLe⟩ := exists_wordWindow hafter hbefore hfound
  have hcut := toWindow_cut_counts hcounts bounds
  refine ⟨bounds, _, hbounds, Outcome.bind_eq_ok.mpr ⟨bounds, hbounds, rfl⟩, hcut, ?_, ?_⟩
  · have hle := Window.start_le_stop_cut bounds.toWindow q.offset q.limit q.first q.last
    rw [← hcut] at hle
    exact UInt64.le_iff_toNat_le.mpr hle
  · have hle := Window.stop_cut_le bounds.toWindow q.offset q.limit q.first q.last
    rw [← hcut] at hle
    rw [← htotal]
    exact Nat.le_trans hle (UInt64.le_iff_toNat_le.mp hboundsLe)

/-- In the last window of a query the size of the page and the rows that its cursors mark are there. The
page has as many rows as the window has places, at most as many as each of the counts, and cursors if and
only if it has rows. Where the searches find borders, it is the page of the query. -/
theorem wordIndices_safe (hlength : (passing q rows).length < UInt64.size) (hcounts : CountsFit q)
    (hafter : ∀ c ∈ q.after, Accepted options.strategy (keysOf options q) c)
    (hbefore : ∀ c ∈ q.before, Accepted options.strategy (keysOf options q) c)
    {search : (Entry ρ → Bool) → UInt64}
    (hsearch : ∀ test, (search test).toNat ≤ (passing q rows).length) :
    ∃ w page, wordIndices search options q rows = .ok w ∧
      w.start ≤ w.stop ∧ w.stop.toNat ≤ (passing q rows).length ∧
      ofWordWindow? options (keysOf options q) (entriesOf options q rows) w = some page ∧
      page.items.length = (w.stop - w.start).toNat ∧
      (∀ count ∈ [q.limit, q.first, q.last], ∀ n ∈ count, page.items.length ≤ n) ∧
      (page.info.startCursor.isSome ↔ page.items ≠ []) ∧
      (page.info.endCursor.isSome ↔ page.items ≠ []) ∧
      ((∀ test, (search test).toNat = Bisection.border test (entriesOf options q rows)) →
        paginate options q rows = .ok page) := by
  rw [← length_entriesOf options] at hlength hsearch ⊢
  obtain ⟨bounds, w, hbounds, hw, hcut, hle, hstop⟩ :=
    exists_wordIndices hlength hcounts hafter hbefore hsearch
  have hitems : (ofWindow options (keysOf options q) (entriesOf options q rows)
      w.toWindow).items.length = w.toWindow.size := length_items_ofWindow options _ hstop
  obtain ⟨hstartCursor, hendCursor⟩ :=
    isSome_cursors_iff options (keysOf options q) (entriesOf options q rows) w.toWindow
  refine ⟨w, _, hw, hle, hstop, ofWordWindow?_eq options _ hlength hle hstop, ?_, ?_, hstartCursor,
    hendCursor, ?_⟩
  · rw [hitems, UInt64.toNat_sub_of_le _ _ hle]
    rfl
  · rw [hitems, hcut]
    exact Window.size_cut_le _ _ _ _ _
  · intro hborder
    rw [hcut]
    exact paginate_eq_ofWindow
      (cursorWindow_of_wordWindow (UInt64.toNat_ofNat_of_lt' hlength) hborder hbounds)

/-- The query for the last of the people behind an age, with the greatest counts that are words. -/
def lastBehind : Query :=
  { oldestFirst with
    after := some ⟨[("age", .int 30)]⟩
    limit := some (UInt64.size - 1)
    first := some (UInt64.size - 1)
    last := some 1 }

theorem wordIndices_safe_people :
    ∃ w page,
      wordIndices (fun test => .ofNat (Bisection.border test (entriesOf .standard lastBehind people)))
        .standard lastBehind people = .ok w ∧
      w.start ≤ w.stop ∧ w.stop.toNat ≤ (passing lastBehind people).length ∧
      ofWordWindow? .standard (keysOf .standard lastBehind)
        (entriesOf .standard lastBehind people) w = some page ∧
      page.items.length ≤ 1 ∧ paginate .standard lastBehind people = .ok page := by
  have hlength : (passing lastBehind people).length < UInt64.size := by decide +kernel
  have hcounts : CountsFit lastBehind := ⟨nofun, by decide, by decide, by decide⟩
  have hafter : ∀ c ∈ lastBehind.after,
      Accepted PageOptions.standard.strategy (keysOf .standard lastBehind) c := by
    intro c hc
    cases hc
    exact ⟨[.int 30], rfl⟩
  have hborder : ∀ test, Bisection.border test (entriesOf .standard lastBehind people) ≤
      (passing lastBehind people).length := by
    intro test
    rw [← length_entriesOf .standard]
    exact Bisection.border_le_length _ _
  have hword : ∀ test,
      (UInt64.ofNat (Bisection.border test (entriesOf .standard lastBehind people))).toNat =
        Bisection.border test (entriesOf .standard lastBehind people) := fun test =>
    UInt64.toNat_ofNat_of_lt' (Nat.lt_of_le_of_lt (hborder test) hlength)
  obtain ⟨w, page, hw, hle, hstop, hpage, _, hcount, _, _, hpaginate⟩ :=
    wordIndices_safe hlength hcounts hafter nofun
      fun test => Nat.le_trans (Nat.le_of_eq (hword test)) (hborder test)
  exact ⟨w, page, hw, hle, hstop, hpage, hcount (some 1) (by decide) 1 rfl, hpaginate hword⟩

end Page

end RowQuery
