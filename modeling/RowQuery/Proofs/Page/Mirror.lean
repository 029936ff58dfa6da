import RowQuery.Proofs.Page.Selection
import RowQuery.Proofs.Page.StorageOrder

/-!
# Paging from the other end

A query that names the field that breaks ties has a mirror image, which asks for the same rows from the
other end: every direction turned around, the cursors exchanged and the counts exchanged. Its candidates
are the same in reverse, and the border of one cursor on them is the border of the other one, seen from
the other end.

Results:
* `entriesOf_mirrored`: the candidates are the same in reverse.
* `cursorWindow_mirrored`: the windows of the cursors lie opposite to each other, or both fail.
* `paginate_mirrored`: the page of the mirrored query is the mirror image of the page.
-/

namespace RowQuery

/-- The query for the same rows from the other end. -/
def Query.mirrored (q : Query) : Query :=
  { q with
    order := q.order.map OrderKey.reversed
    after := q.before
    before := q.after
    first := q.last
    last := q.first }

namespace Window

/-- Two windows in `n` places show the same places, one of them seen from the other end, or nothing. -/
structure Opposite (n : Nat) (w other : Window) : Prop where
  start_le : w.start ≤ w.stop
  stop_le : w.stop ≤ n
  same : w.start = w.stop ∧ other.start = other.stop ∨
    other.start = n - w.stop ∧ other.stop = n - w.start

namespace Opposite

variable {n : Nat} {w other : Window}

theorem of_bounds {start stop : Nat} (hstart : start ≤ n) (hstop : stop ≤ n) :
    Opposite n ⟨start, max stop start⟩ ⟨n - stop, max (n - start) (n - stop)⟩ := by
  refine ⟨Nat.le_max_right _ _, Nat.max_le.mpr ⟨hstop, hstart⟩, ?_⟩
  rcases Nat.le_total start stop with hle | hle
  · right
    rw [Nat.max_eq_left hle, Nat.max_eq_left (Nat.sub_le_sub_left hle n)]
    exact ⟨rfl, rfl⟩
  · -- Cursors that cross leave nothing, at different places.
    left
    rw [Nat.max_eq_right hle, Nat.max_eq_right (Nat.sub_le_sub_left hle n)]
    exact ⟨rfl, rfl⟩

theorem first (h : Opposite n w other) (count : Option Nat) :
    Opposite n (w.first count) (other.last count) := by
  cases count with
  | none => exact h
  | some k =>
    obtain ⟨hle, hn, hsame⟩ := h
    constructor <;> simp only [Window.first, Window.last] <;> omega

theorem last (h : Opposite n w other) (count : Option Nat) :
    Opposite n (w.last count) (other.first count) := by
  cases count with
  | none => exact h
  | some k =>
    obtain ⟨hle, hn, hsame⟩ := h
    constructor <;> simp only [Window.first, Window.last] <;> omega

/-- With one count at most, the counts leave opposite windows. -/
theorem cut (h : Opposite n w other) {first last : Option Nat} (hcounts : first = none ∨ last = none) :
    Opposite n (w.cut none none first last) (other.cut none none last first) := by
  have hdrop {v : Window} (hv : v.start ≤ v.stop) (first last : Option Nat) :
      v.cut none none first last = (v.first first).last last := by
    show ((Window.mk (min v.start v.stop) v.stop).first first).last last = _
    rw [Nat.min_eq_left hv]
  have hother : other.start ≤ other.stop := by
    rcases h.same with ⟨_, hempty⟩ | ⟨hstart, hstop⟩
    · exact Nat.le_of_eq hempty
    · rw [hstart, hstop]
      exact Nat.sub_le_sub_left h.start_le n
  rw [hdrop h.start_le, hdrop hother]
  rcases hcounts with rfl | rfl
  · exact h.last last
  · exact h.first first

/-- Of opposite windows that show something, each ends where the other one starts. -/
theorem same_of_slice_ne_nil {α : Type} {xs : List α} (h : Opposite n w other) (hne : w.slice xs ≠ []) :
    other.start = n - w.stop ∧ other.stop = n - w.start :=
  h.same.resolve_left fun hempty => hne (slice_eq_nil (Nat.le_of_eq hempty.1.symm) xs)

/-- Opposite windows show the same elements in reverse. -/
theorem slice_reverse {α : Type} {xs : List α} (h : Opposite xs.length w other) :
    other.slice xs.reverse = (w.slice xs).reverse := by
  rcases h.same with ⟨hempty, hempty'⟩ | ⟨hstart, hstop⟩
  · rw [slice_eq_nil (Nat.le_of_eq hempty.symm), slice_eq_nil (Nat.le_of_eq hempty'.symm),
      List.reverse_nil]
  · obtain ⟨front, shown, back, rfl, hshows⟩ := exists_shows h.start_le h.stop_le
    have hlength : (front ++ (shown ++ back)).length = front.length + shown.length + back.length := by
      rw [List.length_append, List.length_append, Nat.add_assoc]
    have hopposite : other.Shows back.reverse shown.reverse := by
      rw [hlength, hshows.stop_eq, Nat.add_sub_cancel_left] at hstart
      rw [hlength, hshows.start_eq, Nat.add_assoc, Nat.add_sub_cancel_left, Nat.add_comm] at hstop
      constructor
      · rw [List.length_reverse, hstart]
      · rw [List.length_reverse, List.length_reverse, hstop]
    rw [List.reverse_append, List.reverse_append, List.append_assoc, hopposite.slice_eq,
      hshows.slice_eq]

end Opposite

end Window

namespace Page

variable {ρ : Type}

/-- A page shows the rows of another one from the other end. -/
structure Mirrors (page other : Page ρ) : Prop where
  items : other.items = page.items.reverse
  totalCount : other.info.totalCount = page.info.totalCount
  startCursor : other.info.startCursor = page.info.endCursor
  endCursor : other.info.endCursor = page.info.startCursor
  hasNext : page.items ≠ [] → other.info.hasNext = page.info.hasPrevious
  hasPrevious : page.items ≠ [] → other.info.hasPrevious = page.info.hasNext

/-! ## Cursors and keys -/

theorem leading_reversed (keys : List OrderKey) (c : Cursor) :
    c.leading (keys.map OrderKey.reversed) = (c.leading keys).map fun p => (p.1.reversed, p.2) := by
  induction keys with
  | nil => rfl
  | cons k keys ih =>
    have hfield : c.get? k.reversed.field = c.get? k.field := rfl
    rw [List.map_cons, Cursor.leading, Cursor.leading, hfield]
    cases c.get? k.field with
    | none => rfl
    | some v => rw [ih, List.map_cons]

/-- A cursor records the same values whatever the directions. -/
theorem anchor_reversed (keys : List OrderKey) (c : Cursor) :
    anchor (keys.map OrderKey.reversed) c = anchor keys c := by
  unfold anchor
  rw [leading_reversed]
  cases keys with
  | nil => rfl
  | cons k keys =>
    cases c.leading (k :: keys) with
    | nil => rfl
    | cons p pairs =>
      show Except.ok _ = Except.ok _
      rw [List.map_map]
      rfl

theorem cursorAt_reversed (keys : List OrderKey) (place place' : Nat) (e : Entry ρ) :
    cursorAt .keyset (keys.map OrderKey.reversed) place e = cursorAt .keyset keys place' e := by
  show Cursor.ofPairs (((keys.map OrderKey.reversed).map OrderKey.field).zip e.key) = _
  rw [List.map_map]
  rfl

theorem keysOf_mirrored {options : PageOptions} {q : Query}
    (htie : OrderKey.sortsBy q.order options.tiebreaker = true) :
    keysOf options q.mirrored = (keysOf options q).map OrderKey.reversed := by
  have htie' : OrderKey.sortsBy (q.order.map OrderKey.reversed) options.tiebreaker = true := by
    rw [OrderKey.sortsBy, List.any_map]
    exact htie
  show OrderKey.sortKeys (q.order.map OrderKey.reversed) _ = (OrderKey.sortKeys q.order _).map _
  rw [OrderKey.sortKeys, OrderKey.sortKeys, if_pos htie, if_pos htie']

/-! ## Borders -/

section Borders

variable {keys : List OrderKey} {entries : List (Entry ρ)}

/-- A cursor that leaves the rows on one side of it leaves those on its other side from the other end. -/
theorem placeBy_reversed {test other : Ordering → Bool} (hother : ∀ o, other o.swap = !test o)
    (shift shift' : Nat) {c : Cursor}
    (h : entries.Pairwise fun a b =>
      test (OrderKey.compareKeys keys b.key (recordedPrefix keys c)) = true →
        test (OrderKey.compareKeys keys a.key (recordedPrefix keys c)) = true) :
    placeBy other shift' .keyset (keys.map OrderKey.reversed) entries.reverse c =
      (placeBy test shift .keyset keys entries c).map (entries.length - ·) := by
  show (anchor _ c >>= _) = Except.map _ (anchor keys c >>= _)
  rw [anchor_reversed]
  cases hanchor : anchor keys c with
  | error fault => rfl
  | ok values =>
    rw [← anchor_eq_ok hanchor] at h
    refine congrArg Except.ok (Bisection.border_reverse h fun e _ => ?_)
    rw [OrderKey.compareKeys_reversed]
    exact hother _

theorem boundOr_map {bound other : Cursor → Except CursorFault Nat} {c : Option Cursor} (f : Nat → Nat)
    (unbounded : Nat) (h : ∀ d ∈ c, other d = (bound d).map f) :
    boundOr other (f unbounded) c = (boundOr bound unbounded c).map f := by
  cases c with
  | none => rfl
  | some d =>
    show (other d).mapError _ = Except.map f ((bound d).mapError _)
    rw [h d rfl]
    cases bound d <;> rfl

/-- A cursor that records values fails for want of the first key alone. -/
theorem boundOr_eq_error (test : Ordering → Bool) (shift : Nat) {unbounded : Nat} {c : Option Cursor}
    {e : QueryError} (h : boundOr (placeBy test shift .keyset keys entries) unbounded c = .error e) :
    keys.head?.map (fun k => QueryError.cursor (.missingKey k.field)) = some e := by
  cases c with
  | none => cases h
  | some c =>
    simp only [boundOr, placeBy, anchor] at h
    split at h
    · cases h
      rfl
    · cases h

/-- Two bounds seen from the other end enclose the opposite window. If one of them fails, both ways fail
for the same reason. -/
theorem opposite_of_bounds {n : Nat} {start stop : Except QueryError Nat}
    (hstart : ∀ i, start = .ok i → i ≤ n) (hstop : ∀ i, stop = .ok i → i ≤ n)
    (herror : ∀ e e', start = .error e → stop = .error e' → e' = e) :
    (∃ e, enclosed start stop = .error e ∧
      enclosed (stop.map (n - ·)) (start.map (n - ·)) = .error e) ∨
    ∃ w other, enclosed start stop = .ok w ∧
      enclosed (stop.map (n - ·)) (start.map (n - ·)) = .ok other ∧ w.Opposite n other := by
  cases start with
  | error e =>
    left
    cases stop with
    | error e' =>
      obtain rfl := herror e e' rfl rfl
      exact ⟨_, rfl, rfl⟩
    | ok stop => exact ⟨e, rfl, rfl⟩
  | ok start =>
    cases stop with
    | error e => exact .inl ⟨e, rfl, rfl⟩
    | ok stop => exact .inr ⟨_, _, rfl, rfl, .of_bounds (hstart start rfl) (hstop stop rfl)⟩

end Borders

/-! ## The mirrored query -/

section Mirrored

variable [Record ρ] {options : PageOptions} {q : Query} {rows : List ρ}

theorem keyValues_mirrored (htie : OrderKey.sortsBy q.order options.tiebreaker = true) (rows : List ρ) :
    keyValues options q.mirrored rows = keyValues options q rows := by
  unfold keyValues
  rw [keysOf_mirrored htie, funext (OrderKey.rowKey_map_reversed (keysOf options q))]
  rfl

/-- The candidates of the mirrored query are the same in reverse. -/
theorem entriesOf_mirrored (htie : OrderKey.sortsBy q.order options.tiebreaker = true)
    (h : TransitiveOn Value.sortCompare (keyValues options q rows)) (ht : TiesBroken options q rows) :
    entriesOf options q.mirrored rows = (entriesOf options q rows).reverse := by
  have hentry : entryOf (ρ := ρ) (keysOf options q.mirrored) = entryOf (keysOf options q) := by
    funext row
    unfold entryOf
    rw [keysOf_mirrored htie, OrderKey.rowKey_map_reversed]
  have ht' : TiesBroken options q.mirrored rows := ht
  refine entriesOf_eq_of_strict ?_ ht' ?_ ?_
  · rw [keyValues_mirrored htie]
    exact h
  · rw [hentry]
    exact (List.reverse_perm _).trans (entriesOf_perm options q rows)
  · rw [List.pairwise_reverse, keysOf_mirrored htie]
    refine (entriesOf_strict h ht).imp ?_
    intro a b hab
    unfold compareEntries at hab ⊢
    rw [OrderKey.compareKeys_reversed, OrderKey.compareKeys_swap, hab]

/-- The window of the mirrored query starts where the window ends, seen from the other end. -/
theorem start_mirrored (h : ∀ c ∈ q.before, TransitiveAround options q rows c) :
    boundOr (placeAfter .keyset ((keysOf options q).map OrderKey.reversed)
        (entriesOf options q rows).reverse) 0 q.mirrored.after =
      (boundOr (placeBefore .keyset (keysOf options q) (entriesOf options q rows))
        (entriesOf options q rows).length q.before).map ((entriesOf options q rows).length - ·) := by
  rw [← Nat.sub_self (entriesOf options q rows).length]
  refine boundOr_map _ _ fun c hc => ?_
  exact placeBy_reversed (by decide) 0 1 (entriesOf_closed_around isCut_isLT (h c hc))

/-- It ends where the window starts. -/
theorem stop_mirrored (h : ∀ c ∈ q.after, TransitiveAround options q rows c) :
    boundOr (placeBefore .keyset ((keysOf options q).map OrderKey.reversed)
        (entriesOf options q rows).reverse) (entriesOf options q rows).reverse.length
        q.mirrored.before =
      (boundOr (placeAfter .keyset (keysOf options q) (entriesOf options q rows)) 0 q.after).map
        ((entriesOf options q rows).length - ·) := by
  rw [List.length_reverse]
  refine boundOr_map ((entriesOf options q rows).length - ·) 0 fun c hc => ?_
  exact placeBy_reversed (by decide) 1 0 (entriesOf_closed_around isCut_isLE (h c hc))

/-- The cursors leave opposite windows, or fail for the same reason. -/
theorem cursorWindow_mirrored (hkeyset : options.strategy = .keyset)
    (htie : OrderKey.sortsBy q.order options.tiebreaker = true)
    (h : TransitiveOn Value.sortCompare (keyValues options q rows ++ cursorValues options q))
    (ht : TiesBroken options q rows) :
    (∃ e,
      cursorWindow options.strategy (keysOf options q) (entriesOf options q rows) q.after q.before =
        .error e ∧
      cursorWindow options.strategy (keysOf options q.mirrored) (entriesOf options q.mirrored rows)
        q.mirrored.after q.mirrored.before = .error e) ∨
    ∃ w other,
      cursorWindow options.strategy (keysOf options q) (entriesOf options q rows) q.after q.before =
        .ok w ∧
      cursorWindow options.strategy (keysOf options q.mirrored) (entriesOf options q.mirrored rows)
        q.mirrored.after q.mirrored.before = .ok other ∧
      w.Opposite (entriesOf options q rows).length other := by
  rw [hkeyset, entriesOf_mirrored htie (h.mono (List.subset_append_left _ _)) ht,
    keysOf_mirrored htie]
  obtain ⟨hafter, hbefore⟩ := transitiveAround_cursors h
  unfold cursorWindow
  rw [start_mirrored hbefore, stop_mirrored hafter]
  refine opposite_of_bounds ?_ ?_ ?_
  · intro _ hstart
    exact boundOr_le placeBy_le_length (Nat.zero_le _) hstart
  · intro _ hstop
    exact boundOr_le placeBy_le_length (Nat.le_refl _) hstop
  · intro _ _ hstart hstop
    have hstart := boundOr_eq_error Ordering.isLE 1 hstart
    have hstop := boundOr_eq_error Ordering.isLT 0 hstop
    exact Option.some.inj (hstop.symm.trans hstart)

omit [Record ρ] in
/-- Opposite windows of the candidates and of the candidates in reverse give mirror images. -/
theorem mirrors_ofWindow (hkeyset : options.strategy = .keyset) (keys : List OrderKey)
    {entries : List (Entry ρ)} {w other : Window} (h : w.Opposite entries.length other) :
    (ofWindow options keys entries w).Mirrors
      (ofWindow options (keys.map OrderKey.reversed) entries.reverse other) := by
  have hcursors (place place' : Nat) (e : Option (Entry ρ)) :
      e.map (cursorAt options.strategy (keys.map OrderKey.reversed) place) =
        e.map (cursorAt options.strategy keys place') := by
    rw [hkeyset]
    exact congrArg (e.map ·) (funext (cursorAt_reversed keys place place'))
  have hsame (hne : (w.slice entries).map Entry.row ≠ []) :
      other.start = entries.length - w.stop ∧ other.stop = entries.length - w.start :=
    h.same_of_slice_ne_nil fun hnil => hne (congrArg (List.map Entry.row) hnil)
  constructor
  · show (other.slice entries.reverse).map Entry.row = ((w.slice entries).map Entry.row).reverse
    rw [h.slice_reverse, List.map_reverse]
  · show (if _ then some entries.reverse.length else none) = _
    rw [List.length_reverse]
    rfl
  · show (other.slice entries.reverse).head?.map _ = (w.slice entries).getLast?.map _
    rw [h.slice_reverse, List.head?_reverse]
    exact hcursors _ _ _
  · show (other.slice entries.reverse).getLast?.map _ = (w.slice entries).head?.map _
    rw [h.slice_reverse, List.getLast?_reverse]
    exact hcursors _ _ _
  · intro hne
    show decide (other.stop < entries.reverse.length) = decide (0 < w.start)
    rw [(hsame hne).2, List.length_reverse, decide_eq_decide]
    have hle := Nat.le_trans h.start_le h.stop_le
    omega
  · intro hne
    show decide (0 < other.start) = decide (w.stop < entries.length)
    rw [(hsame hne).1, decide_eq_decide]
    exact Nat.sub_pos_iff_lt

/-- The page of the mirrored query is the mirror image of the page, and it fails if the page does, for
the same reason. -/
theorem paginate_mirrored (hkeyset : options.strategy = .keyset)
    (htie : OrderKey.sortsBy q.order options.tiebreaker = true) (hlimit : q.limit = none)
    (hoffset : q.offset = none) (hcounts : q.first = none ∨ q.last = none)
    (h : TransitiveOn Value.sortCompare (keyValues options q rows ++ cursorValues options q))
    (ht : TiesBroken options q rows) :
    (∀ e, paginate options q rows = .error e ↔ paginate options q.mirrored rows = .error e) ∧
      ∀ page, paginate options q rows = .ok page →
        ∃ other, paginate options q.mirrored rows = .ok other ∧ page.Mirrors other := by
  rcases cursorWindow_mirrored hkeyset htie h ht with
    ⟨e, hwindow, hother⟩ | ⟨w, other, hwindow, hother, hopposite⟩
  · have hpage := paginate_eq_error hwindow
    have hmirrored := paginate_eq_error hother
    rw [hpage, hmirrored]
    exact ⟨fun _ => Iff.rfl, nofun⟩
  · have hpage := paginate_eq_ofWindow hwindow
    have hmirrored := paginate_eq_ofWindow hother
    rw [hpage, hmirrored]
    refine ⟨fun e => ⟨nofun, nofun⟩, ?_⟩
    intro page hok
    cases hok
    refine ⟨_, rfl, ?_⟩
    rw [entriesOf_mirrored htie (h.mono (List.subset_append_left _ _)) ht, keysOf_mirrored htie]
    show (ofWindow _ _ _ (w.cut q.offset q.limit q.first q.last)).Mirrors
      (ofWindow _ _ _ (other.cut q.offset q.limit q.last q.first))
    rw [hoffset, hlimit]
    exact mirrors_ofWindow hkeyset _ (hopposite.cut hcounts)

end Mirrored

/-- The query for the oldest one of the people who are younger than thirty. -/
def oldestBelowThirty : Query :=
  { Query.all with
    order := [.desc "age", .asc "id"]
    after := some ⟨[("age", .int 30)]⟩
    first := some 1 }

theorem paginate_mirrored_people :
    ∃ page other,
      paginate .standard oldestBelowThirty people = .ok page ∧ page.items ≠ [] ∧
      paginate .standard
        { Query.all with
          order := [.asc "age", .desc "id"]
          before := some ⟨[("age", .int 30)]⟩
          last := some 1 } people = .ok other ∧
      page.Mirrors other := by
  have hpage : ∃ page, paginate .standard oldestBelowThirty people = .ok page ∧ page.items ≠ [] :=
    ⟨_, rfl, by decide +kernel⟩
  obtain ⟨page, h, hne⟩ := hpage
  obtain ⟨_, hmirrored⟩ := @paginate_mirrored Row _ .standard oldestBelowThirty people rfl
    (by decide +kernel) rfl rfl (.inr rfl) (by decide +kernel) (by decide +kernel)
  obtain ⟨other, hother, hmirrors⟩ := hmirrored page h
  exact ⟨page, other, h, hne, hother, hmirrors⟩

end Page

end RowQuery
