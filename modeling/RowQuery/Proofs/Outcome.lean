/-!
# Computations that may fail

A chain of computations succeeds if and only if each of them does, and fails for the reason of the first
one that fails. These lemmas take such a chain apart one computation at a time. What undoes a function on
every element of a list undoes it on the list.

`FailsIff` says of a computation that it fails for one reason only, and when. Computations in a row that
can fail for the same reason only do so if one of them does (`FailsIff.bind`).
-/

namespace RowQuery.Outcome

variable {ε ε' α β : Type}

theorem bind_eq_ok {x : Except ε α} {f : α → Except ε β} {b : β} :
    x >>= f = .ok b ↔ ∃ a, x = .ok a ∧ f a = .ok b := by
  cases x with
  | ok a =>
    constructor
    · intro h
      exact ⟨a, rfl, h⟩
    · rintro ⟨_, ha, h⟩
      cases ha
      exact h
  | error e =>
    constructor
    · intro h
      cases h
    · rintro ⟨_, h, _⟩
      cases h

theorem bind_eq_error {x : Except ε α} {f : α → Except ε β} {e : ε} :
    x >>= f = .error e ↔ x = .error e ∨ ∃ a, x = .ok a ∧ f a = .error e := by
  cases x with
  | ok a =>
    constructor
    · intro h
      exact .inr ⟨a, rfl, h⟩
    · rintro (h | ⟨_, ha, h⟩)
      · cases h
      · cases ha
        exact h
  | error e' =>
    constructor
    · intro h
      cases h
      exact .inl rfl
    · rintro (h | ⟨_, h, _⟩)
      · cases h
        rfl
      · cases h

theorem mapError_eq_ok {x : Except ε α} {f : ε → ε'} {a : α} :
    x.mapError f = .ok a ↔ x = .ok a := by
  cases x with
  | ok b =>
    show (Except.ok b : Except ε' α) = .ok a ↔ _
    rw [Except.ok.injEq, Except.ok.injEq]
  | error e =>
    constructor
    · intro h
      cases h
    · intro h
      cases h

/-- The computation fails for one reason only, and does so exactly under a condition. -/
def FailsIff (x : Except ε α) (reason : ε) (condition : Prop) : Prop :=
  ∀ e, x = .error e ↔ e = reason ∧ condition

namespace FailsIff

variable {reason : ε} {p p' : Prop} {x : Except ε α} {f : α → Except ε β}

theorem ok (a : α) (reason : ε) : FailsIff (.ok a) reason False := by
  intro e
  constructor
  · intro h
    cases h
  · intro h
    exact h.2.elim

theorem error (reason : ε) : FailsIff (.error reason : Except ε α) reason True := by
  intro e
  constructor
  · intro h
    cases h
    exact ⟨rfl, trivial⟩
  · rintro ⟨rfl, _⟩
    rfl

theorem congr (h : FailsIff x reason p) (hp : p ↔ p') : FailsIff x reason p' :=
  fun e => (h e).trans (and_congr_right fun _ => hp)

theorem mapError {w : ε → ε'} (h : FailsIff x reason p) : FailsIff (x.mapError w) (w reason) p := by
  cases x with
  | ok a =>
    have hp : ¬p := fun hp => nomatch (h reason).mpr ⟨rfl, hp⟩
    exact (FailsIff.ok a (w reason)).congr (iff_of_false id hp)
  | error e =>
    obtain ⟨rfl, hp⟩ := (h e).mp rfl
    exact (FailsIff.error (w e)).congr (iff_of_true trivial hp)

/-- Of two computations in a row either may fail. -/
theorem bind (hx : FailsIff x reason p) (hf : ∀ a, FailsIff (f a) reason p') :
    FailsIff (x >>= f) reason (p ∨ p') := by
  intro e
  rw [bind_eq_error, hx e]
  constructor
  · rintro (⟨rfl, hp⟩ | ⟨a, _, h⟩)
    · exact ⟨rfl, .inl hp⟩
    · obtain ⟨rfl, hp⟩ := (hf a e).mp h
      exact ⟨rfl, .inr hp⟩
  · rintro ⟨rfl, h⟩
    cases x with
    | ok a =>
      rcases h with hp | hp
      · exact .inl ⟨rfl, hp⟩
      · exact .inr ⟨a, rfl, (hf a e).mpr ⟨rfl, hp⟩⟩
    | error e' =>
      obtain ⟨rfl, hp⟩ := (hx e').mp rfl
      exact .inl ⟨rfl, hp⟩

/-- Nothing that follows and cannot fail changes the reason. -/
theorem bind_ok {g : α → β} (hx : FailsIff x reason p) :
    FailsIff (x >>= fun a => .ok (g a)) reason p :=
  (hx.bind fun a => FailsIff.ok (g a) reason).congr (or_iff_left id)

/-- What is done with an optional value fails with the value alone. -/
theorem of_option {γ : Type} {f : Option γ → Except ε α} {q : γ → Prop} {a : α} (hnone : f none = .ok a)
    (hsome : ∀ c, FailsIff (f (some c)) reason (q c)) (c : Option γ) :
    FailsIff (f c) reason (∃ d ∈ c.toList, q d) := by
  cases c with
  | none =>
    rw [hnone]
    exact (FailsIff.ok a reason).congr (iff_of_false id nofun)
  | some c => exact (hsome c).congr (by simp)

theorem exists_error (h : FailsIff x reason p) : (∃ e, x = .error e) ↔ p := by
  constructor
  · rintro ⟨e, he⟩
    exact ((h e).mp he).2
  · intro hp
    exact ⟨reason, (h reason).mpr ⟨rfl, hp⟩⟩

end FailsIff

section Lists

variable {γ : Type} {write : α → β} {xs : List α}

/-- What is read of every element is read of the list. -/
theorem mapM_map_eq_some_filterMap {read : β → Option γ} {image? : α → Option γ}
    (h : ∀ x ∈ xs, read (write x) = image? x) (hsome : ∀ x ∈ xs, (image? x).isSome) :
    (xs.map write).mapM read = some (xs.filterMap image?) := by
  induction xs with
  | nil => rfl
  | cons x xs ih =>
    obtain ⟨hx, hxs⟩ := List.forall_mem_cons.mp h
    obtain ⟨hsomeX, hsomeXs⟩ := List.forall_mem_cons.mp hsome
    obtain ⟨y, hy⟩ := Option.isSome_iff_exists.mp hsomeX
    rw [List.map_cons, List.mapM_cons, hx, hy, ih hxs hsomeXs, List.filterMap_cons_some hy]
    rfl

theorem mapM_map_eq_some_map {read : β → Option γ} {image : α → γ}
    (h : ∀ x ∈ xs, read (write x) = some (image x)) :
    (xs.map write).mapM read = some (xs.map image) := by
  rw [mapM_map_eq_some_filterMap h fun _ _ => rfl, List.filterMap_eq_map']

/-- What gives every element back gives the list back. -/
theorem mapM_map_eq_some {read : β → Option α} (h : ∀ x ∈ xs, read (write x) = some x) :
    (xs.map write).mapM read = some xs := by
  rw [mapM_map_eq_some_map h, List.map_id']

theorem mapM_cons_eq_some_iff {read : α → Option β} {x : α} {y : β} {ys : List β} :
    (x :: xs).mapM read = some (y :: ys) ↔ read x = some y ∧ xs.mapM read = some ys := by
  rw [List.mapM_cons]
  cases read x <;> cases xs.mapM read <;> simp

/-- A list is given back only if every element of it is. -/
theorem mapM_map_eq_some_iff {read : β → Option α} :
    (xs.map write).mapM read = some xs ↔ ∀ x ∈ xs, read (write x) = some x := by
  induction xs with
  | nil => exact iff_of_true rfl nofun
  | cons x xs ih => rw [List.map_cons, mapM_cons_eq_some_iff, ih, List.forall_mem_cons]

/-- A list is not read if one of its elements is not. -/
theorem mapM_eq_none_of_mem {read : α → Option β} {x : α} (hx : x ∈ xs) (h : read x = none) :
    xs.mapM read = none := by
  induction xs with
  | nil => cases hx
  | cons y xs ih =>
    rw [List.mapM_cons]
    rcases List.mem_cons.mp hx with rfl | hx
    · rw [h]
      rfl
    · rw [ih hx]
      cases read y <;> rfl

/-- What every element keeps is kept by the list. -/
theorem map_eq_of_mapM_map {κ : Type} {read : β → Option γ} {key : α → κ} {key' : γ → κ}
    (h : ∀ x y, read (write x) = some y → key' y = key x) {ys : List γ}
    (hys : (xs.map write).mapM read = some ys) : ys.map key' = xs.map key := by
  induction xs generalizing ys with
  | nil =>
    cases hys
    rfl
  | cons x xs ih =>
    rw [List.map_cons, List.mapM_cons] at hys
    obtain ⟨y, hy, hys⟩ := Option.bind_eq_some_iff.mp hys
    obtain ⟨rest, hrest, hys⟩ := Option.bind_eq_some_iff.mp hys
    cases hys
    rw [List.map_cons, List.map_cons, h x y hy, ih hrest]

end Lists

end RowQuery.Outcome
