import OperatorTemplate.Invariant
import OperatorTemplate.Proofs.Lists
/-!
# Actions and their answers

An action of type `ExceptT ε (StateM σ) α` is run from a state `s`; the run is a pair of an answer,
a success or an error, and the state it ends in.  Four things are said about runs here.

* `run_bind_eq_ok` takes a successful run apart at its first step; everything that is proved of
  successful runs goes through it.  `run_bind_cases` does the same for any run.
* `Answers inv action answer`: from every state that satisfies `inv` the action gives the same
  `answer`, a success or a failure, and `inv` holds again.  So the state is a memory that never
  shows.  Answers compose like the actions do (`Answers.bind`), and so do those of actions in turn
  where the later ones are run in spite of earlier failures (`Answers.inTurn`).
* `Respects R action`: from two states that `R` relates the action gives one answer, and `R` relates
  the states it ends in.  So what `R` leaves open in a state never shows.
* `Raises P action`: whatever state it starts from, the action fails with errors that satisfy `P`
  alone.

Each of the last three is a property with one rule per combinator (`pure`, `throw`, `bind`, `mapM`
and so on).  A function that is put together from these is proved to have the property by following
its definition, one rule for each step.
-/

namespace OperatorTemplate

universe u

variable {ε σ α β : Type}

/-! ## Runs -/

/-- A sequence succeeds with `b` in the state `s'` exactly if its first step succeeds with some `a`,
in a state `s₁`, and the rest succeeds from there. -/
theorem run_bind_eq_ok {action : ExceptT ε (StateM σ) α} {next : α → ExceptT ε (StateM σ) β}
    {s s' : σ} {b : β} :
    (action >>= next).run.run s = (.ok b, s')
      ↔ ∃ a s₁, action.run.run s = (.ok a, s₁) ∧ (next a).run.run s₁ = (.ok b, s') := by
  simp only [ExceptT.run_bind, StateT.run_bind]
  cases action.run.run s with
  | mk result s₁ =>
    cases result with
    | error cause =>
      -- the first step fails, so neither side holds
      constructor
      · intro h
        nomatch congrArg Prod.fst h
      · rintro ⟨a, s₂, h, -⟩
        nomatch congrArg Prod.fst h
    | ok a =>
      constructor
      · intro h
        exact ⟨a, s₁, rfl, h⟩
      · rintro ⟨a', s₂, h, h'⟩
        cases h
        exact h'

/-- A sequence stops at the first failure, in the state of that failure, or goes on from where its
first step ends. -/
theorem run_bind_cases (action : ExceptT ε (StateM σ) α) (next : α → ExceptT ε (StateM σ) β) (s : σ) :
    (∃ cause s', action.run.run s = (.error cause, s')
        ∧ (action >>= next).run.run s = (.error cause, s'))
      ∨ ∃ a s', action.run.run s = (.ok a, s')
        ∧ (action >>= next).run.run s = (next a).run.run s' := by
  simp only [ExceptT.run_bind, StateT.run_bind]
  cases action.run.run s with
  | mk result s' =>
    cases result with
    | error cause => exact .inl ⟨cause, s', rfl, rfl⟩
    | ok a => exact .inr ⟨a, s', rfl, rfl⟩

/-- An error of a sequence is one of its first step, or one of the rest from where the first step
ends. -/
theorem of_run_bind_eq_error {action : ExceptT ε (StateM σ) α} {next : α → ExceptT ε (StateM σ) β}
    {s : σ} {cause : ε} (h : ((action >>= next).run.run s).1 = .error cause) :
    (action.run.run s).1 = .error cause
      ∨ ∃ a s', action.run.run s = (.ok a, s') ∧ ((next a).run.run s').1 = .error cause := by
  rcases run_bind_cases action next s with ⟨_, s', hr, hrun⟩ | ⟨a, s', hr, hrun⟩
  · rw [hrun] at h
    cases h
    exact .inl (congrArg Prod.fst hr)
  · rw [hrun] at h
    exact .inr ⟨a, s', hr, h⟩

/-- Returning `a` succeeds with `a` and nothing else, in the state it started from. -/
theorem run_pure_eq_ok {a b : α} {s s' : σ} :
    (pure a : ExceptT ε (StateM σ) α).run.run s = (.ok b, s') ↔ b = a ∧ s' = s := by
  constructor
  · intro h
    cases h
    exact ⟨rfl, rfl⟩
  · rintro ⟨rfl, rfl⟩
    rfl

/-- After the state is read, the rest is run with it, from it. -/
theorem run_get_bind {α : Type} {next : σ → ExceptT ε (StateM σ) α} {s : σ} :
    (get >>= next).run.run s = (next s).run.run s := rfl

/-- A failure is no success. -/
theorem run_throw_ne_ok {cause : ε} {a : α} {s s' : σ} :
    (throw cause : ExceptT ε (StateM σ) α).run.run s ≠ (.ok a, s') :=
  fun h => nomatch congrArg Prod.fst h

/-- Without a state: a sequence of answers is a success exactly if the first is, with some `a`, and
what follows `a` is. -/
theorem bind_eq_ok {answer : Except ε α} {next : α → Except ε β} {b : β} :
    answer >>= next = .ok b ↔ ∃ a, answer = .ok a ∧ next a = .ok b := by
  cases answer with
  | error cause => exact ⟨fun h => (by nomatch h), fun ⟨_, h, _⟩ => (by nomatch h)⟩
  | ok a => exact ⟨fun h => ⟨a, rfl, h⟩, fun ⟨_, h, h'⟩ => by cases h; exact h'⟩

/-- An answer that is not an error is some success. -/
theorem exists_eq_ok {answer : Except ε α} (h : answer.isOk = true) : ∃ a, answer = .ok a := by
  cases answer with
  | error cause => nomatch h
  | ok a => exact ⟨a, rfl⟩

/-- A success that is found by asking for the value, in `toOption`, is the answer. -/
theorem exists_eq_ok_of_mem {answer : Except ε α} {P : α → Prop}
    (h : ∃ a ∈ answer.toOption, P a) : ∃ a, answer = .ok a ∧ P a := by
  obtain ⟨a, ha, hP⟩ := h
  cases answer with
  | error cause => nomatch ha
  | ok b =>
    obtain rfl : b = a := Option.some.inj ha
    exact ⟨b, rfl, hP⟩

/-- The results `bs` of a successful map over `as` are those of its steps, in order. -/
theorem forall₂_of_mapM {f : α → Except ε β} : {as : List α} → {bs : List β} →
    as.mapM f = .ok bs → List.Forall₂ (fun a b => f a = .ok b) as bs
  | [], _, h => by
    cases h
    exact .nil
  | a :: as, _, h => by
    rw [List.mapM_cons] at h
    obtain ⟨b, hb, h⟩ := bind_eq_ok.mp h
    obtain ⟨bs, hbs, h⟩ := bind_eq_ok.mp h
    cases h
    exact .cons hb (forall₂_of_mapM hbs)

/-! ## Answers -/

/-- From every state that satisfies `inv`, the action gives `answer` and keeps `inv`. -/
def Answers (inv : σ → Prop) (action : ExceptT ε (StateM σ) α) (answer : Except ε α) : Prop :=
  ∀ s, inv s → (action.run.run s).1 = answer ∧ inv (action.run.run s).2

namespace Answers

variable {inv : σ → Prop}

theorem pure (a : α) : Answers inv (Pure.pure a : ExceptT ε (StateM σ) α) (.ok a) :=
  fun _ h => ⟨rfl, h⟩

theorem throw (cause : ε) :
    Answers inv (MonadExcept.throw cause : ExceptT ε (StateM σ) α) (.error cause) :=
  fun _ h => ⟨rfl, h⟩

/-- An answer that is lifted to an action does not look at the state. -/
theorem lift (answer : Except ε α) :
    Answers inv (liftM answer : ExceptT ε (StateM σ) α) answer :=
  fun _ h => by cases answer <;> exact ⟨rfl, h⟩

/-- If `action` answers `answer`, and the rest answers `answers a` for the value `a` of a success,
the sequence answers with the sequence of answers.  Nothing is asked of the rest where the first
step fails. -/
theorem bind {action : ExceptT ε (StateM σ) α} {answer : Except ε α}
    {next : α → ExceptT ε (StateM σ) β} {answers : α → Except ε β} (ha : Answers inv action answer)
    (hn : ∀ a, answer = .ok a → Answers inv (next a) (answers a)) :
    Answers inv (action >>= next) (answer >>= answers) := by
  intro s h
  obtain ⟨hr, hs⟩ := ha s h
  simp only [ExceptT.run_bind, StateT.run_bind]
  revert hr hs
  cases action.run.run s with
  | mk result s₁ =>
    intro hr hs
    cases result with
    | error cause =>
      -- the answer is an error, and the rest is run neither here nor there
      cases hr
      exact ⟨rfl, hs⟩
    | ok a =>
      cases hr
      exact hn a rfl s₁ hs

/-- What an action reads from the state may be used in the proof that its answer does not depend
on it. -/
theorem get_bind {next : σ → ExceptT ε (StateM σ) α} {answer : Except ε α}
    (h : ∀ s, inv s → Answers inv (next s) answer) : Answers inv (MonadState.get >>= next) answer :=
  fun s hs => h s hs s hs

/-- A change of the state that keeps `inv` does not show in what follows. -/
theorem modify_bind {f : σ → σ} {next : PUnit → ExceptT ε (StateM σ) α} {answer : Except ε α}
    (hf : ∀ s, inv s → inv (f s)) (hn : Answers inv (next ⟨⟩) answer) :
    Answers inv (modify f >>= next) answer :=
  fun s hs => hn (f s) (hf s hs)

/-- A map over a list answers with the map of the answers, up to the first failure. -/
theorem mapM {γ : Type} {f : γ → ExceptT ε (StateM σ) α} {g : γ → Except ε α} :
    (xs : List γ) → (∀ x ∈ xs, Answers inv (f x) (g x)) → Answers inv (xs.mapM f) (xs.mapM g)
  | [], _ => by
    simp only [List.mapM_nil]
    exact pure []
  | x :: xs, h => by
    simp only [List.mapM_cons]
    exact bind (h x List.mem_cons_self) fun _ _ =>
      bind (mapM xs fun y hy => h y (List.mem_cons_of_mem x hy)) fun _ _ => pure _

/-- A fold over a list answers with the fold of the answers. -/
theorem foldlM {γ : Type} {f : β → γ → ExceptT ε (StateM σ) β} {g : β → γ → Except ε β} :
    (xs : List γ) → (∀ b, ∀ x ∈ xs, Answers inv (f b x) (g b x)) →
      (b : β) → Answers inv (xs.foldlM f b) (xs.foldlM g b)
  | [], _, b => pure b
  | x :: xs, h, b => by
    simp only [List.foldlM_cons]
    exact bind (h b x List.mem_cons_self) fun b' _ =>
      foldlM xs (fun b y hy => h b y (List.mem_cons_of_mem x hy)) b'

/-- Actions in turn, going on after failures, answer as they do alone: the list of answers is that
of `g`, element by element, and the memory still satisfies `inv`.  By induction on the list, the
state of each action being the one that the action before it left. -/
theorem inTurn {γ : Type} {f : γ → ExceptT ε (StateM σ) α} {g : γ → Except ε α}
    (h : ∀ x, Answers inv (f x) (g x)) : (xs : List γ) → {s : σ} → inv s →
    ((xs.mapM fun x => (f x).run : StateM σ (List (Except ε α))).run s).1 = xs.map g
      ∧ inv ((xs.mapM fun x => (f x).run : StateM σ (List (Except ε α))).run s).2
  | [], _, hs => ⟨rfl, hs⟩
  | x :: xs, s, hs => by
    obtain ⟨answer, kept⟩ := h x s hs
    obtain ⟨answers, kept'⟩ := inTurn h xs kept
    rw [List.mapM_cons]
    refine ⟨?_, kept'⟩
    rw [List.map_cons, ← answer, ← answers]
    rfl

end Answers

/-! ## Respect for a relation between states -/

/-- From two related states, the action gives one answer and ends in related states. -/
def Respects (R : σ → σ → Prop) (action : ExceptT ε (StateM σ) α) : Prop :=
  ∀ s t, R s t → (action.run.run s).1 = (action.run.run t).1
    ∧ R (action.run.run s).2 (action.run.run t).2

namespace Respects

variable {R : σ → σ → Prop}

theorem pure (a : α) : Respects R (Pure.pure a : ExceptT ε (StateM σ) α) := fun _ _ h => ⟨rfl, h⟩

theorem throw (cause : ε) : Respects R (MonadExcept.throw cause : ExceptT ε (StateM σ) α) :=
  fun _ _ h => ⟨rfl, h⟩

/-- Changing both states by `f` is respected if `f` maps related states to related ones. -/
theorem modify {f : σ → σ} (hf : ∀ s t, R s t → R (f s) (f t)) :
    Respects R (modify f : ExceptT ε (StateM σ) PUnit) := fun s t h => ⟨rfl, hf s t h⟩

/-- A sequence respects `R` if its first action does and, for every value `a` that it may hand on,
the second does. -/
theorem bind {action : ExceptT ε (StateM σ) α} {next : α → ExceptT ε (StateM σ) β}
    (ha : Respects R action) (hn : ∀ a, Respects R (next a)) : Respects R (action >>= next) := by
  intro s t h
  obtain ⟨hr, hst⟩ := ha s t h
  simp only [ExceptT.run_bind, StateT.run_bind]
  revert hr hst
  cases action.run.run s with
  | mk result s₁ =>
    cases action.run.run t with
    | mk result' t₁ =>
      intro hr hst
      -- both runs of the first step have the same answer, so both go on or both stop
      cases hr
      cases result with
      | error cause => exact ⟨rfl, hst⟩
      | ok a => exact hn a s₁ t₁ hst

end Respects

/-! ## Errors -/

/-- Whatever state it starts from, the action fails with errors that satisfy `P` alone. -/
def Raises (P : ε → Prop) (action : ExceptT ε (StateM σ) α) : Prop :=
  ∀ s cause, (action.run.run s).1 = .error cause → P cause

namespace Raises

variable {P Q : ε → Prop}

theorem pure (a : α) : Raises P (Pure.pure a : ExceptT ε (StateM σ) α) := nofun

/-- Throwing `cause` raises what `P` allows if `P cause`. -/
theorem throw {cause : ε} (h : P cause) :
    Raises P (MonadExcept.throw cause : ExceptT ε (StateM σ) α) := by
  intro s cause' hr
  cases hr
  exact h

theorem get : Raises P (MonadState.get : ExceptT ε (StateM σ) σ) := nofun

theorem modify (f : σ → σ) : Raises P (modify f : ExceptT ε (StateM σ) PUnit) := nofun

/-- A lifted answer raises its own error alone. -/
theorem lift {answer : Except ε α} (h : ∀ cause, answer = .error cause → P cause) :
    Raises P (liftM answer : ExceptT ε (StateM σ) α) := by
  intro s cause hr
  cases answer with
  | error _ => exact h cause hr
  | ok _ => nomatch hr

/-- A weaker property of errors is raised as well. -/
theorem mono {action : ExceptT ε (StateM σ) α} (h : Raises P action) (hPQ : ∀ cause, P cause → Q cause) :
    Raises Q action := fun s cause hr => hPQ cause (h s cause hr)

/-- The errors of a sequence are those of its first action and those of the second. -/
theorem bind {action : ExceptT ε (StateM σ) α} {next : α → ExceptT ε (StateM σ) β}
    (ha : Raises P action) (hn : ∀ a, Raises P (next a)) : Raises P (action >>= next) := by
  intro s cause h
  rcases of_run_bind_eq_error h with h | ⟨a, s', -, h⟩
  · exact ha s cause h
  · exact hn a s' cause h

/-- The errors of a loop are those of its steps. -/
theorem forM {γ : Type} {f : γ → ExceptT ε (StateM σ) PUnit} : {xs : List γ} →
    (∀ x ∈ xs, Raises P (f x)) → Raises P (xs.forM f)
  | [], _ => pure PUnit.unit
  | x :: _, h =>
    bind (h x List.mem_cons_self) fun _ => forM fun y hy => h y (List.mem_cons_of_mem x hy)

/-- The errors of a fold are those of its steps. -/
theorem foldlM {γ : Type} {f : β → γ → ExceptT ε (StateM σ) β} : {xs : List γ} →
    (∀ b, ∀ x ∈ xs, Raises P (f b x)) → (b : β) → Raises P (xs.foldlM f b)
  | [], _, b => pure b
  | x :: xs, h, b => by
    rw [List.foldlM_cons]
    exact bind (h b x List.mem_cons_self)
      (foldlM fun b y hy => h b y (List.mem_cons_of_mem x hy))

/-- The errors of a map are those of its steps. -/
theorem mapM {γ : Type} {f : γ → ExceptT ε (StateM σ) α} : {xs : List γ} →
    (∀ x ∈ xs, Raises P (f x)) → Raises P (xs.mapM f)
  | [], _ => by
    rw [List.mapM_nil]
    exact pure []
  | x :: xs, h => by
    rw [List.mapM_cons]
    exact bind (h x List.mem_cons_self) fun _ =>
      bind (mapM fun y hy => h y (List.mem_cons_of_mem x hy)) fun _ => pure _

end Raises

end OperatorTemplate
