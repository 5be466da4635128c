/-!
# Invariants

An action of type `ExceptT ε (StateM σ) α` takes a state `s`, and ends in a state whether it
succeeds or fails.  It *keeps* a property `inv` of states if `inv s` implies `inv s'` for the state
`s'` that it ends in, be it that the action succeeds or that it fails (`Keeps`).  This is the notion
for states that outlive an error, such as the lists of inputs that a failed translation leaves
behind.

Keeping is compositional: `Keeps.bind` reduces a sequence of actions to its steps, and the other
lemmas of this module are the steps that every action here is made of.
-/

namespace OperatorTemplate

variable {ε σ α β : Type}

/-- The property `inv` of states survives `action`: from a state that has it, the run ends in one
that has it, with an error or without. -/
def Keeps (inv : σ → Prop) (action : ExceptT ε (StateM σ) α) : Prop :=
  ∀ s, inv s → inv (action.run.run s).2

namespace Keeps

variable {inv : σ → Prop}

theorem pure (a : α) : Keeps inv (Pure.pure a : ExceptT ε (StateM σ) α) := fun _ h => h

theorem throw (cause : ε) : Keeps inv (MonadExcept.throw cause : ExceptT ε (StateM σ) α) :=
  fun _ h => h

theorem get : Keeps inv (MonadState.get : ExceptT ε (StateM σ) σ) := fun _ h => h

/-- A change of the state by `f` keeps what `f` preserves. -/
theorem modify {f : σ → σ} (hf : ∀ s, inv s → inv (f s)) :
    Keeps inv (modify f : ExceptT ε (StateM σ) PUnit) := fun s h => hf s h

/-- A sequence keeps `inv` if its first action does and, for every value `a` that it may hand on,
the second does.  Nothing is asked of the second action where the first fails. -/
theorem bind {action : ExceptT ε (StateM σ) α} {next : α → ExceptT ε (StateM σ) β}
    (ha : Keeps inv action) (hn : ∀ a, Keeps inv (next a)) : Keeps inv (action >>= next) := by
  intro s h
  have hs := ha s h
  simp only [ExceptT.run_bind, StateT.run_bind]
  revert hs
  cases action.run.run s with
  | mk result s' =>
    cases result with
    -- the second action is not run: the state of the failure is the last one
    | error cause => exact id
    | ok a => exact hn a s'

end Keeps

end OperatorTemplate
