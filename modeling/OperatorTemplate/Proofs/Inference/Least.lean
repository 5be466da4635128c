import Mathlib.Order.Bounds.Defs
import OperatorTemplate.Proofs.Inference.Within
/-!
# The fixpoint of inference is the least solution

A loop over roots ends if some table above its start solves the typing rules, and then ends in the
least such table (`runToFixpoint_isLeast`).  That common subexpressions are remembered does not
show: a solution is what a plain pass leaves unchanged.

Three things are put together.  The loop ends where a plain pass is quiet, so it ends in a solution
(`loopRun_repeat`).  Below a solution every pass succeeds and stays below (`pass_within`), so the
loop ends below every solution.  And it is not cut off (`runToFixpoint_settles`), so it does end.

The loop may start from any valid state, so the same holds of the passes after the defaults for
leaves (`fixpoint_of_run`, `exists_run_of_solution`).
-/

namespace OperatorTemplate

open Infer

variable {roots : List Expr}

/-- The tables above a start that solve the typing rules. -/
def Solutions (roots : List Expr) (start : TypeTable) : Set TypeTable :=
  {D | start ≤ D ∧ D.Unchanged roots}

/-- What a loop over roots from `s` ends in. -/
structure IsFixpoint (roots : List Expr) (s s' : InferenceState) : Prop where
  grows : s.Grows s'
  valid : s'.Valid
  least : IsLeast (Solutions roots s.table) s'.table

/-! ## Parts of roots -/

/-- The parts of the roots are listed with their operands. -/
theorem closed_parts (roots : List Expr) : Expr.Closed (Expr.parts roots) :=
  (Expr.added_parts roots).closed

/-- The components of the roots are parts of the roots. -/
theorem component_mem_parts {e : Expr} (he : e ∈ roots.flatMap Expr.components) :
    e ∈ Expr.parts roots := by
  obtain ⟨r, hr, he⟩ := List.mem_flatMap.mp he
  exact Expr.mem_parts_iff.mpr ⟨r, hr, .of_mem_components he⟩

/-- The limit of passes is high enough for every loop: two for each part, and two more. -/
theorem le_passLimit (roots : List Expr) : 2 * (Expr.parts roots).length + 2 ≤ passLimit roots := by
  unfold passLimit
  omega

/-! ## Passes over roots -/

/-- A pass over the roots with a memory is tame beside the plain one. -/
theorem tame_pass (roots : List Expr) :
    Tame (Expr.parts roots) (fun _ => True) (passOver (settle (passLimit roots)) roots)
      (passOver plain roots) :=
  tame_passOver fun e he => ⟨rfl, component_mem_parts he,
    tame_visit (closed_parts roots) (le_passLimit roots) e (component_mem_parts he)⟩

/-- A plain pass over the roots is tame. -/
theorem tame_plainPass (roots : List Expr) :
    Tame (Expr.parts roots) (fun _ => True) (passOver plain roots) (passOver plain roots) :=
  tame_passOver fun e he => ⟨rfl, component_mem_parts he,
    tame_plainVisit (closed_parts roots) e (component_mem_parts he)⟩

/-- A state without a memory is valid. -/
theorem InferenceState.valid_empty (table : TypeTable) : InferenceState.Valid ⟨table, .empty⟩ :=
  ⟨nofun, nofun, nofun⟩

/-- A plain pass that succeeds and leaves every entry writes nothing. -/
theorem TypeTable.Unchanged.exists_run {D : TypeTable} (h : D.Unchanged roots) :
    ∃ after, (passOver plain roots).run.run ⟨D, .empty⟩ = (.ok (), after)
      ∧ after.table.writes = D.writes := by
  obtain ⟨after, hr, same⟩ := h
  have run := (tame_plainPass roots).regular ⟨D, .empty⟩ (InferenceState.valid_empty D)
  rw [hr] at run
  exact ⟨after, hr, run.grows.writes_eq same⟩

/-- A table on which a plain pass is quiet solves the typing rules. -/
theorem TypeTable.unchanged_of_quiet {D : TypeTable} (h : Quiet (passOver plain roots) D ()) :
    D.Unchanged roots :=
  ⟨_, h ⟨D, .empty⟩ rfl, fun _ => rfl⟩

/-- Below a solution `D`, a pass with a memory succeeds and stays below, from every valid state. -/
theorem pass_within {D : TypeTable} (hD : D.Unchanged roots) (s : InferenceState) (hs : s.Valid)
    (hle : s.table ≤ D) :
    ∃ s', (passOver (settle (passLimit roots)) roots).run.run s = (.ok (), s') ∧ s'.table ≤ D := by
  obtain ⟨after, hr, hw⟩ := hD.exists_run
  obtain ⟨⟨⟩, s', hr', hle', -⟩ :=
    (linked_passOver (closed_parts roots) (le_passLimit roots) fun _ he =>
      component_mem_parts he).within ⟨D, .empty⟩ after () (InferenceState.valid_empty D) hr hw s hs hle
  exact ⟨s', hr', hle'⟩

/-! ## Loops over roots -/

/-- A loop over roots is never cut off. -/
theorem runToFixpoint_settles (roots : List Expr) (s : InferenceState) (hs : s.Valid) :
    ((runToFixpoint roots).run.run s).1 ≠ .error .unsettled :=
  settles_repeat (tame_pass roots) _ s hs
    (.inl (by have := s.table.room_le (Expr.parts roots); unfold passLimit; omega))

/-- From a valid state below a solution, the loop over the roots succeeds and stays below. -/
theorem exists_run_of_solution {D : TypeTable} (hD : D.Unchanged roots) {s : InferenceState}
    (hs : s.Valid) (hle : s.table ≤ D) :
    ∃ n s', (runToFixpoint roots).run.run s = (.ok n, s') ∧ s'.table ≤ D :=
  repeat_within (tame_pass roots) (pass_within hD) _ s hs hle (runToFixpoint_settles roots s hs)

/-- If the loop over the roots ends, it ends in the least solution above its start. -/
theorem fixpoint_of_run {s s' : InferenceState} {n : Nat} (hs : s.Valid)
    (hr : (runToFixpoint roots).run.run s = (.ok n, s')) : IsFixpoint roots s s' := by
  have loop := loopRun_repeat (tame_pass roots) (passLimit roots) s hs
  rw [show (repeatUntilSettled _ _).run.run s = (.ok n, s') from hr] at loop
  obtain ⟨-, quiet⟩ := loop.quiet n rfl
  refine ⟨loop.grows, loop.valid, ⟨loop.grows.le, TypeTable.unchanged_of_quiet quiet⟩, ?_⟩
  rintro D ⟨hle, hD⟩
  obtain ⟨n', s₂, hr₂, below⟩ := exists_run_of_solution hD hs hle
  cases hr.symm.trans hr₂
  exact below

/-- From hints, the loop over roots succeeds exactly if the typing rules have a solution above the
hints, and ends in the least one. -/
theorem runToFixpoint_isLeast (roots : List Expr) (hints : TypeHints) :
    ((∃ n s, (runToFixpoint roots).run.run ⟨.ofHints hints, .empty⟩ = (.ok n, s))
        ↔ (Solutions roots (.ofHints hints)).Nonempty)
      ∧ ∀ n s, (runToFixpoint roots).run.run ⟨.ofHints hints, .empty⟩ = (.ok n, s) →
        IsLeast (Solutions roots (.ofHints hints)) s.table := by
  have valid := InferenceState.valid_empty (.ofHints hints)
  refine ⟨⟨?_, ?_⟩, ?_⟩
  · rintro ⟨n, s, hr⟩
    exact ⟨s.table, (fixpoint_of_run valid hr).least.1⟩
  · rintro ⟨D, hle, hD⟩
    obtain ⟨n, s, hr, -⟩ := exists_run_of_solution hD valid hle
    exact ⟨n, s, hr⟩
  · intro n s hr
    exact (fixpoint_of_run valid hr).least

end OperatorTemplate
