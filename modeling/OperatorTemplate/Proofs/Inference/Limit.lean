import OperatorTemplate.Proofs.Inference.Visit
/-!
# Limits that do not show

Every loop of inference is cut off after a number of passes, with an error of its own.  Where that
error does not come up the limit does not show: under a higher limit every action runs the same way
(`Approximates`), however deep its loops are nested (`approximates_runToFixpoint`).  A loop that is
not cut off runs like one without a limit (`run_repeat_unlimited`).

What is always cut off approximates everything, which is the start of the induction on the limit;
and sequences respect approximation because an error of the first step is the error of the sequence:
if the sequence is not cut off, neither is its first step (`Approximates.bind`).  The rules only use
sequences, so no rule needs an argument of its own.
-/

namespace OperatorTemplate

open Infer

variable {α β γ : Type}

/-! ## Approximations -/

/-- Unless `action` is cut off, `action'` runs the same way. -/
def Approximates (action action' : Infer α) : Prop :=
  ∀ s, (action.run.run s).1 ≠ .error .unsettled → action'.run.run s = action.run.run s

namespace Approximates

/-- An action approximates itself. -/
theorem refl (action : Infer α) : Approximates action action := fun _ _ => rfl

/-- What is always cut off approximates everything. -/
theorem cut (action : Infer α) : Approximates (throw .unsettled) action := fun _ h => absurd rfl h

/-- A sequence approximates another if its steps approximate those of the other. -/
theorem bind {action action' : Infer α} {next next' : α → Infer β}
    (ha : Approximates action action') (hn : ∀ a, Approximates (next a) (next' a)) :
    Approximates (action >>= next) (action' >>= next') := by
  intro s h
  rcases run_bind_cases action next s with ⟨cause, s', hr, hrun⟩ | ⟨a, s', hr, hrun⟩
  · -- the first step fails, but not because it is cut off
    rw [hrun] at h ⊢
    have hr' : action'.run.run s = (.error cause, s') := by
      rw [ha s, hr]
      rw [hr]
      exact fun hc => h (congrArg Except.error (Except.error.inj hc))
    rcases run_bind_cases action' next' s with ⟨_, _, hr'', hrun'⟩ | ⟨_, _, hr'', -⟩ <;>
      cases hr'.symm.trans hr''
    exact hrun'
  · rw [hrun] at h ⊢
    have hr' : action'.run.run s = (.ok a, s') := by
      rw [ha s, hr]
      rw [hr]
      nofun
    rcases run_bind_cases action' next' s with ⟨_, _, hr'', -⟩ | ⟨_, _, hr'', hrun'⟩ <;>
      cases hr'.symm.trans hr''
    rw [hrun', hn a s' h]

/-- A fold over a list approximates one over a related list if its steps do. -/
theorem foldlM {R : γ → γ → Prop} {f f' : α → γ → Infer α} {xs xs' : List γ}
    (h : List.Forall₂ R xs xs') (hf : ∀ a x x', R x x' → Approximates (f a x) (f' a x')) (a : α) :
    Approximates (xs.foldlM f a) (xs'.foldlM f' a) := by
  induction h generalizing a with
  | nil => exact refl _
  | cons hx _ ih =>
    rw [List.foldlM_cons, List.foldlM_cons]
    exact bind (hf a _ _ hx) ih

/-- Actions one after the other approximate others if each of them does. -/
theorem forM {R : γ → γ → Prop} {f f' : γ → Infer PUnit} {xs xs' : List γ}
    (h : List.Forall₂ R xs xs') (hf : ∀ x x', R x x' → Approximates (f x) (f' x')) :
    Approximates (xs.forM f) (xs'.forM f') := by
  induction h with
  | nil => exact refl _
  | cons hx _ ih => exact bind (hf _ _ hx) fun _ => ih

end Approximates

/-! ## Loops -/

/-- A loop of `pass` approximates every loop with a limit as high, of a pass that `pass`
approximates. -/
theorem approximates_repeat {pass pass' : Infer Unit} (h : Approximates pass pass')
    {limit limit' : Nat} (hle : limit ≤ limit') :
    Approximates (repeatUntilSettled pass limit) (repeatUntilSettled pass' limit') := by
  induction limit generalizing limit' with
  | zero => exact .cut _
  | succ limit ih =>
    obtain ⟨limit', rfl⟩ : ∃ k, limit' = k + 1 := ⟨limit' - 1, by omega⟩
    -- both loops clear the flag, make a pass, and ask for the flag
    refine .bind (.refl _) fun _ => ?_
    refine .bind h fun _ => ?_
    refine .bind (.refl _) fun s => ?_
    split
    · exact .bind (ih (by omega)) fun _ => .refl _
    · exact .refl _

/-- Unless it is cut off, a loop unfolds like a loop without a limit. -/
theorem run_repeat_unlimited {pass : Infer Unit} {limit : Nat} {s : InferenceState}
    (h : ((repeatUntilSettled pass limit).run.run s).1 ≠ .error .unsettled) :
    (repeatUntilSettled pass limit).run.run s = (do
      updateTable TypeTable.settle
      pass
      if (← get).table.changed then return (← repeatUntilSettled pass limit) + 1
      else return 1 : Infer Nat).run.run s :=
  (approximates_repeat (.refl pass) (Nat.le_succ limit) s h).symm

/-! ## Rules -/

/-- Two operands that are one expression, with a visit that approximates the other. -/
structure Operand.Approximates (o o' : Operand) : Prop where
  expr : o'.expr = o.expr
  visit : OperatorTemplate.Approximates o.visit o'.visit

/-- To write something down for an operand and visit it: an approximation if the visit is. -/
theorem Operand.Approximates.pin {o o' : Operand} (h : o.Approximates o') (t : FieldType) :
    OperatorTemplate.Approximates (o.pin t) (o'.pin t) := by
  unfold Operand.pin
  rw [h.expr]
  exact .bind (.refl _) fun _ => h.visit

namespace Rule

/-- To take one more operand into an agreement: an approximation if the visit of the operand is. -/
theorem approximates_add (g : Agreement) {o o' : Operand} (h : o.Approximates o') :
    Approximates (g.add o) (g.add o') := by
  unfold Agreement.add
  rw [h.expr]
  exact .bind h.visit fun _ => .refl _

/-- The rule of arithmetic, over operands with approximating visits. -/
theorem approximates_arithmetic (e : Expr) {os os' : List Operand}
    (h : List.Forall₂ Operand.Approximates os os') :
    Approximates (arithmetic e os) (arithmetic e os') := by
  refine .bind (.refl _) fun t => ?_
  refine .bind (.foldlM h (fun g _ _ ho => ?_) _) fun g => .refl _
  exact approximates_add g ho

/-- To pin one input of a flux to what the inputs before it share. -/
theorem approximates_fluxInput (shared : FieldType) {i i' : FluxInput}
    (h : i.Over Operand.Approximates i') :
    Approximates (fluxInput shared i) (fluxInput shared i') := by
  cases h with
  | stray e => exact .refl _
  | field domain h =>
    simp only [fluxInput, h.expr]
    exact .bind (.refl _) fun t => .bind (h.pin t) fun _ => .refl _

/-- The rule of a flux, over inputs with approximating visits. -/
theorem approximates_flux {is is' : List FluxInput}
    (h : List.Forall₂ (FluxInput.Over Operand.Approximates) is is') :
    Approximates (flux is) (flux is') := by
  refine .bind (.foldlM h (fun shared _ _ hi => ?_) _) fun _ => .refl _
  exact approximates_fluxInput shared hi

/-- The rule of an exchange, over arguments with approximating visits. -/
theorem approximates_exchange (rank : Nat) {os os' : List Operand}
    (h : List.Forall₂ Operand.Approximates os os') :
    Approximates (exchange rank os) (exchange rank os') := by
  refine .bind (.forM h fun _ _ ho => ?_) fun _ => .refl _
  exact .bind (ho.pin _) fun _ => .refl _

/-- The rule of an operator that is not a flux, over an operand with an approximating visit. -/
theorem approximates_application (op : Operator) (e : Expr) {o o' : Operand}
    (h : o.Approximates o') : Approximates (application op e o) (application op e o') := by
  unfold application
  rw [h.expr]
  cases op with
  | reduce _ | referenceQuadratureStiffnessTransposed _ _ | referenceQuadratureMass _
  | stiffnessTransposed _ | referenceStiffnessTransposed _ | derivative _ _
  | referenceDerivative _ _ | elementwise _ | upsampleInteriorFaces _ | upsampleBoundary _ _ =>
    exact .bind (h.pin _) fun _ => .refl _
  | mass kind | referenceMass kind =>
    cases kind <;> exact .bind (h.pin _) fun _ => .refl _
  | elementwiseMax =>
    exact .bind (.refl _) fun _ => .bind (.refl _) fun t => h.pin t
  | restrict _ =>
    exact .bind (.refl _) fun _ => .bind (.refl _) fun t => .bind (h.pin t) fun _ => .refl _
  | upsample _ =>
    exact .bind (.refl _) fun _ => .bind (h.pin _) fun _ => .refl _
  | flux _ | exchange _ _ | external _ => exact .refl _

end Rule

/-! ## Visits -/

/-- The visit of a node approximates another if the inference of the node does. -/
theorem approximates_visit_of_infer {o o' : Operand} (he : o'.expr = o.expr)
    (h : Approximates o.infer o'.infer) : o.Approximates o' := by
  refine ⟨he, ?_⟩
  unfold Operand.visit
  rw [he]
  exact .bind h fun _ => .refl _

/-- The rules approximate each other over operands with approximating visits. -/
theorem rulesRelate_approximates : RulesRelate Operand.Approximates Approximates where
  atom _ := .refl _
  subscript _ := .refl _
  arithmetic := Rule.approximates_arithmetic
  application := Rule.approximates_application
  flux := Rule.approximates_flux
  exchange := Rule.approximates_exchange
  unsupported _ := .refl _

variable {limit limit' : Nat}

/-- The rule of a common subexpression approximates the one under a higher limit. -/
theorem approximates_settle (hle : limit ≤ limit') (e : Expr) {o o' : Operand}
    (h : o.Approximates o') : Approximates (settle limit e o) (settle limit' e o') := by
  refine .bind (.refl _) fun found => ?_
  cases found with
  | some t => exact .refl _
  | none =>
    have pass : Approximates (do let _ ← o.visit) (do let _ ← o'.visit) :=
      .bind h.visit fun _ => .refl _
    simp only [renew, h.expr]
    refine .bind (.refl _) fun known => ?_
    refine .bind (.refl _) fun _ => ?_
    exact .bind (approximates_repeat pass hle) fun _ => .refl _

/-- The visit of `e` approximates the one under a higher limit.  By induction on the size of `e`. -/
theorem approximates_visit (hle : limit ≤ limit') (e : Expr) :
    Operand.Approximates ⟨e, inferWith (settle limit) e⟩ ⟨e, inferWith (settle limit') e⟩ := by
  have below (x : Expr) (_ : x.size < e.size) :
      Operand.Approximates ⟨x, inferWith (settle limit) x⟩ ⟨x, inferWith (settle limit') x⟩ :=
    approximates_visit hle x
  refine approximates_visit_of_infer rfl ?_
  show Approximates (inferWith (settle limit) e) (inferWith (settle limit') e)
  by_cases hs : e.isShared = true
  · cases e with
    | shared body label =>
      rw [inferWith_shared, inferWith_shared]
      exact approximates_settle hle _
        (below body (Expr.size_lt_of_mem_children List.mem_cons_self))
    | _ => nomatch hs
  · rw [inferWith_eq, inferWith_eq]
    exact rulesRelate_approximates.inferStep (by simpa using hs) _ _ fun x hx _ => below x hx
termination_by e.size

/-! ## Roots -/

/-- Passes over the roots, with a limit for them and for every loop inside. -/
def runToFixpointWithin (limit : Nat) (roots : List Expr) : Infer Nat :=
  repeatUntilSettled (passOver (settle limit) roots) limit

/-- A loop over the roots approximates the one under a higher limit, for all its loops inside too.
-/
theorem approximates_runToFixpoint (hle : limit ≤ limit') (roots : List Expr) :
    Approximates (runToFixpointWithin limit roots) (runToFixpointWithin limit' roots) := by
  refine approximates_repeat (.forM (R := Operand.Approximates) ?_ fun _ _ ho =>
    .bind ho.visit fun _ => .refl _) hle
  unfold rootOperands
  rw [List.forall₂_map_left_iff, List.forall₂_map_right_iff]
  exact List.forall₂_same.mpr fun e _ => approximates_visit hle e

end OperatorTemplate
