import OperatorTemplate.Proofs.Inference.Regular
/-!
# Rules over regular operands

If the visits of its operands are tame, that is regular and repeatable, so is every rule.  The twin
of a rule is the same rule over plain operands (`Operand.Twin`).

A rule is put together from lookups, unifications, writes and visits, so tameness goes from these to
the rule by a sequence (`Tame.bind`), a fold (`Tame.foldlM`) or a loop over a list (`Tame.forM`).
In addition a rule answers no unknown type, and what it is told by its operands is what makes that
so: their answers are known, and a unification says at least as much (`Tame.unify`).
-/

namespace OperatorTemplate

open Infer

variable {α β γ : Type} {ps : List Expr}

/-! ## Tame actions -/

/-- Regular beside its plain twin, and repeatable. -/
structure Tame (ps : List Expr) (P : α → Prop) (action twin : Infer α) : Prop where
  regular : Regular ps P action twin
  repeatable : Repeatable action

namespace Tame

variable {P : α → Prop} {Q : β → Prop}

/-- A tame action is tame with every weaker condition `P'` on its answers. -/
theorem mono {P' : α → Prop} {action twin : Infer α} (h : Tame ps P action twin)
    (hP : ∀ a, P a → P' a) : Tame ps P' action twin :=
  ⟨h.regular.mono hP, h.repeatable⟩

/-- A constant answer is tame. -/
theorem pure {a : α} (h : P a) : Tame ps P (Pure.pure a) (Pure.pure a) := by
  refine ⟨Regular.pure h, fun s _ b s' hr _ s₂ _ => ?_⟩
  obtain ⟨rfl, -⟩ := run_pure_eq_ok.mp hr
  rfl

/-- A failure is tame, unless it is that of a loop that was cut off. -/
theorem throw {cause : TypeError} (h : cause ≠ .unsettled) :
    Tame ps P (MonadExcept.throw cause) (MonadExcept.throw cause) :=
  ⟨Regular.throw h, fun _ _ _ _ hr => absurd hr run_throw_ne_ok⟩

/-- A lookup is tame. -/
theorem known (e : Expr) : Tame ps (fun _ => True) (Infer.known e) (Infer.known e) := by
  refine ⟨Regular.known e, fun s _ t s' hr _ s₂ hs₂ => ?_⟩
  cases hr
  rw [run_known, TypeTable.get_congr hs₂.types]

/-- An answer that does not depend on the state is tame. -/
theorem lift {answer : Except TypeError α} (hc : answer ≠ .error .unsettled)
    (h : ∀ a, answer = .ok a → P a) : Tame ps P (liftM answer) (liftM answer) := by
  refine ⟨Regular.lift hc h, fun s _ a s' hr _ s₂ _ => ?_⟩
  cases answer with
  | error cause => nomatch congrArg Prod.fst hr
  | ok b =>
    cases hr
    rfl

/-- A unification is tame, and answers a type above both sides. -/
theorem unify (a b : FieldType) (e : Option Expr) :
    Tame ps (fun c => a ≤ c ∧ b ≤ c) (liftM (a.unify b e)) (liftM (a.unify b e)) :=
  lift FieldType.unify_ne_unsettled fun _ h =>
    ⟨(FieldType.joins_of_unify h).left, (FieldType.joins_of_unify h).right⟩

/-- A write for one of the expressions `ps` is tame: what it has written is known when it is
repeated. -/
theorem write {e : Expr} (he : e ∈ ps) (t : FieldType) :
    Tame ps (fun _ => True) (Infer.write e t) (Infer.write e t) := by
  refine ⟨Regular.write he t, fun s _ u s' hr hw s₂ hs₂ => ?_⟩
  obtain ⟨written, -⟩ := written_of_run hr
  have known : t ≤ s'.table.get e := written.joins.right
  exact run_write_of_le (by rw [TypeTable.get_congr hs₂.types]; exact known)

/-- A sequence is tame if its steps are.  If the whole has written nothing, neither step has, so
each can be repeated from a state that covers the last one. -/
theorem bind {action twin : Infer α} {next next' : α → Infer β} (ha : Tame ps P action twin)
    (hn : ∀ a, P a → Tame ps Q (next a) (next' a)) :
    Tame ps Q (action >>= next) (twin >>= next') := by
  refine ⟨ha.regular.bind fun a h => (hn a h).regular, fun s hs b s' hr hw s₂ hs₂ => ?_⟩
  obtain ⟨a, s₁, hr₁, hr'⟩ := run_bind_eq_ok.mp hr
  have first := ha.regular s hs
  rw [hr₁] at first
  have ha' := first.returns a rfl
  have second := (hn a ha').regular s₁ first.valid
  rw [hr'] at second
  -- neither step has written anything
  have hw₁ : s.table.writes ≤ s₁.table.writes := first.grows.writes
  have hw₂ : s₁.table.writes ≤ s'.table.writes := second.grows.writes
  have covered := second.covers (show s'.table.writes = s₁.table.writes by omega)
  exact run_bind_eq_ok.mpr ⟨a, s₂,
    ha.repeatable s hs a s₁ hr₁ (by omega) s₂ (hs₂.trans covered),
    (hn a ha').repeatable s₁ first.valid b s' hr' (by omega) s₂ hs₂⟩

/-- An action whose answer is dropped, before another one. -/
theorem drop {action twin : Infer α} {next next' : Infer β} (ha : Tame ps P action twin)
    (hn : Tame ps Q next next') :
    Tame ps Q (do let _ ← action; next) (do let _ ← twin; next') :=
  ha.bind fun _ _ => hn

/-- A fold over related lists is tame if its steps are. -/
theorem foldlM {R : γ → γ → Prop} {f f' : α → γ → Infer α} {xs xs' : List γ}
    (h : List.Forall₂ R xs xs') (hf : ∀ a x x', P a → R x x' → Tame ps P (f a x) (f' a x'))
    {a : α} (ha : P a) : Tame ps P (xs.foldlM f a) (xs'.foldlM f' a) := by
  induction h generalizing a with
  | nil => exact pure ha
  | cons hx _ ih =>
    rw [List.foldlM_cons, List.foldlM_cons]
    exact bind (hf _ _ _ ha hx) fun _ hb => ih hb

/-- Actions over related lists are tame one after the other if each of them is. -/
theorem forM {R : γ → γ → Prop} {f f' : γ → Infer PUnit} {xs xs' : List γ}
    (h : List.Forall₂ R xs xs')
    (hf : ∀ x x', R x x' → Tame ps (fun _ => True) (f x) (f' x')) :
    Tame ps (fun _ => True) (xs.forM f) (xs'.forM f') := by
  induction h with
  | nil => exact pure trivial
  | cons hx _ ih => exact bind (hf _ _ hx) fun _ _ => ih

end Tame

/-! ## Operands -/

/-- Two operands that are one expression, the first with a tame visit, the second with the plain
twin of it. -/
structure Operand.Twin (ps : List Expr) (o o' : Operand) : Prop where
  expr : o'.expr = o.expr
  mem : o.expr ∈ ps
  visit : Tame ps (· ≠ .unknown) o.visit o'.visit

/-- To write something down for an operand and visit it is tame if the visit is. -/
theorem Operand.Twin.pin {o o' : Operand} (h : o.Twin ps o') (t : FieldType) :
    Tame ps (· ≠ .unknown) (o.pin t) (o'.pin t) := by
  unfold Operand.pin
  rw [h.expr]
  exact Tame.drop (Tame.write h.mem t) h.visit

/-! ## Rules -/

namespace Rule

/-- The rule that adds a known type `t` to what is known of `e` is tame. -/
theorem tame_unifyKnown {t : FieldType} (ht : t ≠ .unknown) (e : Expr) :
    Tame ps (· ≠ .unknown) (unifyKnown t e) (unifyKnown t e) :=
  Tame.bind (Tame.known e) fun known _ =>
    (Tame.unify t known (some e)).mono fun _ hc hu => ht (FieldType.eq_unknown_of_le (hu ▸ hc.1))

/-- The rules of atoms are tame: they have no operands. -/
theorem tame_atom : (a : Atom) → Tame ps (· ≠ .unknown) (atom a) (atom a)
  | .constant _ | .parameter _ | .variable _ | .ones _ | .coordinate _ _ | .normal _ _ (some _)
  | .normal _ _ none => tame_unifyKnown (by nofun) _
  | .jacobian _ | .forwardMetric _ _ | .inverseMetric _ _ => Tame.pure nofun
  | .kernelNormal _ => Tame.throw nofun

/-- What is known of an agreement: its vectors are operands, and it has a type if it has vectors. -/
structure Agreement.Sound (ps : List Expr) (g : Agreement) : Prop where
  vectors : ∀ v ∈ g.vectors, v ∈ ps
  type : g.vectors ≠ [] → g.type ≠ .unknown

/-- To take one more operand into an agreement is tame, and keeps the agreement sound. -/
theorem tame_add {g : Agreement} (hg : g.Sound ps) {o o' : Operand} (h : o.Twin ps o') :
    Tame ps (Agreement.Sound ps) (g.add o) (g.add o') := by
  unfold Agreement.add
  rw [h.expr]
  refine Tame.bind h.visit fun t ht => ?_
  -- a scalar operand leaves the agreement as it is; a vector is added to it
  split
  · exact Tame.pure hg
  · refine Tame.bind (Tame.unify g.type t (some o.expr)) fun c hc => Tame.pure ⟨?_, ?_⟩
    · intro v hv
      rcases List.mem_append.mp hv with hv | hv
      · exact hg.vectors v hv
      · rw [List.mem_singleton.mp hv]
        exact h.mem
    · exact fun _ hu => ht (FieldType.eq_unknown_of_le (hu ▸ hc.2))

/-- The rule of arithmetic is tame over operands with tame visits. -/
theorem tame_arithmetic (e : Expr) {os os' : List Operand}
    (h : List.Forall₂ (Operand.Twin ps) os os') :
    Tame ps (· ≠ .unknown) (arithmetic e os) (arithmetic e os') := by
  refine Tame.bind (Tame.known e) fun t _ => ?_
  refine Tame.bind (Tame.foldlM h (fun _ _ _ hg ho => tame_add hg ho)
    ⟨nofun, fun h => absurd rfl h⟩) fun g hg => ?_
  -- without vectors the node is scalar; else the type is written down for each vector
  split
  · exact Tame.pure nofun
  next hv =>
    have hv : g.vectors ≠ [] := fun h => hv (by rw [h]; rfl)
    refine Tame.drop (Tame.forM (R := fun v v' => v' = v ∧ v ∈ ps) ?_ ?_) (Tame.pure (hg.type hv))
    · exact List.forall₂_same.mpr fun v hv => ⟨rfl, hg.vectors v hv⟩
    · rintro v _ ⟨rfl, hv⟩
      exact Tame.write hv g.type

/-- Two inputs of a flux that are one, over related operands. -/
inductive FluxInput.Over (R : Operand → Operand → Prop) : FluxInput → FluxInput → Prop
  | field (domain : FieldType) {o o' : Operand} (h : R o o') :
    Over R (.field domain o) (.field domain o')
  | stray (e : Expr) : Over R (.stray e) (.stray e)

/-- To pin one input of a flux to what the inputs before it share is tame. -/
theorem tame_fluxInput (shared : FieldType) {i i' : FluxInput}
    (h : i.Over (Operand.Twin ps) i') :
    Tame ps (fun _ => True) (fluxInput shared i) (fluxInput shared i') := by
  cases h with
  | stray e => exact Tame.throw nofun
  | field domain h =>
    simp only [fluxInput, h.expr]
    exact Tame.bind (Tame.unify domain shared _) fun t _ =>
      Tame.bind (h.pin t) fun _ _ => Tame.pure trivial

/-- The rule of a flux is tame over inputs with tame visits. -/
theorem tame_flux {is is' : List FluxInput} (h : List.Forall₂ (FluxInput.Over (Operand.Twin ps)) is is') :
    Tame ps (· ≠ .unknown) (flux is) (flux is') :=
  Tame.drop (Tame.foldlM h (fun shared _ _ _ hi => tame_fluxInput shared hi) trivial)
    (Tame.pure nofun)

/-- The rule of an exchange is tame over arguments with tame visits. -/
theorem tame_exchange (rank : Nat) {os os' : List Operand}
    (h : List.Forall₂ (Operand.Twin ps) os os') :
    Tame ps (· ≠ .unknown) (exchange rank os) (exchange rank os') :=
  Tame.drop (Tame.forM h fun _ _ ho => Tame.drop (ho.pin _) (Tame.pure trivial))
    (Tame.pure nofun)

/-- The rule of an operator that is not a flux is tame over an operand with a tame visit. -/
theorem tame_application (op : Operator) (e : Expr) {o o' : Operand} (h : o.Twin ps o') :
    Tame ps (· ≠ .unknown) (application op e o) (application op e o') := by
  have vector {t c : FieldType} (ht : t ≠ .unknown) (hc : t ≤ c) : c ≠ .unknown :=
    fun hu => ht (FieldType.eq_unknown_of_le (hu ▸ hc))
  unfold application
  rw [h.expr]
  -- most operators pin the operand and answer a type that they know; a maximum, a restriction and
  -- an interpolation share their type, or a part of it, with the operand
  cases op with
  | reduce _ | referenceQuadratureStiffnessTransposed _ _ | referenceQuadratureMass _
  | stiffnessTransposed _ | referenceStiffnessTransposed _ | derivative _ _
  | referenceDerivative _ _ | elementwise _ | upsampleInteriorFaces _ | upsampleBoundary _ _ =>
    exact Tame.drop (h.pin _) (Tame.pure nofun)
  | mass kind | referenceMass kind =>
    cases kind <;> exact Tame.drop (h.pin _) (Tame.pure nofun)
  | elementwiseMax =>
    exact Tame.bind (Tame.known e) fun _ _ => Tame.bind (Tame.unify _ _ _) fun t _ => h.pin t
  | restrict tag =>
    exact Tame.bind (Tame.known e) fun _ _ => Tame.bind (Tame.unify _ _ _) fun t _ =>
      Tame.drop (h.pin t) (Tame.bind (Tame.known _) fun _ _ =>
        (Tame.unify _ _ _).mono fun _ hc => vector (by nofun) hc.1)
  | upsample grid =>
    exact Tame.bind (Tame.known e) fun _ _ => Tame.drop (h.pin _)
      (Tame.bind (Tame.known _) fun _ _ => (Tame.unify _ _ _).mono fun _ hc => vector (by nofun) hc.1)
  | flux _ | exchange _ _ | external _ => exact Tame.throw nofun

end Rule

end OperatorTemplate
