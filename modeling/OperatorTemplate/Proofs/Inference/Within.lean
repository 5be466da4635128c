import OperatorTemplate.Proofs.Inference.Visit
/-!
# Inference below a solution

Let a plain action succeed on a table `d` without a write.  Run from any table below `d`, the same
action with a memory succeeds as well and stays below `d`, and its answer says at most as much
(`Linked`).  So no solution of the typing rules is ever left behind: inference meets no conflict
that a solution does not have (`linked_visit`).

The two actions may differ in what they have read before, so rules are walked through once more,
this time with two different sets of arguments, the first of which says less.  Lookups, unifications
and writes respect this; for a unification it is the crux that two types with a common upper bound
can be unified, and that the result is below the bound (`Linked.unify`).

A common subexpression is where the two actions do different things (`linked_settle`): the plain
rule visits the body once, and the rule with a memory may run a loop over it, or not look at it at
all.  The plain rule has written nothing, so on `d` the plain visit of the body is silent; every
pass of the loop is linked with that visit, so the loop stays below `d` (`repeat_within`), and what
it answers is below the type of the body in `d`.
-/

namespace OperatorTemplate

open Infer

variable {α β γ : Type} {ps : List Expr}

/-! ## Linked actions -/

/-- Below a table on which `twin` succeeds without a write, `action` succeeds and stays below; their
answers satisfy `P` and are related by `R`. -/
structure Linked (ps : List Expr) (P : α → Prop) (R : α → α → Prop) (action twin : Infer α) :
    Prop where
  regular : ∃ other, Regular ps P action other
  plain : ∃ other, Regular ps P twin other
  within : ∀ (d d' : InferenceState) (b : α), d.Valid → twin.run.run d = (.ok b, d') →
    d'.table.writes = d.table.writes → ∀ s : InferenceState, s.Valid → s.table ≤ d.table →
    ∃ a s', action.run.run s = (.ok a, s') ∧ s'.table ≤ d.table ∧ R a b

namespace Linked

variable {P : α → Prop} {Q : β → Prop} {R : α → α → Prop} {S : β → β → Prop}

/-- Linked actions are linked with every weaker condition `P'` on their answers. -/
theorem mono {P' : α → Prop} {action twin : Infer α} (h : Linked ps P R action twin)
    (hP : ∀ a, P a → P' a) : Linked ps P' R action twin where
  regular := h.regular.imp fun _ h => h.mono hP
  plain := h.plain.imp fun _ h => h.mono hP
  within := h.within

/-- Two constant answers are linked if they are related. -/
theorem pure {a b : α} (ha : P a) (hb : P b) (h : R a b) :
    Linked ps P R (Pure.pure a) (Pure.pure b) where
  regular := ⟨_, Regular.pure ha⟩
  plain := ⟨_, Regular.pure hb⟩
  within d d' c _ hr _ s _ hs := by
    obtain ⟨rfl, rfl⟩ := run_pure_eq_ok.mp hr
    exact ⟨a, s, rfl, hs, h⟩

/-- Failures are linked, since the twin does not succeed. -/
theorem throw {cause : TypeError} (h : cause ≠ .unsettled) :
    Linked ps P R (MonadExcept.throw cause) (MonadExcept.throw cause) where
  regular := ⟨_, Regular.throw h⟩
  plain := ⟨_, Regular.throw h⟩
  within _ _ _ _ hr := absurd hr run_throw_ne_ok

/-- Lookups are linked: the table below says less. -/
theorem known (e : Expr) : Linked ps (fun _ => True) (· ≤ ·) (Infer.known e) (Infer.known e) where
  regular := ⟨_, Regular.known e⟩
  plain := ⟨_, Regular.known e⟩
  within d d' b _ hr _ s _ hs := by
    cases hr
    exact ⟨s.table.get e, s, rfl, hs, hs e⟩

/-- Unifications are linked if both sides of the first say less than those of the second: the answer
of the twin bounds them. -/
theorem unify {a b a' b' : FieldType} (ha : a ≤ a') (hb : b ≤ b') (e : Option Expr) :
    Linked ps (fun c => a ≤ c ∧ b ≤ c) (· ≤ ·) (liftM (a.unify b e)) (liftM (a'.unify b' e)) where
  regular := ⟨_, (Tame.unify a b e).regular⟩
  plain := ⟨_, (Tame.unify a' b' e).regular.mono fun _ h => ⟨ha.trans h.1, hb.trans h.2⟩⟩
  within d d' c' _ hr _ s _ hs := by
    cases hu : a'.unify b' e with
    | error cause =>
      rw [hu] at hr
      nomatch congrArg Prod.fst hr
    | ok c =>
      rw [hu] at hr
      cases hr
      obtain ⟨c, hc, hle⟩ := FieldType.unify_mono (e := e) ha hb hu
      refine ⟨c, s, ?_, hs, hle⟩
      rw [hc]
      rfl

/-- Writes for one of the expressions `ps` are linked if the first one says less: the twin has
written nothing, so `d` says what is written. -/
theorem write {e : Expr} (he : e ∈ ps) {t t' : FieldType} (ht : t ≤ t') :
    Linked ps (fun _ => True) (fun _ _ => True) (Infer.write e t) (Infer.write e t') where
  regular := ⟨_, Regular.write he t⟩
  plain := ⟨_, Regular.write he t'⟩
  within d d' _ _ hr hw s _ hs := by
    obtain ⟨written, -⟩ := written_of_run hr
    have known : t ≤ d.table.get e := ht.trans (written.eq_of_writes hw ▸ written.joins.right)
    obtain ⟨table, hset⟩ := TypeTable.exists_set_of_le hs known
    exact ⟨(), _, run_write_of_ok hset, (TypeTable.set_spec hset).le_of_le hs known, trivial⟩

/-- Sequences are linked if their steps are.  Neither step of the twin has written anything, so the
table from which its second step starts has the entries of `d`. -/
theorem bind {action twin : Infer α} {next next' : α → Infer β} (ha : Linked ps P R action twin)
    (hR : ∀ a, P a → R a a)
    (hn : ∀ a b, P a → P b → R a b → Linked ps Q S (next a) (next' b)) :
    Linked ps Q S (action >>= next) (twin >>= next') := by
  obtain ⟨other, hother⟩ := ha.regular
  obtain ⟨plain, hplain⟩ := ha.plain
  have regular (a : α) (h : P a) := (hn a a h h (hR a h)).regular
  have plains (a : α) (h : P a) := (hn a a h h (hR a h)).plain
  have : Nonempty (Infer β) := ⟨MonadExcept.throw .unsettled⟩
  choose! others hothers using regular
  choose! plain' hplain' using plains
  refine ⟨⟨_, hother.bind hothers⟩, ⟨_, hplain.bind hplain'⟩, ?_⟩
  intro d d' c hd hr hw s hs hle
  obtain ⟨b, d₁, hr₁, hr₂⟩ := run_bind_eq_ok.mp hr
  have first := hplain d hd
  rw [hr₁] at first
  have hb := first.returns b rfl
  have second := hplain' b hb d₁ first.valid
  rw [hr₂] at second
  -- neither step of the twin has written anything
  have hw₁ : d.table.writes ≤ d₁.table.writes := first.grows.writes
  have hw₂ : d₁.table.writes ≤ d'.table.writes := second.grows.writes
  have types := first.grows.types_eq (show d₁.table.writes = d.table.writes by omega)
  obtain ⟨a, s₁, hs₁, hle₁, hab⟩ := ha.within d d₁ b hd hr₁ (by omega) s hs hle
  have run := hother s hs
  rw [hs₁] at run
  obtain ⟨x, s₂, hs₂, hle₂, hxy⟩ := (hn a b (run.returns a rfl) hb hab).within d₁ d' c first.valid hr₂
    (by omega) s₁ run.valid (le_trans hle₁ first.grows.le)
  refine ⟨x, s₂, run_bind_eq_ok.mpr ⟨a, s₁, hs₁, hs₂⟩, fun e => ?_, hxy⟩
  rw [← TypeTable.get_congr types e]
  exact hle₂ e

/-- Linked actions whose answers are dropped, before others. -/
theorem drop {action twin : Infer α} {next next' : Infer β} (ha : Linked ps P R action twin)
    (hR : ∀ a, P a → R a a) (hn : Linked ps Q S next next') :
    Linked ps Q S (do let _ ← action; next) (do let _ ← twin; next') :=
  bind ha hR fun _ _ _ _ _ => hn

/-- Folds over related lists are linked if their steps are. -/
theorem foldlM {T : γ → γ → Prop} {f f' : α → γ → Infer α} {xs xs' : List γ}
    (h : List.Forall₂ T xs xs') (hR : ∀ a, P a → R a a)
    (hf : ∀ a b x x', P a → P b → R a b → T x x' → Linked ps P R (f a x) (f' b x'))
    {a b : α} (ha : P a) (hb : P b) (hab : R a b) :
    Linked ps P R (xs.foldlM f a) (xs'.foldlM f' b) := by
  induction h generalizing a b with
  | nil => exact pure ha hb hab
  | cons hx _ ih =>
    rw [List.foldlM_cons, List.foldlM_cons]
    exact bind (hf _ _ _ _ ha hb hab hx) hR fun _ _ hc hd hcd => ih hc hd hcd

/-- Actions over related lists are linked one after the other if each of them is. -/
theorem forM {T : γ → γ → Prop} {f f' : γ → Infer PUnit} {xs xs' : List γ}
    (h : List.Forall₂ T xs xs')
    (hf : ∀ x x', T x x' → Linked ps (fun _ => True) (fun _ _ => True) (f x) (f' x')) :
    Linked ps (fun _ => True) (fun _ _ => True) (xs.forM f) (xs'.forM f') := by
  induction h with
  | nil => exact pure trivial trivial trivial
  | cons hx _ ih => exact drop (hf _ _ hx) (fun _ _ => trivial) ih

end Linked

/-! ## Operands -/

/-- Two operands that are one expression, with linked visits. -/
structure Operand.Linked (ps : List Expr) (o o' : Operand) : Prop where
  expr : o'.expr = o.expr
  mem : o.expr ∈ ps
  visit : OperatorTemplate.Linked ps (· ≠ .unknown) (· ≤ ·) o.visit o'.visit

/-- To write something down for an operand and visit it: linked if the visits are, and if the first
action writes less. -/
theorem Operand.Linked.pin {o o' : Operand} (h : o.Linked ps o') {t t' : FieldType} (ht : t ≤ t') :
    OperatorTemplate.Linked ps (· ≠ .unknown) (· ≤ ·) (o.pin t) (o'.pin t') := by
  unfold Operand.pin
  rw [h.expr]
  exact Linked.drop (Linked.write h.mem ht) (fun _ _ => trivial) h.visit

/-! ## Rules -/

namespace Rule

/-- The rule that adds a known type `t` to what is known of `e` is linked with itself. -/
theorem linked_unifyKnown {t : FieldType} (ht : t ≠ .unknown) (e : Expr) :
    Linked ps (· ≠ .unknown) (· ≤ ·) (unifyKnown t e) (unifyKnown t e) :=
  Linked.bind (Linked.known e) (fun _ _ => le_refl _) fun _ _ _ _ hab =>
    (Linked.unify (le_refl t) hab (some e)).mono fun _ hc hu =>
      ht (FieldType.eq_unknown_of_le (hu ▸ hc.1))

/-- The rules of atoms are linked with themselves. -/
theorem linked_atom : (a : Atom) → Linked ps (· ≠ .unknown) (· ≤ ·) (atom a) (atom a)
  | .constant _ | .parameter _ | .variable _ | .ones _ | .coordinate _ _ | .normal _ _ (some _)
  | .normal _ _ none => linked_unifyKnown (by nofun) _
  | .jacobian _ | .forwardMetric _ _ | .inverseMetric _ _ => Linked.pure nofun nofun (le_refl _)
  | .kernelNormal _ => Linked.throw nofun

/-- One agreement says less than another, about the same operands. -/
structure Agreement.Less (g g' : Agreement) : Prop where
  type : g.type ≤ g'.type
  vectors : g.vectors = g'.vectors

/-- Two agreements, the first of which says less, take in one more operand each. -/
theorem linked_add {g g' : Agreement} (hg : g.Sound ps) (hg' : g'.Sound ps) (hle : g.Less g')
    {o o' : Operand} (h : o.Linked ps o') :
    Linked ps (Agreement.Sound ps) Agreement.Less (g.add o) (g'.add o') := by
  unfold Agreement.add
  rw [h.expr]
  refine Linked.bind h.visit (fun _ _ => le_refl _) fun t t' ht _ htt => ?_
  -- an operand is scalar on both sides or on neither
  have scalar := FieldType.eq_scalar_iff_of_le htt ht
  by_cases hsc : t' = .scalar
  · rw [if_pos hsc, if_pos (scalar.mpr hsc)]
    exact Linked.pure hg hg' hle
  · rw [if_neg hsc, if_neg (mt scalar.mp hsc)]
    refine Linked.bind (Linked.unify hle.type htt (some o.expr)) (fun _ _ => le_refl _)
      fun c c' hc hc' hcc => Linked.pure ?_ ?_ ⟨hcc, by rw [hle.vectors]⟩
    all_goals
      refine ⟨fun v hv => ?_, fun _ hu => ht (FieldType.eq_unknown_of_le ?_)⟩
    · rcases List.mem_append.mp hv with hv | hv
      · exact hg.vectors v hv
      · rw [List.mem_singleton.mp hv]
        exact h.mem
    · exact hu ▸ hc.2
    · rcases List.mem_append.mp hv with hv | hv
      · exact hg'.vectors v hv
      · rw [List.mem_singleton.mp hv]
        exact h.mem
    · exact hu ▸ hc'.2

/-- The rules of arithmetic are linked over operands with linked visits. -/
theorem linked_arithmetic (e : Expr) {os os' : List Operand}
    (h : List.Forall₂ (Operand.Linked ps) os os') :
    Linked ps (· ≠ .unknown) (· ≤ ·) (arithmetic e os) (arithmetic e os') := by
  refine Linked.bind (Linked.known e) (fun _ _ => le_refl _) fun t t' _ _ htt => ?_
  refine Linked.bind (Linked.foldlM (R := Agreement.Less) h (fun _ _ => ⟨le_refl _, rfl⟩)
    (fun _ _ _ _ hg hg' hle ho => linked_add hg hg' hle ho) ⟨nofun, fun h => absurd rfl h⟩
    ⟨nofun, fun h => absurd rfl h⟩ ⟨htt, rfl⟩) (fun _ _ => ⟨le_refl _, rfl⟩)
    fun g g' hg hg' hle => ?_
  rw [hle.vectors]
  -- both agreements have the same vectors, so both nodes are scalar or neither is
  split
  · exact Linked.pure nofun nofun (le_refl _)
  next hv =>
    have hv : g'.vectors ≠ [] := fun h => hv (by rw [h]; rfl)
    refine Linked.drop (Linked.forM (T := fun v v' => v' = v ∧ v ∈ ps) ?_ ?_) (fun _ _ => trivial)
      (Linked.pure (hg.type (hle.vectors ▸ hv)) (hg'.type hv) hle.type)
    · exact List.forall₂_same.mpr fun v hv => ⟨rfl, hg'.vectors v hv⟩
    · rintro v _ ⟨rfl, hv⟩
      exact Linked.write hv hle.type

/-- To pin one input of a flux to what the inputs before it share: linked if less is shared on the
first side. -/
theorem linked_fluxInput {shared shared' : FieldType} (hs : shared ≤ shared') {i i' : FluxInput}
    (h : i.Over (Operand.Linked ps) i') :
    Linked ps (fun _ => True) (· ≤ ·) (fluxInput shared i)
      (fluxInput shared' i') := by
  cases h with
  | stray e => exact Linked.throw nofun
  | field domain h =>
    simp only [fluxInput, h.expr]
    exact Linked.bind (Linked.unify (le_refl domain) hs _) (fun _ _ => le_refl _)
      fun _ _ _ _ htt => Linked.bind (h.pin htt) (fun _ _ => le_refl _) fun _ _ _ _ huu =>
        Linked.pure trivial trivial (FieldType.representationPart_mono huu)

/-- The rules of a flux are linked over inputs with linked visits. -/
theorem linked_flux {is is' : List FluxInput} (h : List.Forall₂ (FluxInput.Over (Operand.Linked ps)) is is') :
    Linked ps (· ≠ .unknown) (· ≤ ·) (flux is) (flux is') :=
  Linked.drop (Linked.foldlM h (fun _ _ => le_refl _)
      (fun _ _ _ _ _ _ hs hi => linked_fluxInput hs hi) trivial trivial (le_refl _))
    (fun _ _ => le_refl _) (Linked.pure nofun nofun (le_refl _))

/-- The rules of an exchange are linked over arguments with linked visits. -/
theorem linked_exchange (rank : Nat) {os os' : List Operand}
    (h : List.Forall₂ (Operand.Linked ps) os os') :
    Linked ps (· ≠ .unknown) (· ≤ ·) (exchange rank os) (exchange rank os') :=
  Linked.drop (Linked.forM h fun _ _ ho =>
      Linked.drop (ho.pin (le_refl _)) (fun _ _ => le_refl _) (Linked.pure trivial trivial trivial))
    (fun _ _ => trivial) (Linked.pure nofun nofun (le_refl _))

/-- The rules of an operator that is not a flux are linked over operands with linked visits. -/
theorem linked_application (op : Operator) (e : Expr) {o o' : Operand} (h : o.Linked ps o') :
    Linked ps (· ≠ .unknown) (· ≤ ·) (application op e o) (application op e o') := by
  have vector {t c : FieldType} (ht : t ≠ .unknown) (hc : t ≤ c) : c ≠ .unknown :=
    fun hu => ht (FieldType.eq_unknown_of_le (hu ▸ hc))
  have le {P : FieldType → Prop} (t : FieldType) (_ : P t) : t ≤ t := le_refl t
  unfold application
  rw [h.expr]
  cases op with
  | reduce _ | referenceQuadratureStiffnessTransposed _ _ | referenceQuadratureMass _
  | stiffnessTransposed _ | referenceStiffnessTransposed _ | derivative _ _
  | referenceDerivative _ _ | elementwise _ | upsampleInteriorFaces _ | upsampleBoundary _ _ =>
    exact Linked.drop (h.pin (le_refl _)) le (Linked.pure (by nofun) (by nofun) (le_refl _))
  | mass kind | referenceMass kind =>
    cases kind <;>
      exact Linked.drop (h.pin (le_refl _)) le (Linked.pure (by nofun) (by nofun) (le_refl _))
  | elementwiseMax =>
    exact Linked.bind (Linked.known e) le fun _ _ _ _ hk =>
      Linked.bind (Linked.unify hk (le_refl _) _) le fun _ _ _ _ ht => h.pin ht
  | restrict tag =>
    exact Linked.bind (Linked.known e) le fun _ _ _ _ hk =>
      Linked.bind (Linked.unify (le_refl _) (FieldType.representationPart_mono hk) _) le
        fun _ _ _ _ ht => Linked.drop (h.pin ht) le (Linked.bind (Linked.known _) le
          fun _ _ _ _ hf => (Linked.unify (le_refl _) (FieldType.representationPart_mono hf) _).mono
            fun _ hc => vector (by nofun) hc.1)
  | upsample grid =>
    exact Linked.bind (Linked.known e) le fun _ _ _ _ hk =>
      Linked.drop (h.pin (FieldType.domainPart_mono hk)) le (Linked.bind (Linked.known _) le
        fun _ _ _ _ hf => (Linked.unify (le_refl _) (FieldType.domainPart_mono hf) _).mono
          fun _ hc => vector (by nofun) hc.1)
  | flux _ | exchange _ _ | external _ => exact Linked.throw nofun

end Rule

/-! ## Visits -/

/-- The visits of a node are linked if the inferences of the node are. -/
theorem linked_visit_of_infer {o o' : Operand} (he : o'.expr = o.expr) (hm : o.expr ∈ ps)
    (h : Linked ps (· ≠ .unknown) (· ≤ ·) o.infer o'.infer) :
    Linked ps (· ≠ .unknown) (· ≤ ·) o.visit o'.visit := by
  unfold Operand.visit
  rw [he]
  exact Linked.bind h (fun _ _ => le_refl _) fun t t' ht ht' htt =>
    Linked.drop (Linked.write hm htt) (fun _ _ => trivial) (Linked.pure ht ht' htt)

/-- The rules are linked over operands with linked visits. -/
theorem rulesRelate_linked : RulesRelate (Operand.Linked ps) (Linked ps (· ≠ .unknown) (· ≤ ·)) where
  atom := Rule.linked_atom
  subscript := Rule.linked_unifyKnown nofun
  arithmetic := Rule.linked_arithmetic
  application := Rule.linked_application
  flux := Rule.linked_flux
  exchange := Rule.linked_exchange
  unsupported _ := Linked.throw nofun

/-- Let a pass succeed below `D` and stay there, from every valid state below `D`.  Then a loop of
that pass does the same, unless it is cut off.  By induction on the limit. -/
theorem repeat_within {P : Unit → Prop} {pass twin : Infer Unit} (h : Tame ps P pass twin)
    {D : TypeTable}
    (hp : ∀ s : InferenceState, s.Valid → s.table ≤ D →
      ∃ s', pass.run.run s = (.ok (), s') ∧ s'.table ≤ D) :
    (limit : Nat) → (s : InferenceState) → s.Valid → s.table ≤ D →
    ((repeatUntilSettled pass limit).run.run s).1 ≠ .error .unsettled →
    ∃ n s', (repeatUntilSettled pass limit).run.run s = (.ok n, s') ∧ s'.table ≤ D
  | 0, _, _, _, hu => absurd rfl hu
  | limit + 1, s, hs, hD, hu => by
    obtain ⟨s', hr', hD'⟩ := hp s.settle hs.settle hD
    rcases run_repeat_succ pass limit s with ⟨cause, s₁, hr, hrun⟩ | ⟨s₁, hr, hrun⟩ <;>
      rw [hr'] at hr <;> cases hr
    have first := h.regular s.settle hs.settle
    rw [hr'] at first
    rw [hrun] at hu ⊢
    split at hu
    next hc =>
      rw [if_pos hc]
      -- the flag is raised: the rest of the loop starts below `D`
      have rest := repeat_within h hp limit s' first.valid hD'
      rcases run_bind_cases (repeatUntilSettled pass limit) (fun n => pure (n + 1)) s' with
        ⟨cause, s₂, hr₂, hrun₂⟩ | ⟨n, s₂, hr₂, hrun₂⟩ <;> rw [hr₂] at rest <;> rw [hrun₂] at hu ⊢
      · obtain ⟨n, s₃, h, -⟩ := rest fun h => hu (congrArg Except.error (Except.error.inj h))
        nomatch congrArg Prod.fst h
      · obtain ⟨m, s₃, h, hD₃⟩ := rest nofun
        cases h
        exact ⟨n + 1, s₂, rfl, hD₃⟩
    next hc =>
      -- the flag is cleared: the loop ends with the pass
      rw [if_neg hc]
      exact ⟨1, s', rfl, hD'⟩

/-- A plain rule that has written nothing has found in the body `o` all that is known of the common
subexpression `e`, and answers with what is known of the body; and the visit of the body has written
nothing. -/
theorem of_run_plain {e : Expr} {o : Operand} {twin : Infer FieldType}
    (ho : Regular ps (· ≠ .unknown) o.visit twin) {d d' : InferenceState} {b : FieldType}
    (hd : d.Valid) (hr : (plain e o).run.run d = (.ok b, d'))
    (hw : d'.table.writes = d.table.writes) :
    d.table.get e ≤ d.table.get o.expr ∧ b = d.table.get o.expr
      ∧ ∃ u d₁ d₂, o.visit.run.run d₁ = (.ok u, d₂) ∧ d₁.Valid ∧ d₁.table = d.table
        ∧ d₂.table.writes = d₁.table.writes := by
  obtain ⟨t, d₀, hr₀, hr⟩ := run_bind_eq_ok.mp hr
  cases hr₀
  obtain ⟨⟨⟩, d₁, hr₁, hr⟩ := run_bind_eq_ok.mp hr
  obtain ⟨u, d₂, hr₂, hr⟩ := run_bind_eq_ok.mp hr
  cases hr
  obtain ⟨written, memory⟩ := written_of_run hr₁
  have valid := hd.of_grows written.grows memory
  have visited := ho d₁ valid
  rw [hr₂] at visited
  have hw₁ : d.table.writes ≤ d₁.table.writes := written.grows.writes
  have hw₂ : d₁.table.writes ≤ d'.table.writes := visited.grows.writes
  -- no write was made, so the table was the same before and after the write for the body
  have same : d₁.table = d.table := written.eq_of_writes (by omega)
  have types : d'.table.types = d₁.table.types :=
    visited.grows.types_eq (show d'.table.writes = d₁.table.writes by omega)
  refine ⟨?_, ?_, u, d₁, d', hr₂, valid, same, by omega⟩
  · rw [← same]
    exact (le_of_eq (by rw [same])).trans written.joins.right
  · rw [TypeTable.get_congr types, same]

/-- The rule of a common subexpression, with a memory, is linked with the plain one. -/
theorem linked_settle {body : Expr} {label : Option String} {limit : Nat} {o : Operand}
    (ho : o.Linked ps ⟨body, inferWith plain body⟩) (ht : o.Twin ps ⟨body, inferWith plain body⟩)
    (hplain : Tame ps (· ≠ .unknown) (plainVisit body) (plainVisit body))
    (hl : 2 * ps.length + 2 ≤ limit) :
    Linked ps (· ≠ .unknown) (· ≤ ·) (settle limit (.shared body label) o)
      (plain (.shared body label) ⟨body, inferWith plain body⟩) where
  regular := ⟨_, regular_settle ht hplain hl⟩
  plain := by
    have twin : Operand.Twin ps ⟨body, inferWith plain body⟩ ⟨body, inferWith plain body⟩ :=
      ⟨rfl, ht.expr ▸ ht.mem, hplain⟩
    exact ⟨_, (tame_plain twin).regular⟩
  within d d' b hd hr hw s hs hle := by
    obtain ⟨known, rfl, u, d₁, d₂, hvisit, hd₁, same, hw₁⟩ := of_run_plain hplain.regular hd hr hw
    obtain rfl : body = o.expr := ht.expr
    have known' : s.table.get (.shared o.expr label) ≤ d.table.get o.expr := (hle _).trans known
    by_cases hold : UpToDate s (.shared o.expr label)
    · -- the result is up to date: the table below says less of the expression than `d` of its body
      exact ⟨_, s, run_settle_of_upToDate limit o hold, hle, known'⟩
    · rw [run_settle_of_not limit o hold]
      rcases run_renew (.shared o.expr label) o limit s with
        ⟨cause, hset, -⟩ | ⟨table, written, hrun⟩
      · -- what is known of the expression can be written down for its body
        obtain ⟨table, hset'⟩ := TypeTable.exists_set_of_le hle known'
        nomatch hset.symm.trans hset'
      · -- the loop over the body starts below `d`, and stays there
        have below : table ≤ d.table := written.le_of_le hle known'
        have valid : InferenceState.Valid ⟨table, s.memory⟩ := hs.of_grows written.grows rfl
        have pass := tame_bodyPass ht
        have settles := settles_repeat pass limit ⟨table, s.memory⟩ valid
          (.inl (by have := table.room_le ps; dsimp only; omega))
        obtain ⟨n, s₂, hr₂, hle₂⟩ := repeat_within pass (D := d.table) (fun s₁ hs₁ hle₁ => by
          obtain ⟨_, s', hr', hle', -⟩ := ho.visit.within d₁ d₂ u hd₁ hvisit hw₁ s₁ hs₁ (same ▸ hle₁)
          exact ⟨s', run_bind_eq_ok.mpr ⟨_, s', hr', rfl⟩, same ▸ hle'⟩)
          limit ⟨table, s.memory⟩ valid below settles
        rcases hrun with ⟨cause, s₃, hr₃, -⟩ | ⟨n', s₃, hr₃, hrun⟩ <;> rw [hr₂] at hr₃ <;> cases hr₃
        exact ⟨_, _, hrun, hle₂, hle₂ o.expr⟩

/-- The visit of every expression of a closed list `ps` is linked with the plain one.  By induction
on the size. -/
theorem linked_visit (hps : Expr.Closed ps) {limit : Nat} (hl : 2 * ps.length + 2 ≤ limit)
    (e : Expr) (he : e ∈ ps) :
    Linked ps (· ≠ .unknown) (· ≤ ·) (Operand.visit ⟨e, inferWith (settle limit) e⟩)
      (plainVisit e) := by
  have linked (x : Expr) (_ : x.size < e.size) (hp : Expr.PartOf x e) :
      Operand.Linked ps ⟨x, inferWith (settle limit) x⟩ ⟨x, inferWith plain x⟩ :=
    ⟨rfl, hps.mem_of_partOf he hp, linked_visit hps hl x (hps.mem_of_partOf he hp)⟩
  refine linked_visit_of_infer rfl he ?_
  show Linked ps _ _ (inferWith (settle limit) e) (inferWith plain e)
  by_cases hs : e.isShared = true
  · cases e with
    | shared body label =>
      have hb : body ∈ ps := hps _ he _ List.mem_cons_self
      rw [inferWith_shared, inferWith_shared]
      exact linked_settle (linked body (Expr.size_lt_of_mem_children List.mem_cons_self)
        (.of_child List.mem_cons_self)) ⟨rfl, hb, tame_visit hps hl body hb⟩
        (tame_plainVisit hps body hb) hl
    | _ => nomatch hs
  · rw [inferWith_eq, inferWith_eq]
    exact rulesRelate_linked.inferStep (by simpa using hs) _ _ linked
termination_by e.size

/-- A pass over roots is linked with the plain one, if their components are on a closed list `ps`.
-/
theorem linked_passOver (hps : Expr.Closed ps) {limit : Nat} (hl : 2 * ps.length + 2 ≤ limit)
    {roots : List Expr} (hroots : ∀ e ∈ roots.flatMap Expr.components, e ∈ ps) :
    Linked ps (fun _ => True) (fun _ _ => True) (passOver (settle limit) roots)
      (passOver plain roots) := by
  refine Linked.forM (T := Operand.Linked ps) ?_ fun _ _ ho =>
    Linked.drop ho.visit (fun _ _ => le_refl _) (Linked.pure trivial trivial trivial)
  unfold rootOperands
  rw [List.forall₂_map_left_iff, List.forall₂_map_right_iff]
  exact List.forall₂_same.mpr fun e he => ⟨rfl, hroots e he, linked_visit hps hl e (hroots e he)⟩

end OperatorTemplate
