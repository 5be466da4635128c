import OperatorTemplate.Proofs.FieldType.PartialJoin
import OperatorTemplate.Proofs.Inference.FluxAgreement
/-!
# Pointwise expressions

An expression is pointwise (`IsPointwise`) if it has no operators and no fluxes: constants,
parameters, user and geometric data, arithmetic on them, and common subexpressions.

Which pointwise expressions are scalar can be read off them: constants, parameters and what
arithmetic makes of these (`IsScalar`).  In a typing where all that is visited fits, exactly these
have the type `.scalar` (`isScalar_iff`, by induction on the expression).  All but geometric data
answer what is recorded for them (`answer_of_isPointwise`).

The last section is about errors.  `Clashes action` says that the action fails with conflicts of
types alone, or for being cut off.  It holds of every step of a visit of a pointwise expression
(`raises_inferWith`), hence of a loop over pointwise roots (`raises_runToFixpoint`).
-/

namespace OperatorTemplate

open FieldType

namespace Expr

/-! ## Kinds of expressions -/

/-- Constants, parameters, user data, geometric data, arithmetic, and common subexpressions. -/
inductive IsPointwise : Expr → Prop
  | atom {a : Atom} (ha : ∀ axis, a ≠ .kernelNormal axis) : IsPointwise (.atom a)
  | subscript (aggregate : Expr) (index : Nat) : IsPointwise (.subscript aggregate index)
  | arithmetic {e : Expr} (he : e.IsArithmetic) (h : ∀ c ∈ e.children, IsPointwise c) :
    IsPointwise e
  | shared {body : Expr} (h : IsPointwise body) (label : Option String) :
    IsPointwise (.shared body label)

/-- Constants, parameters, and what arithmetic makes of them. -/
inductive IsScalar : Expr → Prop
  | constant (value : Literal) : IsScalar (.atom (.constant value))
  | parameter (name : String) : IsScalar (.atom (.parameter name))
  | arithmetic {e : Expr} (he : e.IsArithmetic) (h : ∀ c ∈ e.children, IsScalar c) : IsScalar e
  | shared {body : Expr} (h : IsScalar body) (label : Option String) : IsScalar (.shared body label)

variable {T : Expr → FieldType} {e c : Expr}

/-- Arithmetic asks for each of its children, with no demand on its type. -/
theorem mem_demands_of_isArithmetic (he : e.IsArithmetic) (hc : c ∈ e.children) :
    (.unknown, c) ∈ e.demands := by
  rw [demands_of_isArithmetic he]
  exact List.mem_map_of_mem hc

/-- The operands of a pointwise expression are pointwise, and nothing is demanded of their types. -/
theorem IsPointwise.operand (h : e.IsPointwise) {o : FieldType × Expr} (ho : o ∈ e.demands) :
    o.1 = .unknown ∧ o.2.IsPointwise := by
  cases h with
  | atom _ | subscript _ _ => nomatch ho
  | arithmetic he h =>
    rw [demands_of_isArithmetic he] at ho
    obtain ⟨c, hc, rfl⟩ := List.mem_map.mp ho
    exact ⟨rfl, h c hc⟩
  | shared h _ =>
    obtain rfl := List.mem_singleton.mp ho
    exact ⟨rfl, h⟩

/-- All that is visited from a pointwise expression is pointwise. -/
theorem IsPointwise.of_visited {x : Expr} (h : e.IsPointwise) (hx : Visited x e) :
    x.IsPointwise := by
  induction hx with
  | self => exact h
  | operand ho _ ih => exact ih (h.operand ho).2

/-- An array is not pointwise, so the components of a pointwise expression are the expression. -/
theorem IsPointwise.of_mem_components {c : Expr} (h : e.IsPointwise) (hc : c ∈ e.components) :
    c.IsPointwise := by
  cases e with
  | array _ =>
    cases h with
    | arithmetic he _ => nomatch he
  | _ =>
    obtain rfl := List.mem_singleton.mp hc
    exact h

/-- The operands of scalar arithmetic are scalar. -/
theorem IsScalar.of_isArithmetic (h : e.IsScalar) (he : e.IsArithmetic) :
    ∀ c ∈ e.children, c.IsScalar := by
  cases h with
  | arithmetic _ h => exact h
  | constant _ | parameter _ | shared _ _ => nomatch he

/-- A common subexpression is scalar if its body is. -/
theorem isScalar_shared_iff {label : Option String} :
    (Expr.shared e label).IsScalar ↔ e.IsScalar := by
  refine ⟨fun h => ?_, fun h => .shared h label⟩
  cases h with
  | shared h _ => exact h
  | arithmetic he _ => nomatch he

/-- Leaves that defaults complete are not scalar. -/
theorem not_isScalar_of_isDefaultable (h : e.isDefaultable = true) : ¬e.IsScalar := by
  intro hs
  cases hs with
  | constant _ | parameter _ | shared _ _ => nomatch h
  | arithmetic he _ => cases he <;> nomatch h

/-! ## Scalar types -/

/-- A leaf that fits has the type `.scalar` exactly if it is a constant or a parameter. -/
theorem Fits.isScalar_atom_iff {a : Atom} (h : Fits T (.atom a)) :
    T (.atom a) = .scalar ↔ (Expr.atom a).IsScalar := by
  have law := h.law
  cases a with
  | constant value => exact iff_of_true (eq_of_isFinal_of_le rfl law) (.constant value)
  | parameter name => exact iff_of_true (eq_of_isFinal_of_le rfl law) (.parameter name)
  | kernelNormal _ => exact law.elim
  | normal _ _ grid =>
    refine iff_of_false (fun hs => ?_) (not_isScalar_of_isDefaultable rfl)
    rw [hs] at law
    cases grid <;> cases law
  | _ =>
    refine iff_of_false (fun hs => ?_) (not_isScalar_of_isDefaultable rfl)
    rw [hs] at law
    cases law

/-- Arithmetic in a typing that fits is scalar exactly if all its operands are. -/
theorem Typed.isScalar_of_operands (h : Typed T e) (he : e.IsArithmetic) :
    T e = .scalar ↔ ∀ c ∈ e.children, T c = .scalar := by
  have law := h.fits.law
  rw [law_of_isArithmetic he] at law
  constructor
  · -- an operand that answers a vector puts its answer below the type of the node
    intro hs c hc
    have operand := mem_demands_of_isArithmetic he hc
    have typed := h.operand operand
    by_contra hv
    have answered : answer T c ≠ .scalar := mt typed.answer_eq_scalar_iff.mp hv
    have below := (law.2 _ (mem_readings.mpr ⟨_, operand, rfl⟩) answered).1
    exact answered ((eq_scalar_iff_of_le below typed.answer_ne_unknown).mpr hs)
  · -- if all answer `.scalar`, the law gives that type to the node
    intro hs
    refine eq_of_isFinal_of_le rfl (law.1 fun r hr => ?_)
    obtain ⟨o, ho, rfl⟩ := mem_readings.mp hr
    refine (h.operand ho).answer_eq_scalar_iff.mpr ?_
    rw [demands_of_isArithmetic he] at ho
    obtain ⟨c, hc, rfl⟩ := List.mem_map.mp ho
    exact hs c hc

/-- In a typing that fits, a pointwise expression has the type `.scalar` exactly if it is a scalar
expression. -/
theorem isScalar_iff (h : Typed T e) (he : e.IsPointwise) : T e = .scalar ↔ e.IsScalar := by
  induction he with
  | atom _ => exact h.fits.isScalar_atom_iff
  | subscript aggregate index =>
    have nodal : .represented .nodal ≤ T (.subscript aggregate index) := h.fits.law
    exact iff_of_false (mt (eq_scalar_iff_of_le nodal nofun).mpr nofun)
      (not_isScalar_of_isDefaultable rfl)
  | @arithmetic e he _ ih =>
    have operand (c : Expr) (hc : c ∈ e.children) : Typed T c :=
      h.operand (mem_demands_of_isArithmetic he hc)
    rw [h.isScalar_of_operands he]
    exact ⟨fun hs => .arithmetic he fun c hc => (ih c hc (operand c hc)).mp (hs c hc),
      fun hs c hc => (ih c hc (operand c hc)).mpr (hs.of_isArithmetic he c hc)⟩
  | @shared body _ label ih =>
    have same : T body = T (.shared body label) := h.fits.law _ List.mem_cons_self
    rw [← same, ih (h.operand (o := (.unknown, body)) List.mem_cons_self), isScalar_shared_iff]

/-! ## Answers -/

/-- The only geometric pointwise expressions are leaves. -/
theorem IsPointwise.isGeometric_iff (h : e.IsPointwise) :
    e.IsGeometric ↔ ∃ a, e = .atom a ∧ IsVolumeGeometry a := by
  constructor
  · rintro (⟨ha⟩ | ⟨hx⟩)
    · exact ⟨_, rfl, ha⟩
    · cases h with
      | arithmetic he _ => nomatch he
  · rintro ⟨a, rfl, ha⟩
    exact .atom ha

/-- Geometric leaves are among those that defaults complete. -/
theorem isDefaultable_of_isVolumeGeometry {a : Atom} (ha : IsVolumeGeometry a) :
    (Expr.atom a).isDefaultable = true := by
  cases ha <;> rfl

/-- Where the scalar types are those of scalar expressions, all but geometric data answer what is
recorded for them. -/
theorem answer_of_isPointwise (he : e.IsPointwise) (hg : ¬e.IsGeometric)
    (hT : ∀ x, Visited x e → (T x = .scalar ↔ x.IsScalar)) : answer T e = T e := by
  induction he with
  | @atom a ha =>
    rw [answer_eq]
    cases a with
    | normal _ _ grid => cases grid <;> rfl
    | jacobian grid => exact absurd (.atom (.jacobian grid)) hg
    | forwardMetric i j => exact absurd (.atom (.forwardMetric i j)) hg
    | inverseMetric i j => exact absurd (.atom (.inverseMetric i j)) hg
    | kernelNormal axis => exact absurd rfl (ha axis)
    | _ => rfl
  | subscript _ _ | shared _ _ _ =>
    rw [answer_eq]
    rfl
  | @arithmetic e he _ ih =>
    rw [answer_eq, law_of_isArithmetic he]
    dsimp only [Law.answer]
    split
    next hs =>
      -- arithmetic on what answers that it is scalar is scalar
      refine ((hT e .self).mpr (.arithmetic he fun c hc => ?_)).symm
      have ho := mem_demands_of_isArithmetic he hc
      have answered : answer T c = .scalar := hs _ (mem_readings.mpr ⟨_, ho, rfl⟩)
      have visited (x : Expr) (hx : Visited x c) : T x = .scalar ↔ x.IsScalar :=
        hT x (.operand ho hx)
      by_cases hgc : c.IsGeometric
      · rw [answer_eq_of_isGeometric hgc] at answered
        nomatch answered
      · rw [ih c hc hgc visited] at answered
        exact (visited c .self).mp answered
    · rfl

end Expr

/-! ## Errors -/

/-- A conflict of types, or a loop that was cut off. -/
def TypeError.IsConflictOrCut (cause : TypeError) : Prop :=
  (∃ known added about, cause = .conflict known added about) ∨ cause = .unsettled

namespace Infer

/-- An action that fails with conflicts of types alone, or for being cut off. -/
abbrev Clashes {α : Type} (action : Infer α) : Prop := Raises TypeError.IsConflictOrCut action

/-- Unification fails with a conflict. -/
theorem isConflict_of_unify {a b : FieldType} {about : Option Expr} (cause : TypeError)
    (h : a.unify b about = .error cause) : cause.IsConflictOrCut :=
  .inl ⟨a, b, about, eq_conflict_of_unify h⟩

/-- Setting an entry fails with a conflict, the one of the unification with what is known. -/
theorem isConflict_of_set {table : TypeTable} {e : Expr} {t : FieldType} (cause : TypeError)
    (h : table.set e t = .error cause) : cause.IsConflictOrCut := by
  unfold TypeTable.set at h
  split at h
  · nomatch h
  · split at h
    · nomatch h
    next old _ =>
      cases hu : old.unify t (some e) with
      | ok _ =>
        rw [hu] at h
        nomatch h
      | error _ =>
        rw [hu] at h
        cases h
        exact isConflict_of_unify _ hu

/-- Asking what is known of an expression never fails. -/
theorem raises_known (e : Expr) : Clashes (known e) :=
  Raises.bind Raises.get fun _ => Raises.pure _

/-- A write fails with a conflict. -/
theorem raises_write (e : Expr) (t : FieldType) : Clashes (write e t) :=
  Raises.bind Raises.get fun _ => Raises.bind (Raises.lift isConflict_of_set) fun _ =>
    Raises.modify _

/-- Unification with what is known fails with a conflict. -/
theorem raises_unifyKnown (t : FieldType) (e : Expr) : Clashes (unifyKnown t e) :=
  Raises.bind (raises_known e) fun _ => Raises.lift isConflict_of_unify

end Infer

open Infer

/-- A visit of an operand, which writes down what its rule answers, fails as the rule does. -/
theorem Operand.raises_visit {o : Operand} (h : Clashes o.infer) : Clashes o.visit :=
  Raises.bind h fun _ => Raises.bind (raises_write _ _) fun _ => Raises.pure _

/-- A loop fails as its passes do, or for being cut off. -/
theorem raises_repeat {pass : Infer Unit} (h : Clashes pass) :
    (limit : Nat) → Clashes (repeatUntilSettled pass limit)
  | 0 => Raises.throw (.inr rfl)
  | limit + 1 => by
    refine Raises.bind (Raises.modify _) fun _ => Raises.bind h fun _ =>
      Raises.bind Raises.get fun s => ?_
    split
    · exact Raises.bind (raises_repeat h limit) fun _ => Raises.pure _
    · exact Raises.pure _

/-- A look into the memory never fails. -/
theorem raises_remembered (e : Expr) : Clashes (remembered? e) := by
  refine Raises.bind Raises.get fun s => ?_
  split
  · split <;> exact Raises.pure _
  · exact Raises.pure _

/-- The loop inside a common subexpression fails as the visit of its body does, or for being cut
off. -/
theorem raises_settle (limit : Nat) (e : Expr) {body : Operand} (h : Clashes body.visit) :
    Clashes (settle limit e body) := by
  refine Raises.bind (raises_remembered e) fun found => ?_
  · split
    · exact Raises.pure _
    · refine Raises.bind (raises_known _) fun _ => Raises.bind (raises_write _ _) fun _ => ?_
      refine Raises.bind (raises_repeat (Raises.bind h fun _ => Raises.pure _) limit) fun _ => ?_
      exact Raises.bind (raises_known _) fun _ => Raises.bind (Raises.modify _) fun _ =>
        Raises.pure _

namespace Rule

/-- The rule of a leaf fails with conflicts alone, unless the leaf is a component of a normal as
kernels name it. -/
theorem raises_atom {a : Atom} (ha : ∀ axis, a ≠ .kernelNormal axis) : Clashes (atom a) := by
  cases a with
  | kernelNormal axis => exact absurd rfl (ha axis)
  | normal _ _ grid => cases grid <;> exact raises_unifyKnown _ _
  | jacobian _ | forwardMetric _ _ | inverseMetric _ _ => exact Raises.pure _
  | _ => exact raises_unifyKnown _ _

/-- The rule of arithmetic fails as the visits of its operands do, or with a conflict. -/
theorem raises_arithmetic (e : Expr) {operands : List Operand}
    (h : ∀ o ∈ operands, Clashes o.visit) : Clashes (arithmetic e operands) := by
  refine Raises.bind (raises_known e) fun t => ?_
  -- first the agreement of the operands is found, then it is written for the vectors
  refine Raises.bind (Raises.foldlM (fun agreement o ho => ?_) _) fun agreement => ?_
  · refine Raises.bind (h o ho) fun t => ?_
    split
    · exact Raises.pure _
    · exact Raises.bind (Raises.lift isConflict_of_unify) fun _ => Raises.pure _
  · split
    · exact Raises.pure _
    · exact Raises.bind (Raises.forM fun vector _ => raises_write _ _) fun _ => Raises.pure _

end Rule

/-- A visit of a pointwise expression fails with conflicts alone, or for being cut off. -/
theorem raises_inferWith (limit : Nat) {e : Expr} (he : e.IsPointwise) :
    Clashes (inferWith (settle limit) e) := by
  induction he with
  | atom ha =>
    rw [inferWith_eq]
    exact Rule.raises_atom ha
  | subscript aggregate index =>
    rw [inferWith_eq]
    exact raises_unifyKnown _ _
  | @arithmetic e he _ ih =>
    have operands : Clashes (Rule.arithmetic e
        (childOperands fun x (_ : x.size < e.size) => inferWith (settle limit) x)) := by
      refine Rule.raises_arithmetic e fun o ho => ?_
      obtain ⟨c, -, rfl⟩ := List.mem_map.mp ho
      exact Operand.raises_visit (ih c.1 c.2)
    rw [inferWith_eq]
    cases he <;> exact operands
  | @shared body _ label ih =>
    rw [inferWith_shared]
    exact raises_settle limit _ (Operand.raises_visit ih)

/-- A loop over pointwise roots fails with conflicts alone, or for being cut off. -/
theorem raises_runToFixpoint {roots : List Expr} (h : ∀ root ∈ roots, root.IsPointwise) :
    Clashes (runToFixpoint roots) := by
  refine raises_repeat (Raises.forM fun o ho => ?_) _
  obtain ⟨e, he, rfl⟩ := List.mem_map.mp ho
  obtain ⟨root, hr, hc⟩ := List.mem_flatMap.mp he
  have pointwise : e.IsPointwise := (h root hr).of_mem_components hc
  exact Raises.bind (Operand.raises_visit (raises_inferWith _ pointwise)) fun _ => Raises.pure _

end OperatorTemplate
