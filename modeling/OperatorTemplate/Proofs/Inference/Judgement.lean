import OperatorTemplate.Inference.Traversal
import OperatorTemplate.Proofs.Expr.Parts
import OperatorTemplate.Proofs.FieldType.Order
/-!
# Typing judgements

What the typing rules ask of types that are given once and for all, as a function of expressions.  A
node asks something of each operand that it visits (`Expr.demands`), and obeys one of a few laws
(`Law`), which relate its own type to those of the operands.

A law reads two things of an operand: what is recorded for it, and what its own rule answers
(`Expr.answer`).  These differ.  The answer says at most what is recorded, and may say less: a
restriction answers what it knows of its operand, and geometric data answer that they live on the
volume, whatever is recorded for them.  That is why answers are computed along the expression, and
are not a part of the typing.

An expression is well typed if everything that is visited from it fits (`Expr.Typed`).
-/

namespace OperatorTemplate

/-! ## Laws -/

namespace FieldType

/-- The type that says what both types say, if there is one. -/
def join (a b : FieldType) : FieldType :=
  match a.unify b none with
  | .ok c => c
  | .error _ => .unknown

/-- Two types with a common upper bound have a join. -/
theorem joins_join {a b d : FieldType} (ha : a ≤ d) (hb : b ≤ d) : Joins a b (a.join b) := by
  obtain ⟨c, hc⟩ := exists_unify_of_le ha hb none
  rw [join, hc]
  exact joins_of_unify hc

/-- There is only one join. -/
theorem Joins.join_eq {a b c : FieldType} (h : Joins a b c) : a.join b = c :=
  (joins_join h.left h.right).unique h

end FieldType

/-- What a law reads of an operand: the type `recorded` for it, and the type `answered` by its rule.
-/
structure Reading where
  recorded : FieldType
  answered : FieldType

/-- How the type of a node is related to the types of its operands. -/
inductive Law where
  /-- The node says at least `bound`, and answers what is known of it. -/
  | leaf (bound : FieldType)
  /-- The type of the node does not depend on its operands. -/
  | given (result : FieldType)
  /-- The operands share their representation; the node is nodal volume data. -/
  | flux
  /-- Operands that are not scalar have the type of the node. -/
  | arithmetic
  /-- The operand has the type of the node. -/
  | same
  /-- The same, but the node answers what its operand does. -/
  | maximum
  /-- Volume data in the representation of the node, which lives on a part of the boundary. -/
  | restrict (tag : BoundaryTag)
  /-- Data on the domain of the node, which is held by a quadrature grid. -/
  | upsample (grid : QuadratureTag)
  | illegal

namespace Law

/-- What a node answers, of which `own` is recorded. -/
def answer (own : FieldType) (operands : List Reading) : Law → FieldType
  | .leaf _ | .same => own
  | .given result => result
  | .flux => .volume .nodal
  | .arithmetic => if ∀ o ∈ operands, o.answered = .scalar then .scalar else own
  | .maximum =>
    match operands with
    | [o] => o.answered
    | _ => .unknown
  | .restrict tag =>
    match operands with
    | [o] => (FieldType.onBoundary tag).join o.recorded.representationPart
    | _ => .unknown
  | .upsample grid =>
    match operands with
    | [o] => (FieldType.represented (.quadrature grid)).join o.recorded.domainPart
    | _ => .unknown
  | .illegal => .unknown

/-- What the law asks of a node, of which `own` is recorded. -/
def Holds (own : FieldType) (operands : List Reading) : Law → Prop
  | .leaf bound => bound ≤ own
  | .given result => result ≤ own
  | .flux => .volume .nodal ≤ own
      ∧ operands.IsChain fun o o' => o.answered.representationPart ≤ o'.recorded
  | .arithmetic => ((∀ o ∈ operands, o.answered = .scalar) → .scalar ≤ own)
      ∧ ∀ o ∈ operands, o.answered ≠ .scalar → o.answered ≤ own ∧ own ≤ o.recorded
  | .same => ∀ o ∈ operands, o.recorded = own
  | .maximum => ∀ o ∈ operands, own ≤ o.recorded ∧ o.answered ≤ own
  | .restrict tag => .onBoundary tag ≤ own ∧ ∀ o ∈ operands,
      own.representationPart ≤ o.recorded ∧ o.recorded.representationPart ≤ own
  | .upsample grid => .represented (.quadrature grid) ≤ own ∧ ∀ o ∈ operands,
      own.domainPart ≤ o.recorded ∧ o.recorded.domainPart ≤ own
  | .illegal => False

end Law

/-- The law of an atom. -/
def Atom.law : Atom → Law
  | .constant _ | .parameter _ => .leaf .scalar
  | .variable _ => .leaf (.represented .nodal)
  | .ones grid | .coordinate _ grid => .leaf (.volume (.ofGrid grid))
  | .normal tag _ (some grid) => .leaf (.boundary tag (.quadrature grid))
  | .normal tag _ none => .leaf (.onBoundary tag)
  | .jacobian _ | .forwardMetric _ _ | .inverseMetric _ _ => .given .onVolume
  | .kernelNormal _ => .illegal

namespace Operator

/-- What an operator that is not a flux asks of its operand. -/
def demand : Operator → FieldType
  | .reduce _ | .stiffnessTransposed _ | .referenceStiffnessTransposed _ | .mass .direct
  | .referenceMass .direct | .elementwiseMax | .restrict _ => .onVolume
  | .referenceQuadratureStiffnessTransposed _ grid | .referenceQuadratureMass grid =>
    .volume (.quadrature grid)
  | .derivative _ _ | .referenceDerivative _ _ | .mass .inverse | .referenceMass .inverse
  | .elementwise _ | .upsampleInteriorFaces _ => .volume .nodal
  | .upsampleBoundary _ tag => .boundary tag .nodal
  | .upsample _ | .flux _ | .exchange _ _ | .external _ => .unknown

/-- The law of an application. -/
def law : Operator → Law
  | .reduce _ => .given .scalar
  | .referenceQuadratureStiffnessTransposed _ _ | .referenceQuadratureMass _
  | .stiffnessTransposed _ | .referenceStiffnessTransposed _ | .mass _ | .referenceMass _
  | .derivative _ _ | .referenceDerivative _ _ | .elementwise _ => .given (.volume .nodal)
  | .upsampleInteriorFaces grid => .given (.interiorFaces grid)
  | .upsampleBoundary grid tag => .given (.boundary tag (.quadrature grid))
  | .elementwiseMax => .maximum
  | .restrict tag => .restrict tag
  | .upsample grid => .upsample grid
  | .flux _ => .flux
  | .exchange _ _ | .external _ => .illegal

end Operator

namespace Expr

/-! ## Nodes -/

/-- A pair. -/
def isPair : Expr → Bool
  | .pair _ _ _ => true
  | _ => false

/-- The law of a node. -/
def law : Expr → Law
  | .atom a => a.law
  | .subscript _ _ => .leaf (.represented .nodal)
  | .sum _ | .product _ | .quotient _ _ | .power _ _ | .conditional _ _ _ | .ifPositive _ _ _
  | .comparison _ _ _ | .call _ _ => .arithmetic
  | .shared _ _ => .same
  | .apply op _ => op.law
  | .pair _ _ _ | .array _ => .illegal
  | .exchange _ rank _ => .given (.boundary (.rank rank) .nodal)
  | .domainFlux _ boundaries => if boundaries.all isPair then .flux else .illegal

/-- The components of an expression `x`, each asked for `t`. -/
def demandAll (t : FieldType) (x : Expr) : List (FieldType × Expr) := x.components.map (t, ·)

/-- What a flux asks of the components of a pair. -/
def pairDemands : Expr → List (FieldType × Expr)
  | .pair interior boundary tag =>
    demandAll .onInteriorFaces interior ++ demandAll (.onBoundary tag) boundary
  | _ => []

/-- What a flux asks of the field that it is applied to. -/
def fluxDemands (x : Expr) : List (FieldType × Expr) :=
  if x.isPair then x.pairDemands else demandAll .onInteriorFaces x

/-- The operands that are visited, in order, with what is asked of each. -/
def demands : Expr → List (FieldType × Expr)
  | .atom _ | .subscript _ _ | .pair _ _ _ | .array _ => []
  | .apply (.flux _) field => field.fluxDemands
  | .apply op field => [(op.demand, field)]
  | .exchange _ _ arguments => arguments.map (.volume .nodal, ·)
  | .domainFlux interiors boundaries =>
    interiors.flatMap (demandAll .onInteriorFaces) ++ boundaries.flatMap pairDemands
  | e => e.children.map (.unknown, ·)

/-- What is visited from an expression. -/
inductive Visited (x : Expr) : Expr → Prop
  | self : Visited x x
  | operand {e : Expr} {o : FieldType × Expr} (ho : o ∈ e.demands) (h : Visited x o.2) : Visited x e

/-- What is asked of the components of `x` is asked of parts of `x`. -/
theorem partOf_of_mem_demandAll {t : FieldType} {x : Expr} {o : FieldType × Expr}
    (h : o ∈ demandAll t x) : PartOf o.2 x := by
  obtain ⟨c, hc, rfl⟩ := List.mem_map.mp h
  exact .of_mem_components hc

/-- What is asked of the components of a pair is asked of its parts. -/
theorem partOf_of_mem_pairDemands {x : Expr} {o : FieldType × Expr} (h : o ∈ x.pairDemands) :
    PartOf o.2 x := by
  cases x with
  | pair interior boundary tag =>
    rcases List.mem_append.mp h with h | h
    · exact (partOf_of_mem_demandAll h).trans (.of_child List.mem_cons_self)
    · exact (partOf_of_mem_demandAll h).trans
        (.of_child (List.mem_cons_of_mem _ List.mem_cons_self))
  | _ => nomatch h

/-- What is visited from `e` is a child of `e`, or a part of one. -/
theorem exists_child_of_mem_demands {e : Expr} {o : FieldType × Expr} (h : o ∈ e.demands) :
    ∃ c ∈ e.children, PartOf o.2 c := by
  -- fluxes visit components of their children; all other nodes visit the children
  cases e with
  | atom _ | subscript _ _ | pair _ _ _ | array _ => nomatch h
  | apply op field =>
    refine ⟨field, List.mem_cons_self, ?_⟩
    cases op with
    | flux f =>
      change o ∈ field.fluxDemands at h
      unfold fluxDemands at h
      split at h
      · exact partOf_of_mem_pairDemands h
      · exact partOf_of_mem_demandAll h
    | _ =>
      obtain rfl := List.mem_singleton.mp h
      exact .self
  | domainFlux interiors boundaries =>
    rcases List.mem_append.mp h with h | h
    · obtain ⟨x, hx, h⟩ := List.mem_flatMap.mp h
      exact ⟨x, List.mem_append_left _ hx, partOf_of_mem_demandAll h⟩
    · obtain ⟨x, hx, h⟩ := List.mem_flatMap.mp h
      exact ⟨x, List.mem_append_right _ hx, partOf_of_mem_pairDemands h⟩
  | _ =>
    obtain ⟨c, hc, rfl⟩ := List.mem_map.mp h
    exact ⟨c, hc, .self⟩

/-- What is visited from `e` is a part of `e`. -/
theorem partOf_of_mem_demands {e : Expr} {o : FieldType × Expr} (h : o ∈ e.demands) :
    PartOf o.2 e := by
  obtain ⟨c, hc, h⟩ := exists_child_of_mem_demands h
  exact h.trans (.of_child hc)

/-- What is visited from `e` is smaller than `e`. -/
theorem size_lt_of_mem_demands {e : Expr} {o : FieldType × Expr} (h : o ∈ e.demands) :
    o.2.size < e.size := by
  obtain ⟨c, hc, h⟩ := exists_child_of_mem_demands h
  exact Nat.lt_of_le_of_lt h.size_le (size_lt_of_mem_children hc)

/-- What is visited, at whatever depth, is a part. -/
theorem Visited.partOf {x e : Expr} (h : Visited x e) : PartOf x e := by
  induction h with
  | self => exact .self
  | operand ho _ ih => exact ih.trans (partOf_of_mem_demands ho)

/-- What is visited from something visited is visited. -/
theorem Visited.trans {x y e : Expr} (hx : Visited x y) (hy : Visited y e) : Visited x e := by
  induction hy with
  | self => exact hx
  | operand ho _ ih => exact .operand ho ih

/-! ## Answers -/

/-- What the rule of a node answers, where the types are `T`. -/
def answer (T : Expr → FieldType) (e : Expr) : FieldType :=
  e.recurse fun e answer => e.law.answer (T e)
    (e.demands.attach.map fun o => ⟨T o.1.2, answer o.1.2 (size_lt_of_mem_demands o.2)⟩)

/-- What the law of a node reads of its operands. -/
def readings (T : Expr → FieldType) (e : Expr) : List Reading :=
  e.demands.map fun o => ⟨T o.2, answer T o.2⟩

/-- The answer of a node, by its law: the induction along the expression, unfolded once. -/
theorem answer_eq (T : Expr → FieldType) (e : Expr) :
    answer T e = e.law.answer (T e) (readings T e) := by
  rw [answer, recurse_eq]
  congr 1
  exact List.attach_map_val (f := fun o : FieldType × Expr => (⟨T o.2, answer T o.2⟩ : Reading))

/-- The readings of a node are those of the operands that it visits. -/
theorem mem_readings {T : Expr → FieldType} {e : Expr} {r : Reading} :
    r ∈ readings T e ↔ ∃ o ∈ e.demands, r = ⟨T o.2, answer T o.2⟩ := by
  rw [readings, List.mem_map]
  exact exists_congr fun o => and_congr_right fun _ => eq_comm

/-! ## Well-typed expressions -/

/-- The types obey the rule of a node. -/
structure Fits (T : Expr → FieldType) (e : Expr) : Prop where
  demands : ∀ o ∈ e.demands, o.1 ≤ T o.2
  law : e.law.Holds (T e) (readings T e)

/-- The types obey the rules of all that is visited. -/
def Typed (T : Expr → FieldType) (e : Expr) : Prop := ∀ x, Visited x e → Fits T x

variable {T : Expr → FieldType} {e : Expr}

/-- The node of a well-typed expression fits. -/
theorem Typed.fits (h : Typed T e) : Fits T e := h e .self

/-- What is visited from a well-typed expression is well typed. -/
theorem Typed.of_visited (h : Typed T e) {x : Expr} (hx : Visited x e) : Typed T x :=
  fun y hy => h y (hy.trans hx)

/-- The operands of a well-typed expression are well typed. -/
theorem Typed.operand (h : Typed T e) {o : FieldType × Expr} (ho : o ∈ e.demands) : Typed T o.2 :=
  h.of_visited (.operand ho .self)

/-- An expression is well typed if its node fits and its operands are well typed. -/
theorem typed_iff : Typed T e ↔ Fits T e ∧ ∀ o ∈ e.demands, Typed T o.2 := by
  refine ⟨fun h => ⟨h.fits, fun o ho => h.operand ho⟩, fun ⟨he, h⟩ x hx => ?_⟩
  cases hx with
  | self => exact he
  | operand ho hx => exact h _ ho x hx

end Expr

end OperatorTemplate
