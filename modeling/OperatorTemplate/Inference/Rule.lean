import OperatorTemplate.Inference.Operand
/-!
# Typing rules

A rule writes down what a node asks of its operands, visits them, and returns what it knows of the
node itself.  One rule per kind of node; none of them recurses.
-/

namespace OperatorTemplate.Rule

open Infer

/-! ## Atoms -/

/-- User data are nodal, literals and parameters scalar; geometric data say where they live. -/
def atom (a : Atom) : Infer FieldType :=
  let e := Expr.atom a
  match a with
  | .constant _ | .parameter _ => unifyKnown .scalar e
  | .variable _ => unifyKnown (.represented .nodal) e
  | .ones grid | .coordinate _ grid => unifyKnown (.volume (.ofGrid grid)) e
  | .normal tag _ (some grid) => unifyKnown (.boundary tag (.quadrature grid)) e
  | .normal tag _ none => unifyKnown (.onBoundary tag) e
  | .jacobian _ | .forwardMetric _ _ | .inverseMetric _ _ => return .onVolume
  | .kernelNormal _ => throw (.unsupportedExpression e)

/-! ## Arithmetic -/

/-- The type that the operands so far agree on, and those of them that are not scalar. -/
structure Agreement where
  type : FieldType
  vectors : List Expr := []

/-- Takes one more operand into an agreement; scalars do not take part. -/
def Agreement.add (agreement : Agreement) (operand : Operand) : Infer Agreement := do
  let t ← operand.visit
  if t = .scalar then return agreement
  else
    let type ← agreement.type.unify t (some operand.expr)
    return ⟨type, agreement.vectors ++ [operand.expr]⟩

/-- All operands that are not scalar share one type, which is the type of the node.  A node over
scalars alone is scalar. -/
def arithmetic (e : Expr) (operands : List Operand) : Infer FieldType := do
  let agreement ← operands.foldlM Agreement.add { type := ← known e }
  if agreement.vectors.isEmpty then return .scalar
  else
    agreement.vectors.forM fun vector => write vector agreement.type
    return agreement.type

/-! ## Fluxes -/

/-- An input of a flux. -/
inductive FluxInput where
  /-- A field, with the domain on which the flux reads it. -/
  | field (domain : FieldType) (operand : Operand)
  /-- An expression that stands where a pair has to stand. -/
  | stray (e : Expr)

/-- Pins an input to its domain and to the representation that the inputs before it share, and
returns the representation it turns out to have. -/
def fluxInput (shared : FieldType) : FluxInput → Infer FieldType
  | .field domain operand => do
    let t ← domain.unify shared (some operand.expr)
    return (← operand.pin t).representationPart
  | .stray e => throw (.unsupportedExpression e)

/-- The inputs of a flux share one representation; its result is nodal volume data. -/
def flux (inputs : List FluxInput) : Infer FieldType := do
  let _ ← inputs.foldlM fluxInput .unknown
  return .volume .nodal

/-- Data sent to another partition are nodal volume data; what comes back lives on the boundary
towards it. -/
def exchange (rank : Nat) (arguments : List Operand) : Infer FieldType := do
  arguments.forM fun argument => do
    let _ ← argument.pin (.volume .nodal)
  return .boundary (.rank rank) .nodal

/-! ## Operators -/

/-- The type of `e`, the application of an operator that is not a flux to a field. -/
def application (op : Operator) (e : Expr) (field : Operand) : Infer FieldType := do
  match op with
  | .reduce _ => do
    let _ ← field.pin .onVolume
    return .scalar
  | .referenceQuadratureStiffnessTransposed _ grid | .referenceQuadratureMass grid => do
    let _ ← field.pin (.volume (.quadrature grid))
    return .volume .nodal
  -- the operand may come to live on a quadrature grid later on, so only its domain is pinned
  | .stiffnessTransposed _ | .referenceStiffnessTransposed _ | .mass .direct
  | .referenceMass .direct => do
    let _ ← field.pin .onVolume
    return .volume .nodal
  | .derivative _ _ | .referenceDerivative _ _ | .mass .inverse | .referenceMass .inverse
  | .elementwise _ => do
    let _ ← field.pin (.volume .nodal)
    return .volume .nodal
  | .elementwiseMax => do
    let t ← (← known e).unify .onVolume (some field.expr)
    field.pin t
  | .restrict tag => do
    -- result and operand share their representation
    let t ← FieldType.onVolume.unify (← known e).representationPart (some field.expr)
    let _ ← field.pin t
    (FieldType.onBoundary tag).unify (← known field.expr).representationPart (some e)
  | .upsample grid => do
    let _ ← field.pin (← known e).domainPart
    (FieldType.represented (.quadrature grid)).unify (← known field.expr).domainPart (some e)
  | .upsampleInteriorFaces grid => do
    let _ ← field.pin (.volume .nodal)
    return .interiorFaces grid
  | .upsampleBoundary grid tag => do
    let _ ← field.pin (.boundary tag .nodal)
    return .boundary tag (.quadrature grid)
  | .flux _ | .exchange _ _ | .external _ => throw (.unsupportedOperator op e)

end OperatorTemplate.Rule
