import OperatorTemplate.Boundary.Cost
/-!
# Translation of boundary fields

A boundary field of a pair is turned into a kernel.  What the kernel can compute from face data is
translated; everything else becomes an *input*, read by position:

* volume inputs, read as interior components.  They start with the interior fields of the pair; a
  restriction of a volume field to the pair's boundary reads that field.
* boundary inputs, read as exterior components: data that still have to be computed on the boundary.

An expression is listed once and keeps its position.  A failing translation leaves the inputs that
it listed before.
-/

namespace OperatorTemplate

/-- What a translation has gathered. -/
structure TranslationState where
  costs : CostMemory
  volume : List Expr
  boundary : List Expr := []
  /-- The kernels of the common subexpressions met so far. -/
  kernels : Table Expr Kernel := .empty

/-- An action of translation. -/
abbrev Translate : Type → Type := ExceptT RewriteError (StateM TranslationState)

/-- The position of `e` in a list of inputs, and the list, which `e` joins at the end if it was
not there. -/
def register (e : Expr) (inputs : List Expr) : Nat × List Expr :=
  match inputs.idxOf? e with
  | some index => (index, inputs)
  | none => (inputs.length, inputs ++ [e])

namespace Translate

/-- The kernel that reads `e` as a volume input. -/
def volumeInput (e : Expr) : Translate Kernel := do
  let (index, volume) := register e (← get).volume
  modify fun s => { s with volume := volume }
  return .component .interior index

/-- The kernel that reads `e` as a boundary input. -/
def boundaryInput (e : Expr) : Translate Kernel := do
  let (index, boundary) := register e (← get).boundary
  modify fun s => { s with boundary := boundary }
  return .component .exterior index

/-- Asks for the cost of an expression. -/
def isExpensive (e : Expr) : Translate Bool := do
  let (result, costs) := e.isExpensive.run.run (← get).costs
  modify fun s => { s with costs := costs }
  result

/-- A tag inside a boundary field has to be the tag of the pair. -/
def checkTag (expected : BoundaryTag) (carrier : TagCarrier) (found : BoundaryTag) :
    Translate Unit :=
  if found = expected then return () else throw (.tagMismatch carrier found expected)

/-- The boundary that an expression lives on, where its outermost operator tells. -/
def evidentTag? : Expr → Option BoundaryTag
  | .apply (.restrict tag) _ | .apply (.upsampleBoundary _ tag) _ => some tag
  | .apply (.exchange _ rank) _ | .exchange _ rank _ => some (.rank rank)
  | .shared body _ => evidentTag? body
  | _ => none

/-- An application inside a boundary field.  The tag of an upsampler that carries none is checked
where its operand makes it evident. -/
def application (tag : BoundaryTag) (op : Operator) (field : Expr) : Translate Kernel :=
  match op with
  | .restrict found => do
    checkTag tag .restriction found
    volumeInput field
  | .exchange _ rank => do
    checkTag tag .exchange (.rank rank)
    boundaryInput (.apply op field)
  | .upsampleBoundary _ found => do
    checkTag tag .boundaryUpsampler found
    boundaryInput (.apply op field)
  | .upsample _ => do
    match evidentTag? field with
    | some found => checkTag tag .upsampler found
    | none => pure ()
    boundaryInput (.apply op field)
  | _ => throw (.illegalOperator op (.apply op field))

/-- An atom inside a boundary field.  Geometric data other than normals have no counterpart in
kernels. -/
def atom (tag : BoundaryTag) (a : Atom) : Translate Kernel :=
  match a with
  | .constant value => return .constant value
  | .parameter name => return .parameter name
  | .variable _ => boundaryInput (.atom a)
  | .normal found axis _ => do
    checkTag tag .normal found
    return .normal axis
  | .kernelNormal _ => throw (.bareNormal (.atom a))
  | .coordinate _ _ | .ones _ | .jacobian _ | .forwardMetric _ _ | .inverseMetric _ _ =>
    throw (.unsupportedExpression (.atom a))

/-- The kernel of a common subexpression: the one that was found before, else `translation`. -/
def once (e : Expr) (translation : Translate Kernel) : Translate Kernel := do
  match (← get).kernels.get? e with
  | some kernel => return kernel
  | none => do
    let kernel ← translation
    modify fun s => { s with kernels := s.kernels.insert e kernel }
    return kernel

mutual
/-- The kernel that computes an expression of a boundary field with a given tag.  A common
subexpression is an input if its body is expensive, and is translated like its body otherwise. -/
def expr (tag : BoundaryTag) : Expr → Translate Kernel
  | .atom a => atom tag a
  | .subscript aggregate index => boundaryInput (.subscript aggregate index)
  | .exchange index rank arguments => boundaryInput (.exchange index rank arguments)
  | .apply op field => application tag op field
  | .shared body label => once (.shared body label) do
    if ← isExpensive body then boundaryInput (.shared body label) else expr tag body
  | .sum es => return .sumOf (← all tag es)
  | .product es => return .productOf (← all tag es)
  | .quotient a b => return .quotientOf (← expr tag a) (← expr tag b)
  | .power a b => return .power (← expr tag a) (← expr tag b)
  | .comparison a r b => return .comparison (← expr tag a) r (← expr tag b)
  | .conditional c a b => return .conditionalOf (← expr tag c) (← expr tag a) (← expr tag b)
  | .ifPositive c a b =>
    return .conditionalOf (.comparison (← expr tag c) .gt .zero) (← expr tag a) (← expr tag b)
  | .call f es => return .call f (← all tag es)
  | .pair a b t => throw (.unsupportedExpression (.pair a b t))
  | .array es => throw (.unsupportedExpression (.array es))
  | .domainFlux is bs => throw (.unsupportedExpression (.domainFlux is bs))

/-- The kernels of several expressions, from left to right. -/
def all (tag : BoundaryTag) : List Expr → Translate (List Kernel)
  | [] => pure []
  | e :: es => do
    let kernel ← expr tag e
    let kernels ← all tag es
    return kernel :: kernels
end

end Translate

end OperatorTemplate
