import OperatorTemplate.Expr.Equality
import OperatorTemplate.Expr.Printer
/-!
# Errors of boundary rewriting

The ways in which moving a boundary field into a flux kernel fails.  Every failure is fatal to the
template.
-/

namespace OperatorTemplate

/-- What carries a boundary tag inside a boundary field. -/
inductive TagCarrier where
  | normal
  | restriction
  | exchange
  | boundaryUpsampler
  | upsampler
  deriving DecidableEq, Repr

/-- The name of a carrier in messages. -/
def TagCarrier.render : TagCarrier → String
  | .normal => "boundary normal component"
  | .restriction => "restriction"
  | .exchange => "flux exchange"
  | .boundaryUpsampler => "boundary upsampler"
  | .upsampler => "upsampler"

/-- Why rewriting failed. -/
inductive RewriteError where
  /-- An operator that cannot act on boundary data. -/
  | illegalOperator (operator : Operator) (expr : Expr)
  /-- Data that both sides of a pair read, in the order of the boundary side. -/
  | aliased (shared : List Expr)
  /-- A tag that differs from the tag of the pair around it. -/
  | tagMismatch (carrier : TagCarrier) (found expected : BoundaryTag)
  /-- The normal of a flux kernel, outside a kernel. -/
  | bareNormal (expr : Expr)
  /-- A kernel reads a boundary component that the pair does not have. -/
  | componentOutOfRange (index count : Nat)
  /-- An expression without a counterpart in kernels. -/
  | unsupportedExpression (expr : Expr)
  deriving DecidableEq, Repr

/-- The text of an error. -/
def RewriteError.message : RewriteError → String
  | .illegalOperator op expr =>
    "found '" ++ op.render
      ++ "' in a boundary term; no operator applies directly to boundary data (in '"
      ++ expr.render ++ "')"
  | .aliased shared =>
    "variables are being used as both boundary and volume quantities: "
      ++ ", ".intercalate (shared.map Expr.render)
  | .tagMismatch carrier found expected =>
    carrier.render ++ " and boundary pair do not agree about boundary tag: " ++ found.render
      ++ " vs " ++ expected.render
  | .bareNormal expr =>
    "boundary field contains the flux normal '" ++ expr.render
      ++ "'; use a boundary normal component for normals in boundary terms"
  | .componentOutOfRange index count =>
    "flux kernel reads boundary component " ++ toString index ++ ", but the boundary field has "
      ++ toString count
  | .unsupportedExpression expr =>
    "'" ++ expr.render ++ "' cannot be evaluated inside a flux kernel"

end OperatorTemplate
