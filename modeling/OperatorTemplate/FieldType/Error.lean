import OperatorTemplate.Expr.Equality
import OperatorTemplate.Expr.Printer
import OperatorTemplate.FieldType
/-!
# Typing errors

The ways in which typing a template fails.  Every failure is fatal to the template.
-/

namespace OperatorTemplate

/-- Why typing failed. -/
inductive TypeError where
  /-- Two types that nothing satisfies at once; perhaps for an expression. -/
  | conflict (known added : FieldType) (expr : Option Expr)
  /-- Interior face data in a representation that they cannot have. -/
  | malformed (representation : Representation)
  /-- Two types absorb each other with different results. -/
  | inconsistent (left right : FieldType)
  /-- The rules leave an expression without a final type. -/
  | incomplete (expr : Expr) (known : FieldType)
  /-- No rule for an operator. -/
  | unsupportedOperator (operator : Operator) (expr : Expr)
  /-- No rule for an expression in its place. -/
  | unsupportedExpression (expr : Expr)
  /-- A loop was cut off before it settled. -/
  | unsettled
  deriving DecidableEq, Repr

/-- The expression that a conflict is about. -/
def TypeError.about : Option Expr → String
  | some e => " for '" ++ e.render ++ "'"
  | none => ""

/-- The text of an error. -/
def TypeError.message : TypeError → String
  | .conflict known added expr =>
    "types '" ++ known.render ++ "' and '" ++ added.render ++ "'" ++ about expr
      ++ " cannot be unified"
  | .malformed r =>
    "InteriorFacesVector is not usable with non-quadrature representation '" ++ r.render ++ "'"
  | .inconsistent left right =>
    "types '" ++ left.render ++ "' and '" ++ right.render ++ "' don't agree about their unifier"
  | .incomplete expr known =>
    "type inference was unable to deduce complete type information for '" ++ expr.render
      ++ "' (only '" ++ known.render ++ "')"
  | .unsupportedOperator op expr =>
    "type inference doesn't know how to handle operator '" ++ op.render ++ "' in '" ++ expr.render
      ++ "'"
  | .unsupportedExpression expr =>
    "type inference doesn't know how to handle '" ++ expr.render ++ "'"
  | .unsettled => "type inference did not settle"

end OperatorTemplate
