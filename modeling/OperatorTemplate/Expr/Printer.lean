import OperatorTemplate.Expr
import OperatorTemplate.Operator.Printer
/-!
# Text of expressions

Used in messages.  Operands that are sums, products, quotients, powers or comparisons are put in
parentheses, so the text needs no rules of precedence.
-/

namespace OperatorTemplate

/-- The quadrature grid behind an at sign; nothing for nodal data. -/
def gridSuffix : Option QuadratureTag → String
  | some grid => "@" ++ grid.name
  | none => ""

/-- The text of an atom. -/
def Atom.render : Atom → String
  | .constant value => value.render
  | .variable name | .parameter name => name
  | .normal tag axis grid =>
    "normal[" ++ tag.render ++ "][" ++ toString axis ++ "]" ++ gridSuffix grid
  | .kernelNormal axis => "FluxNormal[" ++ toString axis ++ "]"
  | .coordinate axis grid => "x" ++ toString axis ++ gridSuffix grid
  | .ones grid => "Ones" ++ gridSuffix grid
  | .jacobian grid => "Jacobian" ++ gridSuffix grid
  | .forwardMetric space reference => "dx" ++ toString space ++ "/dr" ++ toString reference
  | .inverseMetric reference space => "dr" ++ toString reference ++ "/dx" ++ toString space

namespace Expr

/-- The nodes that are put in parentheses where they are operands. -/
def isInfix : Expr → Bool
  | .sum _ | .product _ | .quotient _ _ | .power _ _ | .comparison _ _ _ => true
  | _ => false

/-- `text`, in parentheses where it is the text of a node written with an infix sign. -/
def enclose (e : Expr) (text : String) : String :=
  if e.isInfix then "(" ++ text ++ ")" else text

/-- The name of a common subexpression in square brackets; nothing without a name. -/
def labelText : Option String → String
  | some label => "[" ++ label ++ "]"
  | none => ""

mutual
/-- The text of an expression. -/
def render : Expr → String
  | .atom a => a.render
  | .subscript e index => enclose e (render e) ++ "[" ++ toString index ++ "]"
  | .sum terms => " + ".intercalate (renderOperands terms)
  | .product factors => " * ".intercalate (renderOperands factors)
  | .quotient a b => enclose a (render a) ++ " / " ++ enclose b (render b)
  | .power a b => enclose a (render a) ++ " ** " ++ enclose b (render b)
  | .conditional c a b => "If(" ++ render c ++ ", " ++ render a ++ ", " ++ render b ++ ")"
  | .ifPositive c a b => "IfPositive(" ++ render c ++ ", " ++ render a ++ ", " ++ render b ++ ")"
  | .comparison a r b => enclose a (render a) ++ " " ++ r.symbol ++ " " ++ enclose b (render b)
  | .call f arguments => f ++ "(" ++ ", ".intercalate (renderAll arguments) ++ ")"
  | .shared body label => "CSE" ++ labelText label ++ "(" ++ render body ++ ")"
  | .apply op field => op.render ++ "(" ++ render field ++ ")"
  | .pair interior boundary tag =>
    "BPair(" ++ render interior ++ ", " ++ render boundary ++ ", " ++ tag.render ++ ")"
  | .array elements => "[" ++ ", ".intercalate (renderAll elements) ++ "]"
  | .exchange index rank arguments =>
    "FluxExchange[" ++ toString index ++ ", rank " ++ toString rank ++ "]("
      ++ ", ".intercalate (renderAll arguments) ++ ")"
  | .domainFlux interiors boundaries =>
    "WholeDomainFlux(interiors: [" ++ ", ".intercalate (renderAll interiors)
      ++ "], boundaries: [" ++ ", ".intercalate (renderAll boundaries) ++ "])"

/-- The texts of several expressions. -/
def renderAll : List Expr → List String
  | [] => []
  | e :: es => render e :: renderAll es

/-- The texts of several operands. -/
def renderOperands : List Expr → List String
  | [] => []
  | e :: es => enclose e (render e) :: renderOperands es
end

/-- The text of an expression marked as an expression. -/
def describe (e : Expr) : String := "Expr(" ++ e.render ++ ")"

end Expr

end OperatorTemplate
