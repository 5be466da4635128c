import OperatorTemplate.Kernel
/-!
# Text of kernels

Operands that are sums, products, quotients, powers or comparisons are put in parentheses, so the
text needs no rules of precedence.
-/

namespace OperatorTemplate.KernelOver

/-- The nodes that are put in parentheses where they are operands. -/
def isInfix : Kernel → Bool
  | .sum _ | .product _ | .quotient _ _ | .power _ _ | .comparison _ _ _ => true
  | _ => false

/-- `text`, in parentheses where it is the text of a node written with an infix sign. -/
def enclose (k : Kernel) (text : String) : String :=
  if k.isInfix then "(" ++ text ++ ")" else text

mutual
/-- The text of a kernel. -/
def render : Kernel → String
  | .component .interior index => "int[" ++ toString index ++ "]"
  | .component .exterior index => "ext[" ++ toString index ++ "]"
  | .normal axis => "n[" ++ toString axis ++ "]"
  | .constant value => value.render
  | .parameter name => name
  | .sum terms => " + ".intercalate (renderOperands terms)
  | .product factors => " * ".intercalate (renderOperands factors)
  | .quotient a b => enclose a (render a) ++ " / " ++ enclose b (render b)
  | .power a b => enclose a (render a) ++ " ** " ++ enclose b (render b)
  | .comparison a r b => enclose a (render a) ++ " " ++ r.symbol ++ " " ++ enclose b (render b)
  | .conditional c a b => "If(" ++ render c ++ ", " ++ render a ++ ", " ++ render b ++ ")"
  | .call f arguments => f ++ "(" ++ ", ".intercalate (renderAll arguments) ++ ")"

/-- The texts of several kernels. -/
def renderAll : List Kernel → List String
  | [] => []
  | k :: ks => render k :: renderAll ks

/-- The texts of several operands. -/
def renderOperands : List Kernel → List String
  | [] => []
  | k :: ks => enclose k (render k) :: renderOperands ks
end

end OperatorTemplate.KernelOver
