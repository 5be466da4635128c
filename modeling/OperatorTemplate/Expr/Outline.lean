import OperatorTemplate.Expr
import OperatorTemplate.Table
/-!
# Outlines

The lengths of the leftmost and of the rightmost path through an expression.  They tell the parts of
a long chain apart after a walk along its edge, where a comparison would walk through all of it.
-/

namespace OperatorTemplate.Expr

mutual
/-- The number of nodes on the path down the first operands. -/
def leftDepth : Expr → Nat
  | .atom _ => 1
  | .subscript e _ | .shared e _ | .apply _ e => leftDepth e + 1
  | .sum es | .product es | .array es | .call _ es | .exchange _ _ es | .domainFlux es _ =>
    leftDepthOfFirst es + 1
  | .quotient e _ | .power e _ | .comparison e _ _ | .pair e _ _ | .conditional e _ _
  | .ifPositive e _ _ => leftDepth e + 1

/-- The same in the first of several expressions. -/
def leftDepthOfFirst : List Expr → Nat
  | [] => 0
  | e :: _ => leftDepth e
end

mutual
/-- The number of nodes on the path down the last operands. -/
def rightDepth : Expr → Nat
  | .atom _ => 1
  | .subscript e _ | .shared e _ | .apply _ e => rightDepth e + 1
  | .sum es | .product es | .array es | .call _ es | .exchange _ _ es | .domainFlux _ es =>
    rightDepthOfLast es + 1
  | .quotient _ e | .power _ e | .comparison _ _ e | .pair _ e _ | .conditional _ _ e
  | .ifPositive _ _ e => rightDepth e + 1

/-- The same in the last of several expressions. -/
def rightDepthOfLast : List Expr → Nat
  | [] => 0
  | [e] => rightDepth e
  | _ :: es => rightDepthOfLast es
end

instance : Fingerprint Expr := ⟨fun e => e.leftDepth + e.rightDepth⟩

end OperatorTemplate.Expr
