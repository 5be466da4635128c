import OperatorTemplate.Boundary.Error
import OperatorTemplate.Expr.Fold
import OperatorTemplate.Expr.Outline
/-!
# Cost of boundary expressions

Inside a kernel an expression is evaluated once per use.  An expression is *expensive* when that
would apply a costly operator each time: an exchange between partitions or an interpolation.  A
common subexpression is evaluated once, whatever it holds, so using one is not expensive.

Answers depend on the expression alone and are remembered.
-/

namespace OperatorTemplate

/-- The answers so far. -/
abbrev CostMemory : Type := Table Expr Bool

/-- A question about costs. -/
abbrev Costing : Type → Type := ExceptT RewriteError (StateM CostMemory)

namespace Costing

/-- Whether applying an operator to boundary data is expensive; no answer for the operators that
cannot be applied to boundary data at all. -/
def ofOperator? : Operator → Option Bool
  | .restrict _ => some false
  | .exchange _ _ | .upsample _ | .upsampleInteriorFaces _ | .upsampleBoundary _ _ => some true
  | _ => none

/-- The cost of a node.  All children are asked, so that an operator that cannot be applied is
found beside an expensive sibling too. -/
def classify : (e : Expr) → Expr.Descent (Costing Bool) e → Costing Bool
  | .apply op field, _ =>
    match ofOperator? op with
    | some cost => return cost
    | none => throw (.illegalOperator op (.apply op field))
  | .exchange _ _ _, _ => return true
  | .shared _ _, _ => return false
  | e, isExpensive =>
    e.children.attach.foldlM (fun expensive c => do
      let cost ← isExpensive c.1 (Expr.size_lt_of_attached c)
      return expensive || cost) false

/-- The remembered answer, or else a new one. -/
def step (e : Expr) (isExpensive : Expr.Descent (Costing Bool) e) : Costing Bool := do
  match (← get).get? e with
  | some cost => return cost
  | none => do
    let cost ← classify e isExpensive
    modify fun memory => memory.insert e cost
    return cost

end Costing

/-- Evaluating `e` applies an expensive operator. -/
def Expr.isExpensive (e : Expr) : Costing Bool := e.recurse Costing.step

end OperatorTemplate
