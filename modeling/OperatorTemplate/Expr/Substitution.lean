import OperatorTemplate.Expr.Fold
import OperatorTemplate.Table
/-!
# Substitution of variables

All variables of an expression are replaced at once; what is put in their place is not searched
again.  Some variables may be refused: the first of them, in the order of evaluation, is the answer
of the whole substitution.
-/

namespace OperatorTemplate

/-- What stands for each variable. -/
structure Substitution where
  replacements : Table String Expr
  /-- The variables that must not occur. -/
  refused : List String := []

namespace Substitution

/-- Substitution fails with the name of a variable, and remembers whether it replaced anything. -/
abbrev Run : Type → Type := ExceptT String (StateM Bool)

/-- What happens at one node. -/
def step (s : Substitution) : (e : Expr) → Expr.Descent (Run Expr) e → Run Expr
  | .atom (.variable name), _ => do
    if name ∈ s.refused then throw name
    match s.replacements.get? name with
    | some replacement => do
      set true
      return replacement
    | none => return .atom (.variable name)
  | e, fold => e.rebuild fold

/-- The substituted expression, with `true` if any variable was replaced. -/
def apply (s : Substitution) (e : Expr) : Except String (Expr × Bool) :=
  let (result, replaced) := (e.recurse s.step).run.run false
  result.map fun e' => (e', replaced)

end Substitution

end OperatorTemplate
