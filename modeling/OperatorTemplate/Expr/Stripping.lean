import OperatorTemplate.Expr.Fold
import OperatorTemplate.Expr.Printer
/-!
# Stripping of wrappers

Removes the wrappers of common subexpressions, the applications of the elementwise maximum, or both,
and keeps a record of every wrapper and every application that it meets, from the root downwards.
-/

namespace OperatorTemplate

/-- Which wrappers are removed. -/
structure Stripping where
  /-- Common subexpressions give way to their bodies. -/
  shared : Bool
  /-- Applications of the elementwise maximum give way to their operands. -/
  maxima : Bool

namespace Stripping

/-- What is recorded on the way. -/
structure Record where
  lines : List String := []
  /-- Some wrapper was removed. -/
  removed : Bool := false

/-- Adds a line to the record. -/
def note (line : String) : StateM Record Unit :=
  modify fun r => { r with lines := r.lines ++ [line] }

/-- Puts the folded `x` in the place of `e`. -/
def unwrap (e x : Expr) (h : x.size < e.size) (fold : Expr.Descent (StateM Record Expr) e) :
    StateM Record Expr := do
  modify fun r => { r with removed := true }
  fold x h

/-- What happens at one node. -/
def step (s : Stripping) : (e : Expr) → Expr.Descent (StateM Record Expr) e → StateM Record Expr
  | .shared body label, fold => do
    note ("cse " ++ body.render)
    if s.shared then unwrap (.shared body label) body Expr.size_lt_shared fold
    else Expr.rebuild (.shared body label) fold
  | .apply op field, fold => do
    note ("bind " ++ op.render)
    if s.maxima && op == .elementwiseMax then
      unwrap (.apply op field) field Expr.size_lt_apply fold
    else Expr.rebuild (.apply op field) fold
  | e, fold => e.rebuild fold

/-- The stripped expression and the record of the run. -/
def apply (s : Stripping) (e : Expr) : Expr × Record := (e.recurse s.step).run {}

end Stripping

end OperatorTemplate
