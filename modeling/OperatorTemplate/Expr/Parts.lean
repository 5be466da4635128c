import OperatorTemplate.Expr.Equality
import OperatorTemplate.Expr.Fold
/-!
# Parts

The parts of an expression are the expression itself and the parts of its operands.  They are listed
without repetition: what has been listed is not searched again, so a part that occurs in many places
costs no more than one.
-/

namespace OperatorTemplate.Expr

/-- The parts of `e` before a list of parts, unless `e` is listed. -/
def addPartsStep (e : Expr) (add : Descent (List Expr → List Expr) e) (parts : List Expr) :
    List Expr :=
  if e ∈ parts then parts
  else e :: e.children.attach.foldl
    (fun parts c => add c.1 (size_lt_of_attached c) parts) parts

/-- Puts the parts of `e` that are not listed yet before a list of parts. -/
def addParts (e : Expr) : List Expr → List Expr := e.recurse addPartsStep

/-- The parts of several expressions, each once. -/
def parts (es : List Expr) : List Expr := es.foldl (fun parts e => e.addParts parts) []

end OperatorTemplate.Expr
