import OperatorTemplate.Expr.Equality
import OperatorTemplate.Expr.Fold
/-!
# Dependencies

The data that an expression reads: its variables and subscripts, and, depending on the search, whole
calls, operator applications and exchanges.  A search visits each distinct subexpression once and
lists what it finds in the order of first occurrence.
-/

namespace OperatorTemplate

/-- What counts as a dependency, beside variables and subscripts. -/
structure DependencySearch where
  /-- A call is a dependency itself; otherwise its arguments are searched. -/
  includeCalls : Bool := true
  /-- An operator application or an exchange is a dependency itself; otherwise its operands are
  searched. -/
  includeApplications : Bool := false
  deriving DecidableEq, Repr

namespace DependencySearch

/-- The expression is itself a dependency. -/
def reports (search : DependencySearch) : Expr → Bool
  | .atom (.variable _) | .subscript _ _ => true
  | .call _ _ => search.includeCalls
  | .apply _ _ | .exchange _ _ _ => search.includeApplications
  | _ => false

/-- What a search has met so far. -/
structure Progress where
  /-- The expressions visited. -/
  visited : List Expr := []
  /-- The dependencies found, in order of first occurrence. -/
  found : List Expr := []

/-- Searches an expression, unless it was visited before. -/
def step (search : DependencySearch) (e : Expr)
    (visit : Expr.Descent (Progress → Progress) e) (progress : Progress) : Progress :=
  if e ∈ progress.visited then progress
  else
    let progress := { progress with visited := e :: progress.visited }
    if search.reports e then { progress with found := progress.found ++ [e] }
    else
      e.children.attach.foldl (fun progress c =>
        visit c.1 (Expr.size_lt_of_attached c) progress) progress

/-- The progress of a search after `e`. -/
def visit (search : DependencySearch) (e : Expr) : Progress → Progress := e.recurse search.step

/-- The dependencies of `e`, each once, in order of first occurrence. -/
def collect (search : DependencySearch) (e : Expr) : List Expr := (search.visit e {}).found

end DependencySearch

end OperatorTemplate
