import OperatorTemplate.Boundary.Error
import OperatorTemplate.Expr.Dependency
/-!
# Aliased pairs

The two sides of a pair must not read the same data: a field is either a volume quantity or a
boundary quantity.  Operator applications and exchanges count as data of their own, so a boundary
field may well restrict a volume field.
-/

namespace OperatorTemplate

/-- How the boundary side of a pair is searched: through the arguments of calls. -/
def boundarySearch : DependencySearch := ⟨false, true⟩

/-- How the interior side of a pair is searched: calls count as wholes. -/
def interiorSearch : DependencySearch := ⟨true, true⟩

/-- The data that both sides of a pair read, in the order of the boundary side. -/
def sharedData (interior boundary : Expr) : List Expr :=
  let ofInterior := interiorSearch.collect interior
  (boundarySearch.collect boundary).filter (· ∈ ofInterior)

/-- A pair must not be aliased. -/
def checkPair (interior boundary : Expr) : Except RewriteError Unit :=
  match sharedData interior boundary with
  | [] => .ok ()
  | shared => .error (.aliased shared)

/-- An alias check remembers the common subexpressions that it has been through. -/
abbrev AliasCheck : Type → Type := ExceptT RewriteError (StateM (List Expr))

namespace AliasCheck

/-- Checks the children in order. -/
def children {e : Expr} (check : Expr.Descent (AliasCheck Unit) e) : AliasCheck Unit :=
  e.children.attach.forM fun c => check c.1 (Expr.size_lt_of_attached c)

/-- A flux on a pair is checked before anything inside it. -/
def step : (e : Expr) → Expr.Descent (AliasCheck Unit) e → AliasCheck Unit
  | .shared body label, check => do
    if .shared body label ∈ (← get) then return ()
    else
      modify (.shared body label :: ·)
      children check
  | .apply (.flux _) (.pair interior boundary _), check => do
    checkPair interior boundary
    children check
  | _, check => children check

end AliasCheck

/-- Every flux on a pair, anywhere in the roots, keeps the two sides of its pair apart. -/
def checkBoundaryAliasing (roots : List Expr) : Except RewriteError Unit :=
  ((roots.forM fun root => root.recurse AliasCheck.step : AliasCheck Unit).run.run []).1

end OperatorTemplate
