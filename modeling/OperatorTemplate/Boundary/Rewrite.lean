import OperatorTemplate.Boundary.Alias
import OperatorTemplate.Boundary.Inputs
import OperatorTemplate.Kernel.Substitution
/-!
# Rewriting of boundary fluxes

Every flux on a pair gets a kernel that computes the boundary field itself: the translation of each
boundary component is put for the exterior component that read it.  The new pair holds the inputs
that the translation gathered.  A kernel that vanishes makes the whole flux zero.
-/

namespace OperatorTemplate

/-- What the rewriting of a template keeps from one root to the next. -/
structure RewriteState where
  costs : CostMemory := .empty
  /-- The results for common subexpressions. -/
  results : Table Expr Expr := .empty
  /-- The number of fluxes rewritten. -/
  rewritten : Nat := 0

/-- An action of rewriting. -/
abbrev Rewrite : Type → Type := ExceptT RewriteError (StateM RewriteState)

/-- `kernel` with each exterior component replaced by the kernel at its position.  The first
component without a counterpart is an error. -/
def Kernel.substituteBoundary (kernel : Kernel) (replacements : List Kernel) :
    Except RewriteError Kernel :=
  match kernel.components.find? fun c => c.1 == .exterior && replacements.length ≤ c.2 with
  | some (_, index) => .error (.componentOutOfRange index replacements.length)
  | none =>
    .ok (kernel.substitute fun
      | .component .exterior index => replacements[index]?
      | _ => none)

namespace Rewrite

/-- Rewrites expressions that are smaller than `e`, in order. -/
def all {e : Expr} (rewrite : Expr.Descent (Rewrite Expr) e) (es : List Expr)
    (h : ∀ x ∈ es, x.size < e.size) : Rewrite (List Expr) :=
  es.attach.mapM fun x => rewrite x.1 (h x.1 x.2)

/-- The flux on a pair, rewritten.  The inputs of the new pair are rewritten after the flux. -/
def fluxOnPair (f : Flux) (interior boundary : Expr) (tag : BoundaryTag)
    (rewrite : Expr.Descent (Rewrite Expr) (.pair interior boundary tag)) : Rewrite Expr := do
  checkPair interior boundary
  let costs := (← get).costs
  let translation := translatePair costs interior boundary tag
  have small := allInputs_translatePair costs interior boundary tag
  modify fun s => { s with costs := translation.2.costs }
  let kernel ← f.kernel.substituteBoundary (← translation.1)
  modify fun s => { s with rewritten := s.rewritten + 1 }
  if kernel.isZero then return .zero
  else
    let volume ← all rewrite translation.2.volume small.1
    let boundary ← all rewrite translation.2.boundary small.2
    return .apply (.flux ⟨f.kind, kernel⟩) (.pair (.array volume) (.array boundary) tag)

/-- The result for a common subexpression: the one that was found before, else `result`. -/
def once (e : Expr) (result : Rewrite Expr) : Rewrite Expr := do
  match (← get).results.get? e with
  | some found => return found
  | none => do
    let found ← result
    modify fun s => { s with results := s.results.insert e found }
    return found

/-- What happens at one node. -/
def step : (e : Expr) → Expr.Descent (Rewrite Expr) e → Rewrite Expr
  | .shared body label, rewrite =>
    once (.shared body label) (Expr.rebuild (.shared body label) rewrite)
  | .apply (.flux f) (.pair interior boundary tag), rewrite =>
    fluxOnPair f interior boundary tag fun x h => rewrite x (Expr.size_lt_flux h)
  | e, rewrite => e.rebuild rewrite

/-- Rewrites one root. -/
def root (e : Expr) : Rewrite Expr := e.recurse step

end Rewrite

/-- Rewrites all boundary fluxes of the roots. -/
def rewriteBoundaryFluxes (roots : List Expr) : Except RewriteError (List Expr) :=
  ((roots.mapM Rewrite.root).run.run {}).1

end OperatorTemplate
