import OperatorTemplate.Expr
/-!
# Recursion and folds

A function on expressions is given by its step: what happens at a node, with the function available
for everything smaller than the node (`Descent`).  `recurse` closes the recursion.

A fold turns an expression into another, in a monad.  Its ordinary step is `rebuild`: fold the
children in order and put the node together again (`mapChildrenM`).
-/

namespace OperatorTemplate

universe u

variable {m : Type → Type} [Monad m]

namespace Expr

/-- Maps a step over a list from left to right; the step may use that its argument is listed. -/
def mapListM : (es : List Expr) → ((c : Expr) → c ∈ es → m Expr) → m (List Expr)
  | [], _ => pure []
  | e :: es, step => do
    let e' ← step e List.mem_cons_self
    let es' ← mapListM es fun c h => step c (List.mem_cons_of_mem e h)
    return e' :: es'

/-- The same kind of node over the results of a step on its children, taken in order. -/
def mapChildrenM : (e : Expr) → ((c : Expr) → c ∈ e.children → m Expr) → m Expr
  | .atom a, _ => pure (.atom a)
  | .subscript e i, step => do
    return .subscript (← step e (by simp [children])) i
  | .sum es, step => return .sum (← mapListM es step)
  | .product es, step => return .product (← mapListM es step)
  | .quotient a b, step => do
    return .quotient (← step a (by simp [children])) (← step b (by simp [children]))
  | .power a b, step => do
    return .power (← step a (by simp [children])) (← step b (by simp [children]))
  | .conditional c a b, step => do
    return .conditional (← step c (by simp [children])) (← step a (by simp [children]))
      (← step b (by simp [children]))
  | .ifPositive c a b, step => do
    return .ifPositive (← step c (by simp [children])) (← step a (by simp [children]))
      (← step b (by simp [children]))
  | .comparison a r b, step => do
    return .comparison (← step a (by simp [children])) r (← step b (by simp [children]))
  | .call f es, step => return .call f (← mapListM es step)
  | .shared e label, step => do
    return .shared (← step e (by simp [children])) label
  | .apply op e, step => do
    return .apply op (← step e (by simp [children]))
  | .pair a b tag, step => do
    return .pair (← step a (by simp [children])) (← step b (by simp [children])) tag
  | .array es, step => return .array (← mapListM es step)
  | .exchange i r es, step => return .exchange i r (← mapListM es step)
  | .domainFlux interiors boundaries, step => do
    let interiors' ← mapListM interiors fun c h => step c (List.mem_append_left _ h)
    let boundaries' ← mapListM boundaries fun c h => step c (List.mem_append_right _ h)
    return .domainFlux interiors' boundaries'

/-- How the step at `e` gets the results of smaller expressions. -/
abbrev Descent (α : Type u) (e : Expr) : Type u := (x : Expr) → x.size < e.size → α

/-- The function whose value at `e` is `step e`, given its values at all smaller expressions. -/
def recurse {α : Type u} (step : (e : Expr) → Descent α e → α) (e : Expr) : α :=
  step e fun x _ => recurse step x
termination_by e.size

/-- The ordinary step of a fold: `e` over its folded children. -/
def rebuild (e : Expr) (fold : Descent (m Expr) e) : m Expr :=
  e.mapChildrenM fun c h => fold c (size_lt_of_mem_children h)

end Expr

end OperatorTemplate
