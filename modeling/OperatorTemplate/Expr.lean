import OperatorTemplate.Operator
/-!
# Expressions

An operator template is a list of expressions.  Atoms are the data that a discretization or its
user provides; arithmetic, conditionals and calls combine values pointwise; operators are applied to
fields; a pair brings an interior and a boundary field together; arrays hold several fields.

`children` lists the direct operands of an expression in the order of evaluation, and `size` counts
its nodes; a child is smaller than its parent (`size_lt_of_mem_children`), the measure of every
recursion that does not follow the constructors.
-/

namespace OperatorTemplate

/-- Expressions without operands. -/
inductive Atom where
  | constant (value : Literal)
  /-- A field that the user binds. -/
  | variable (name : String)
  /-- A scalar that the user binds. -/
  | parameter (name : String)
  /-- A component of the outward normal on a part of the boundary. -/
  | normal (tag : BoundaryTag) (axis : Nat) (grid : Option QuadratureTag)
  /-- The normal of a flux kernel, which has no meaning outside one. -/
  | kernelNormal (axis : Nat)
  | coordinate (axis : Nat) (grid : Option QuadratureTag)
  | ones (grid : Option QuadratureTag)
  | jacobian (grid : Option QuadratureTag)
  | forwardMetric (spaceAxis referenceAxis : Nat)
  | inverseMetric (referenceAxis spaceAxis : Nat)
  deriving DecidableEq, Repr

/-- An expression of a template. -/
inductive Expr where
  | atom (atom : Atom)
  | subscript (aggregate : Expr) (index : Nat)
  | sum (terms : List Expr)
  | product (factors : List Expr)
  | quotient (numerator denominator : Expr)
  | power (base exponent : Expr)
  | conditional (condition positive negative : Expr)
  /-- A conditional that tests whether its criterion is positive. -/
  | ifPositive (criterion positive negative : Expr)
  | comparison (left : Expr) (relation : Relation) (right : Expr)
  | call (function : String) (arguments : List Expr)
  /-- A common subexpression, perhaps with a name for its variable. -/
  | shared (body : Expr) (label : Option String)
  | apply (operator : Operator) (field : Expr)
  /-- An interior field, a boundary field, and the part of the boundary where they meet. -/
  | pair (interior boundary : Expr) (tag : BoundaryTag)
  | array (elements : List Expr)
  /-- Data received from the partition of a rank. -/
  | exchange (index rank : Nat) (arguments : List Expr)
  /-- The flux contributions of a whole domain; each boundary contribution is a pair. -/
  | domainFlux (interiors boundaries : List Expr)
  deriving Repr

namespace Expr

/-- The integer zero. -/
def zero : Expr := .atom (.constant (.int 0))

/-- Negation is multiplication by the integer `-1`. -/
instance : Neg Expr := ⟨fun e => .product [.atom (.constant (.int (-1))), e]⟩

/-! ## Parts -/

/-- The direct operands, in the order of evaluation. -/
def children : Expr → List Expr
  | .atom _ => []
  | .subscript aggregate _ => [aggregate]
  | .sum es | .product es | .array es | .call _ es | .exchange _ _ es => es
  | .quotient a b | .power a b | .comparison a _ b | .pair a b _ => [a, b]
  | .conditional c a b | .ifPositive c a b => [c, a, b]
  | .shared body _ => [body]
  | .apply _ field => [field]
  | .domainFlux interiors boundaries => interiors ++ boundaries

/-- The fields that an expression holds: the elements of an array, else the expression itself. -/
def components : Expr → List Expr
  | .array elements => elements
  | e => [e]

/-- A literal zero. -/
def isZero : Expr → Bool
  | .atom (.constant value) => value.isZero
  | _ => false

/-- No operands: an atom, or a node whose list of operands is empty. -/
def isLeaf (e : Expr) : Bool := e.children.isEmpty

mutual
/-- The number of nodes. -/
def size : Expr → Nat
  | .atom _ => 1
  | .subscript e _ | .shared e _ | .apply _ e => size e + 1
  | .sum es | .product es | .array es | .call _ es | .exchange _ _ es => sizeAll es + 1
  | .quotient a b | .power a b | .comparison a _ b | .pair a b _ => size a + size b + 1
  | .conditional c a b | .ifPositive c a b => size c + size a + size b + 1
  | .domainFlux interiors boundaries => sizeAll interiors + sizeAll boundaries + 1

/-- The number of nodes of several expressions. -/
def sizeAll : List Expr → Nat
  | [] => 0
  | e :: es => size e + sizeAll es
end

/-- An expression of a list has no more nodes than the list. -/
theorem size_le_sizeAll {e : Expr} {es : List Expr} (h : e ∈ es) : e.size ≤ sizeAll es := by
  induction es with
  | nil => cases h
  | cons x xs ih =>
    simp only [sizeAll]
    cases h with
    | head => omega
    | tail _ h => have := ih h; omega

/-- The nodes of `xs ++ ys` are those of `xs` and those of `ys`. -/
theorem sizeAll_append (xs ys : List Expr) : sizeAll (xs ++ ys) = sizeAll xs + sizeAll ys := by
  induction xs with
  | nil => simp [sizeAll]
  | cons x xs ih => simp only [List.cons_append, sizeAll, ih]; omega

/-- An expression has one node more than its children together. -/
theorem size_eq_sizeAll_children (e : Expr) : e.size = sizeAll e.children + 1 := by
  cases e <;> simp [size, children, sizeAll, sizeAll_append] <;> omega

/-- A child `c` of `e` has fewer nodes than `e`.  This is the measure of the recursions that follow
`children` and not the constructors. -/
theorem size_lt_of_mem_children {c e : Expr} (h : c ∈ e.children) : c.size < e.size := by
  have := size_le_sizeAll h
  have := size_eq_sizeAll_children e
  omega

/-- The same for a child that carries the proof of being one, as in a recursion over
`children.attach`. -/
theorem size_lt_of_attached {e : Expr} (c : { x // x ∈ e.children }) : c.1.size < e.size :=
  size_lt_of_mem_children c.2

/-- The body of a common subexpression is smaller than the subexpression. -/
theorem size_lt_shared {body : Expr} {label : Option String} :
    body.size < (shared body label).size :=
  size_lt_of_mem_children List.mem_cons_self

/-- The operand of an operator is smaller than the application. -/
theorem size_lt_apply {op : Operator} {field : Expr} : field.size < (apply op field).size :=
  size_lt_of_mem_children List.mem_cons_self

/-- What is smaller than a pair is smaller than a flux on the pair. -/
theorem size_lt_flux {f : Flux} {interior boundary x : Expr} {tag : BoundaryTag}
    (h : x.size < (pair interior boundary tag).size) :
    x.size < (apply (.flux f) (pair interior boundary tag)).size :=
  Nat.lt_trans h size_lt_apply

/-- A component `c` of `e`, that is an element of the array `e` or `e` itself, has at most as many
nodes as `e`. -/
theorem size_le_of_mem_components {c e : Expr} (h : c ∈ e.components) : c.size ≤ e.size := by
  cases e <;> simp [components] at h
  -- an array: `c` is one of its elements.  In all other cases `c` is `e`.
  case array es =>
    have := size_le_sizeAll h
    simp only [size]
    omega
  all_goals subst h; exact Nat.le_refl _

end Expr

end OperatorTemplate
