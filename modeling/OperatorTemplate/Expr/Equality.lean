import OperatorTemplate.Expr
/-!
# Equality of expressions

Expressions are compared by structure: an expression is its `head` over its children
(`eq_of_head_of_children`), and two are equal if their heads are and their children are, pairwise.

The same part of two expressions is often one object in memory.  The test asks for that first, at
every node, so parts that recur are not walked through again.
-/

namespace OperatorTemplate.Expr

/-! ## Heads -/

/-- An expression without its operands: the kind of its node and what the node carries. -/
inductive Head where
  | atom (atom : Atom)
  | subscript (index : Nat)
  | sum
  | product
  | quotient
  | power
  | conditional
  | ifPositive
  | comparison (relation : Relation)
  | call (function : String)
  | shared (label : Option String)
  | apply (operator : Operator)
  | pair (tag : BoundaryTag)
  | array
  | exchange (index rank : Nat)
  /-- A domain flux carries the number of its interior contributions. -/
  | domainFlux (interiors : Nat)
  deriving DecidableEq, Repr

/-- The head of an expression. -/
def head : Expr → Head
  | .atom a => .atom a
  | .subscript _ index => .subscript index
  | .sum _ => .sum
  | .product _ => .product
  | .quotient _ _ => .quotient
  | .power _ _ => .power
  | .conditional _ _ _ => .conditional
  | .ifPositive _ _ _ => .ifPositive
  | .comparison _ relation _ => .comparison relation
  | .call function _ => .call function
  | .shared _ label => .shared label
  | .apply op _ => .apply op
  | .pair _ _ tag => .pair tag
  | .array _ => .array
  | .exchange index rank _ => .exchange index rank
  | .domainFlux interiors _ => .domainFlux interiors.length

/-- An expression is its head over its children. -/
theorem eq_of_head_of_children {e e' : Expr} (hh : e.head = e'.head)
    (hc : e.children = e'.children) : e = e' := by
  cases e <;> cases e' <;> simp_all [head, children]
  case domainFlux => exact List.append_inj hc hh

/-! ## Equality -/

/-- Decides whether a list is empty. -/
def decideNil : (ys : List Expr) → Decidable ([] = ys)
  | [] => isTrue rfl
  | _ :: _ => isFalse nofun

/-- Decides the equality with a list that is not empty, the heads of the lists first. -/
def decideCons {x : Expr} {xs : List Expr} (first : (y : Expr) → Decidable (x = y))
    (rest : (ys : List Expr) → Decidable (xs = ys)) : (ys : List Expr) → Decidable (x :: xs = ys)
  | [] => isFalse nofun
  | y :: ys =>
    match first y with
    | isFalse h => isFalse fun e => h (List.cons.inj e).1
    | isTrue h =>
      match rest ys with
      | isFalse h' => isFalse fun e => h' (List.cons.inj e).2
      | isTrue h' => isTrue (by rw [h, h'])

/-- Decides whether a list is the concatenation of two others. -/
def decideAppend {xs ys : List Expr} (first : (es : List Expr) → Decidable (xs = es))
    (rest : (es : List Expr) → Decidable (ys = es)) (es : List Expr) : Decidable (xs ++ ys = es) :=
  match first (es.take xs.length) with
  | isFalse h => isFalse fun e => h (by rw [← e, List.take_left])
  | isTrue h =>
    match rest (es.drop xs.length) with
    | isFalse h' => isFalse fun e => h' (by rw [← e, List.drop_left])
    | isTrue h' => isTrue (by
        conv => lhs; rw [h, h']
        exact List.take_append_drop xs.length es)

/-- Decides the equality of expressions, their heads before their children. -/
def decideParts {e : Expr} (e' : Expr)
    (children : (es : List Expr) → Decidable (e.children = es)) : Decidable (e = e') :=
  if h : e.head = e'.head then
    match children e'.children with
    | isTrue hc => isTrue (eq_of_head_of_children h hc)
    | isFalse hc => isFalse fun he => hc (he ▸ rfl)
  else isFalse fun he => h (he ▸ rfl)

mutual
/-- Decides the equality of two expressions. -/
def decideEq (e e' : Expr) : Decidable (e = e') :=
  withPtrEqDecEq e e' fun _ =>
    match e with
    | .atom _ => decideParts e' decideNil
    | .subscript a _ | .shared a _ | .apply _ a =>
      decideParts e' (decideCons (decideEq a) decideNil)
    | .sum es | .product es | .array es | .call _ es | .exchange _ _ es =>
      decideParts e' (decideAllEq es)
    | .quotient a b | .power a b | .comparison a _ b | .pair a b _ =>
      decideParts e' (decideCons (decideEq a) (decideCons (decideEq b) decideNil))
    | .conditional c a b | .ifPositive c a b =>
      decideParts e'
        (decideCons (decideEq c) (decideCons (decideEq a) (decideCons (decideEq b) decideNil)))
    | .domainFlux is bs => decideParts e' (decideAppend (decideAllEq is) (decideAllEq bs))
termination_by structural e

/-- Decides the equality of two lists of expressions. -/
def decideAllEq (es es' : List Expr) : Decidable (es = es') :=
  match es with
  | [] => decideNil es'
  | e :: es => decideCons (decideEq e) (decideAllEq es) es'
termination_by structural es
end

instance : DecidableEq Expr := decideEq

end OperatorTemplate.Expr
