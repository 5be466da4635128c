import OperatorTemplate.Proofs.Boundary.Sharing
/-!
# What costs are read off

Costs are asked for down to the first application, exchange or common subexpression on every path;
the nodes met there are the *surface* of an expression, in the order of evaluation (`surface`).
Every node has a `price`, what it costs by itself: a barred application has none, a costly node is
expensive, any other is not.

The cost of an expression is read off its surface, node by node: it is refused for the first
application there of an operator that cannot act on boundary data, and else the expression is
expensive if a costly node is there.

The crux is that a refusal takes precedence over costs wherever it stands, because no child is left
out once the cost is settled; so the nodes of a surface can be gone through in one line
(`cost_eq_priceAll`).  To say so the cost of several expressions is taken after a cost that is known
already (`costAfter`): what is known is carried along and changes no refusal (`costAfter_eq`).

What was asked before, and refused, does not show (`costs_inTurn`).
-/

namespace OperatorTemplate

namespace Expr

/-! ## Surfaces -/

/-- A node, and the surfaces of its children unless costs stop at the node. -/
def surfaceStep : (e : Expr) → Descent (List Expr) e → List Expr
  | .apply op field, _ => [.apply op field]
  | .exchange index rank arguments, _ => [.exchange index rank arguments]
  | .shared body label, _ => [.shared body label]
  | e, surface => e :: e.children.attach.flatMap fun c => surface c.1 (size_lt_of_attached c)

/-- The nodes that are reached through children without going beneath an application, an exchange
or a common subexpression, in the order of evaluation. -/
def surface (e : Expr) : List Expr := e.recurse surfaceStep

/-- An application of an operator that cannot act on boundary data: neither a restriction, nor an
exchange, nor an upsampler. -/
def isBarred : Expr → Bool
  | .apply (.restrict _) _ | .apply (.exchange _ _) _ | .apply (.upsample _) _
  | .apply (.upsampleInteriorFaces _) _ | .apply (.upsampleBoundary _ _) _ => false
  | .apply _ _ => true
  | _ => false

variable {e x : Expr} {es nodes : List Expr} {cost : Bool}

/-- The surface of a compound node is the node and the surfaces of its children. -/
theorem surface_of_isCompound (h : e.IsCompound) : e.surface = e :: e.children.flatMap surface := by
  rw [← flatMap_attach, surface, recurse_eq]
  cases e with
  | apply _ _ | exchange _ _ _ | shared _ _ => exact h.elim
  | _ => rfl

/-- Costs stop at any other node, which is its own surface. -/
theorem surface_of_not_isCompound (h : ¬e.IsCompound) : e.surface = [e] := by
  rw [surface, recurse_eq]
  cases e with
  | apply _ _ | exchange _ _ _ | shared _ _ => rfl
  | _ => exact absurd trivial h

/-! ## Prices -/

/-- What a node costs by itself. -/
def price : Expr → Except RewriteError Bool
  | .apply op field =>
    match Costing.ofOperator? op with
    | some cost => .ok cost
    | none => .error (.illegalOperator op (.apply op field))
  | .exchange _ _ _ => .ok true
  | _ => .ok false

/-- What nodes cost together, after one of `cost`. -/
def priceAll (cost : Bool) (nodes : List Expr) : Except RewriteError Bool :=
  nodes.foldlM (fun expensive x => do
    let cost ← x.price
    return expensive || cost) cost

/-- A node is a barred application, which has no price, or it has one, which is `true` exactly if
the node is costly. -/
theorem price_cases (x : Expr) :
    (∃ op field, x = .apply op field ∧ x.isBarred = true
        ∧ x.price = .error (.illegalOperator op (.apply op field)))
      ∨ x.isBarred = false ∧ ∃ cost, x.price = .ok cost ∧ (cost = true ↔ x.IsCostly) := by
  cases x with
  | apply op field =>
    cases op with
    | restrict _ => exact .inr ⟨rfl, false, rfl, nofun, nofun⟩
    | exchange _ _ | upsample _ | upsampleInteriorFaces _ | upsampleBoundary _ _ =>
      exact .inr ⟨rfl, true, rfl, fun _ => by constructor, fun _ => rfl⟩
    | _ => exact .inl ⟨_, _, rfl, rfl, rfl⟩
  | exchange _ _ _ => exact .inr ⟨rfl, true, rfl, fun _ => by constructor, fun _ => rfl⟩
  | _ => exact .inr ⟨rfl, false, rfl, nofun, nofun⟩

theorem priceAll_cons_of_error {cause : RewriteError} (h : x.price = .error cause) :
    priceAll cost (x :: nodes) = .error cause := by
  rw [priceAll, List.foldlM_cons, h]
  rfl

theorem priceAll_cons_of_ok {c : Bool} (h : x.price = .ok c) :
    priceAll cost (x :: nodes) = priceAll (cost || c) nodes := by
  rw [priceAll, List.foldlM_cons, h]
  rfl

/-- Nodes are refused a cost exactly for the first of them that is barred, with that application in
the error, whatever is known to be expensive before it. -/
theorem priceAll_eq_error_iff {cause : RewriteError} :
    priceAll cost nodes = .error cause ↔
      ∃ op field, nodes.find? isBarred = some (.apply op field)
        ∧ cause = .illegalOperator op (.apply op field) := by
  induction nodes generalizing cost with
  | nil => exact ⟨nofun, nofun⟩
  | cons x nodes ih =>
    rcases price_cases x with ⟨op, field, rfl, barred, hp⟩ | ⟨free, c, hp, -⟩
    · rw [priceAll_cons_of_error hp, List.find?_cons_of_pos barred]
      constructor
      · intro h
        cases h
        exact ⟨op, field, rfl, rfl⟩
      · rintro ⟨_, _, h, rfl⟩
        cases h
        rfl
    · rw [priceAll_cons_of_ok hp, List.find?_cons_of_neg (by simp [free]), ih]

/-- Nodes have a cost exactly if none of them is barred, and the cost is `true` exactly if it was
before or a node is costly. -/
theorem priceAll_eq_ok_iff {result : Bool} :
    priceAll cost nodes = .ok result ↔
      nodes.find? isBarred = none ∧ (result = true ↔ cost = true ∨ ∃ x ∈ nodes, x.IsCostly) := by
  induction nodes generalizing cost with
  | nil =>
    have nothing : priceAll cost [] = .ok cost := rfl
    rw [nothing]
    cases cost <;> cases result <;> simp
  | cons x nodes ih =>
    rcases price_cases x with ⟨op, field, rfl, barred, hp⟩ | ⟨free, c, hp, hc⟩
    · rw [priceAll_cons_of_error hp, List.find?_cons_of_pos barred]
      exact ⟨nofun, nofun⟩
    · rw [priceAll_cons_of_ok hp, List.find?_cons_of_neg (by simp [free]), ih,
        Bool.or_eq_true, hc, List.exists_mem_cons_iff, or_assoc]

/-! ## Costs -/

/-- The price of a node at which costs stop is its cost. -/
theorem price_eq_cost (h : ¬e.IsCompound) : e.price = e.cost := by
  rw [cost_eq]
  cases e with
  | apply _ _ | exchange _ _ _ | shared _ _ => rfl
  | _ => exact absurd trivial h

/-- The cost of `es` after one of `cost`: a refusal is the same, and else `cost` is one more summand
of the disjunction. -/
theorem costAfter_eq (cost : Bool) (es : List Expr) :
    costAfter cost es = (do return cost || (← costAfter false es)) := by
  induction es generalizing cost with
  | nil => exact congrArg Except.ok (Bool.or_false cost).symm
  | cons e es ih =>
    rw [costAfter, costAfter, List.foldlM_cons, List.foldlM_cons]
    cases e.cost with
    | error _ => rfl
    | ok c =>
      show costAfter (cost || c) es = (do return cost || (← costAfter (false || c) es))
      rw [ih (cost || c), ih (false || c)]
      cases costAfter false es with
      | error _ => rfl
      | ok d => exact congrArg Except.ok (by rw [Bool.false_or, Bool.or_assoc])

/-- If each of `es` costs what its surface does, all of them together cost what their surfaces do,
one after the other. -/
theorem costAfter_eq_priceAll (each : ∀ e ∈ es, ∀ cost, costAfter cost [e] = priceAll cost e.surface)
    (cost : Bool) : costAfter cost es = priceAll cost (es.flatMap surface) := by
  induction es generalizing cost with
  | nil => rfl
  | cons e es ih =>
    have first : costAfter cost (e :: es) = costAfter cost [e] >>= (costAfter · es) :=
      List.foldlM_append (l := [e]) ..
    rw [first, each e List.mem_cons_self, List.flatMap_cons, priceAll, priceAll, List.foldlM_append]
    exact congrArg _ (funext fun c => ih (fun x hx => each x (List.mem_cons_of_mem e hx)) c)

/-- The cost of an expression is what the nodes of its surface cost together, after any cost.  By
induction on size. -/
theorem costAfter_singleton (e : Expr) (cost : Bool) :
    costAfter cost [e] = priceAll cost e.surface := by
  by_cases h : e.IsCompound
  · have below := costAfter_eq_priceAll (fun c (hc : c ∈ e.children) => costAfter_singleton c) cost
    -- a compound node costs nothing by itself
    have free : e.price = .ok false := by
      cases e with
      | apply _ _ | exchange _ _ _ | shared _ _ => exact h.elim
      | _ => rfl
    rw [surface_of_isCompound h, priceAll_cons_of_ok free, Bool.or_false, ← below,
      costAfter_eq cost e.children, ← cost_of_isCompound h]
    exact bind_pure _
  · rw [surface_of_not_isCompound h, priceAll, List.foldlM_cons, price_eq_cost h]
    rfl
termination_by e.size
decreasing_by exact size_lt_of_mem_children hc

/-- The cost of an expression is what the nodes of its surface cost together. -/
theorem cost_eq_priceAll (e : Expr) : e.cost = priceAll false e.surface := by
  rw [← costAfter_singleton, costAfter, List.foldlM_cons]
  cases e.cost <;> rfl

end Expr

/-! ## Questions in turn -/

namespace Costing

/-- Asks for the costs of expressions one after the other with what was remembered so far, and goes
on after failures. -/
def inTurn (asked : List Expr) : StateM CostMemory (List (Except RewriteError Bool)) :=
  asked.mapM fun e => e.isExpensive.run

open OperatorTemplate.Expr in
/-- Whatever is asked and however often the answer is a refusal, each answer is the cost of that
expression alone.  It is a refusal if an application on the surface is barred, for the first of
them; else it says whether a costly node is on the surface. -/
theorem costs_inTurn :
    (∀ asked : List Expr, ((inTurn asked).run .empty).1 = asked.map cost) ∧
    ∀ e : Expr,
      (∀ cause, e.cost = .error cause ↔
        ∃ op field, e.surface.find? isBarred = some (.apply op field)
          ∧ cause = .illegalOperator op (.apply op field)) ∧
      ∀ expensive, e.cost = .ok expensive ↔
        e.surface.find? isBarred = none ∧ (expensive = true ↔ ∃ x ∈ e.surface, x.IsCostly) := by
  refine ⟨fun asked => (Answers.inTurn answers_isExpensive asked CostMemory.valid_empty).1,
    fun e => ?_⟩
  rw [cost_eq_priceAll]
  refine ⟨fun cause => priceAll_eq_error_iff, fun expensive => ?_⟩
  rw [priceAll_eq_ok_iff]
  simp only [Bool.false_eq_true, false_or]

end Costing

end OperatorTemplate
