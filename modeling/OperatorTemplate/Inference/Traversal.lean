import OperatorTemplate.Expr.Parts
import OperatorTemplate.Inference.Rule
/-!
# Traversal

`inferWith` chooses the rule of every node and hands it the node's operands.  How a common
subexpression is treated is a parameter.  The treatment of inference is `settle`: the body is driven
to a fixpoint of its own, and its result stands until the type known of the subexpression changes
or anything is written to the table.
-/

namespace OperatorTemplate

open Infer

/-- Repeats a pass until it leaves the flag of the table cleared; returns the number of passes.
After `limit` passes it gives up. -/
def repeatUntilSettled (pass : Infer Unit) : Nat → Infer Nat
  | 0 => throw .unsettled
  | limit + 1 => do
    updateTable TypeTable.settle
    pass
    if (← get).table.changed then return (← repeatUntilSettled pass limit) + 1
    else return 1

/-- A bound on the passes over roots and over anything inside them.  Each part is written at most
twice.  A pass that writes nothing can leave the flag raised, because it renewed the result of some
common subexpression; the pass after it finds every result up to date. -/
def passLimit (roots : List Expr) : Nat := 2 * (Expr.parts roots).length + 3

/-- How a common subexpression is inferred, given itself and its body. -/
abbrev SharedRule : Type := Expr → Operand → Infer FieldType

/-- The remembered result for `e`, as long as it is up to date. -/
def remembered? (e : Expr) : Infer (Option FieldType) := do
  let state ← get
  match state.memory.get? e with
  | some last =>
    if last.type = state.table.get e ∧ last.writes = state.table.writes then return some last.type
    else return none
  | none => return none

/-- Infers a body under what is known of its common subexpression until nothing changes, remembers
the result, and asks the loop around for another pass, since it used up that loop's flag. -/
def renew (limit : Nat) (e : Expr) (body : Operand) : Infer FieldType := do
  write body.expr (← known e)
  let _ ← repeatUntilSettled (do let _ ← body.visit) limit
  let t ← known body.expr
  modify fun s =>
    { table := s.table.disturb, memory := s.memory.insert e ⟨t, s.table.writes⟩ }
  return t

/-- The remembered result of a common subexpression, renewed in at most `limit` passes if it is out
of date. -/
def settle (limit : Nat) : SharedRule := fun e body => do
  match ← remembered? e with
  | some t => return t
  | none => renew limit e body

/-- The children as operands. -/
def childOperands {e : Expr} (infer : Expr.Descent (Infer FieldType) e) : List Operand :=
  e.children.attach.map fun c => ⟨c.1, infer c.1 (Expr.size_lt_of_attached c)⟩

/-- The components of a part of `e` as operands. -/
def componentOperands {e : Expr} (infer : Expr.Descent (Infer FieldType) e) (x : Expr)
    (h : x.size < e.size) : List Operand :=
  x.components.attach.map fun c =>
    ⟨c.1, infer c.1 (Nat.lt_of_le_of_lt (Expr.size_le_of_mem_components c.2) h)⟩

/-- The components of a part of `e` as inputs of a flux that reads them on `domain`. -/
def componentInputs {e : Expr} (infer : Expr.Descent (Infer FieldType) e) (domain : FieldType)
    (x : Expr) (h : x.size < e.size) : List Rule.FluxInput :=
  (componentOperands infer x h).map (.field domain)

/-- What a flux reads of a pair: interior faces on one side, a boundary on the other.  What is no
pair stands stray. -/
def pairInputs {e : Expr} (infer : Expr.Descent (Infer FieldType) e) :
    (x : Expr) → x.size < e.size → List Rule.FluxInput
  | .pair interior boundary tag, h =>
    componentInputs infer .onInteriorFaces interior (by simp only [Expr.size] at h; omega)
      ++ componentInputs infer (.onBoundary tag) boundary (by simp only [Expr.size] at h; omega)
  | x, _ => [.stray x]

/-- What a flux reads of the field that it is applied to. -/
def fluxInputs {e : Expr} (infer : Expr.Descent (Infer FieldType) e) (x : Expr)
    (h : x.size < e.size) : List Rule.FluxInput :=
  match x, h with
  | .pair interior boundary tag, h => pairInputs infer (.pair interior boundary tag) h
  | x, h => componentInputs infer .onInteriorFaces x h

/-- The rule of a node over its operands. -/
def inferStep (shared : SharedRule) :
    (e : Expr) → Expr.Descent (Infer FieldType) e → Infer FieldType
  | .atom a, _ => Rule.atom a
  | .subscript aggregate index, _ =>
    unifyKnown (.represented .nodal) (.subscript aggregate index)
  | .sum es, infer => Rule.arithmetic (.sum es) (childOperands infer)
  | .product es, infer => Rule.arithmetic (.product es) (childOperands infer)
  | .quotient a b, infer => Rule.arithmetic (.quotient a b) (childOperands infer)
  | .power a b, infer => Rule.arithmetic (.power a b) (childOperands infer)
  | .conditional c a b, infer => Rule.arithmetic (.conditional c a b) (childOperands infer)
  | .ifPositive c a b, infer => Rule.arithmetic (.ifPositive c a b) (childOperands infer)
  | .comparison a r b, infer => Rule.arithmetic (.comparison a r b) (childOperands infer)
  | .call f es, infer => Rule.arithmetic (.call f es) (childOperands infer)
  | .shared body label, infer =>
    shared (.shared body label) ⟨body, infer body Expr.size_lt_shared⟩
  | .apply (.flux _) field, infer =>
    Rule.flux (fluxInputs infer field Expr.size_lt_apply)
  | .apply op field, infer =>
    Rule.application op (.apply op field) ⟨field, infer field Expr.size_lt_apply⟩
  | .pair a b tag, _ => throw (.unsupportedExpression (.pair a b tag))
  | .array es, _ => throw (.unsupportedExpression (.array es))
  | .exchange _ rank _, infer => Rule.exchange rank (childOperands infer)
  | .domainFlux interiors boundaries, infer =>
    Rule.flux
      (interiors.attach.flatMap (fun x =>
          componentInputs infer .onInteriorFaces x.1
            (Expr.size_lt_of_mem_children (List.mem_append_left _ x.2)))
        ++ boundaries.attach.flatMap (fun x =>
          pairInputs infer x.1 (Expr.size_lt_of_mem_children (List.mem_append_right _ x.2))))

/-- The type of an expression, as far as the table tells. -/
def inferWith (shared : SharedRule) (e : Expr) : Infer FieldType := e.recurse (inferStep shared)

/-- The components of roots as operands. -/
def rootOperands (shared : SharedRule) (roots : List Expr) : List Operand :=
  (roots.flatMap Expr.components).map fun e => ⟨e, inferWith shared e⟩

/-- One pass: every component of every root is inferred and written down. -/
def passOver (shared : SharedRule) (roots : List Expr) : Infer Unit :=
  (rootOperands shared roots).forM fun root => do
    let _ ← root.visit

/-- Passes over the roots until nothing changes; returns their number. -/
def runToFixpoint (roots : List Expr) : Infer Nat :=
  let limit := passLimit roots
  repeatUntilSettled (passOver (settle limit) roots) limit

end OperatorTemplate
