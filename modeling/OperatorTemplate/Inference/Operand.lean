import OperatorTemplate.TypeTable
/-!
# Operands

Typing rules run against a type table and a memory of common subexpressions; both outlive a failing
rule.  A rule does not recurse itself: it is handed *operands*, expressions together with the action
that infers them, and decides in which order to pin, visit and combine them.
-/

namespace OperatorTemplate

/-- The last result for a common subexpression, and the number of writes of the table by then. -/
structure Settled where
  type : FieldType
  writes : Nat
  deriving DecidableEq, Repr

/-- The last results for common subexpressions. -/
abbrev SettledMemory : Type := Table Expr Settled

/-- What inference works on. -/
structure InferenceState where
  table : TypeTable
  memory : SettledMemory

/-- An action of inference. -/
abbrev Infer : Type → Type := ExceptT TypeError (StateM InferenceState)

namespace Infer

/-- What is known of an expression. -/
def known (e : Expr) : Infer FieldType := return (← get).table.get e

/-- Changes the table. -/
def updateTable (f : TypeTable → TypeTable) : Infer Unit :=
  modify fun s => { s with table := f s.table }

/-- Adds `t` to what is known of `e`; a conflict leaves the table as it is. -/
def write (e : Expr) (t : FieldType) : Infer Unit := do
  let table ← (← get).table.set e t
  updateTable fun _ => table

/-- `t`, with what is known of `e` added. -/
def unifyKnown (t : FieldType) (e : Expr) : Infer FieldType := do
  t.unify (← known e) (some e)

end Infer

/-- An expression and the action that infers its type. -/
structure Operand where
  expr : Expr
  infer : Infer FieldType

namespace Operand

/-- Infers the operand and writes its type down. -/
def visit (operand : Operand) : Infer FieldType := do
  let t ← operand.infer
  Infer.write operand.expr t
  return t

/-- Writes down what the context asks of the operand, then infers it. -/
def pin (operand : Operand) (t : FieldType) : Infer FieldType := do
  Infer.write operand.expr t
  operand.visit

end Operand

end OperatorTemplate
