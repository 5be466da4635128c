import OperatorTemplate.Inference.LeafDefault
import OperatorTemplate.Inference.Traversal
/-!
# Type inference

Every expression of a template gets a type: passes over the roots until nothing changes, defaults
for the leaves that are still open, passes again if there were any, and a check that every entry is
final.  The memory of common subexpressions may be handed from one inference to the next; it
outlives a failure.
-/

namespace OperatorTemplate

/-- The outcome of inference. -/
structure Inference where
  table : TypeTable
  /-- The number of passes over the roots. -/
  passes : Nat

/-- Some entry is not final: the first of them is the answer. -/
def TypeTable.validate (table : TypeTable) : Except TypeError Unit :=
  match table.toList.find? fun entry => !entry.2.isFinal with
  | some (e, t) => .error (.incomplete e t)
  | none => .ok ()

namespace Inference

/-- Inference of the roots on a table that holds the hints. -/
def run (roots : List Expr) : Infer Inference := do
  let first ← runToFixpoint roots
  let (table, defaulted) ← (← get).table.applyLeafDefaults
  Infer.updateTable fun _ => table
  let second ← if defaulted then runToFixpoint roots else pure 0
  let table := (← get).table
  table.validate
  return ⟨table, first + second⟩

/-- Infers the roots under hints, from a memory of common subexpressions; returns the memory too. -/
def resume (memory : SettledMemory) (roots : List Expr) (hints : TypeHints) :
    Except TypeError Inference × SettledMemory :=
  let (result, state) := (run roots).run.run ⟨.ofHints hints, memory⟩
  (result, state.memory)

/-- Infers the roots under hints. -/
def infer (roots : List Expr) (hints : TypeHints) : Except TypeError Inference :=
  (resume .empty roots hints).1

end Inference

end OperatorTemplate
