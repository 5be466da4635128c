import OperatorTemplate.TypeTable
/-!
# Defaults for leaves

What a fixpoint leaves open about user data and geometric data is completed: they are nodal unless
something says otherwise, and live on the volume unless something says otherwise.
-/

namespace OperatorTemplate

/-- The atoms whose type may be completed. -/
def Atom.isDefaultable : Atom → Bool
  | .constant _ | .parameter _ | .kernelNormal _ => false
  | _ => true

/-- The expressions whose type may be completed. -/
def Expr.isDefaultable : Expr → Bool
  | .atom a => a.isDefaultable
  | .subscript _ _ => true
  | _ => false

/-- The type of a leaf, made nodal if its representation is open, then volume data if it is still
not final. -/
def FieldType.completed (t : FieldType) (e : Expr) : Except TypeError FieldType := do
  let t ← if t.representation?.isNone then t.unify (.represented .nodal) (some e) else pure t
  if t.isFinal then return t else t.unify .onVolume (some e)

namespace TypeTable

/-- The entries that defaults apply to. -/
def pendingLeaves (table : TypeTable) : List (Expr × FieldType) :=
  table.toList.filter fun entry => entry.1.isDefaultable && !entry.2.isFinal

/-- Completes the types of all leaves; tells whether there was anything to complete. -/
def applyLeafDefaults (table : TypeTable) : Except TypeError (TypeTable × Bool) := do
  let completed ← table.pendingLeaves.foldlM
    (fun table entry => do table.set entry.1 (← entry.2.completed entry.1)) table
  return (completed, !table.pendingLeaves.isEmpty)

end TypeTable

end OperatorTemplate
