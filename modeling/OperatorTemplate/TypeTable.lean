import OperatorTemplate.FieldType.Unify
import OperatorTemplate.Expr.Outline
/-!
# Type tables

What is known so far about the types of expressions.  Writing a type unifies it with the recorded
one, so entries only gain information.  A table counts the writes that added some, and carries the
flag by which a loop notices that a pass over a template achieved anything.
-/

namespace OperatorTemplate

/-- The best known type of each expression. -/
structure TypeTable where
  types : Table Expr FieldType
  /-- Something was added, or another pass is wanted, since the flag was cleared. -/
  changed : Bool
  /-- The number of writes that added information. -/
  writes : Nat

/-- Types that are given from outside, the last one for an expression counting. -/
abbrev TypeHints : Type := List (Expr × FieldType)

namespace TypeTable

/-- The table that holds the hints. -/
def ofHints (hints : TypeHints) : TypeTable := ⟨Table.ofList hints, false, 0⟩

/-- The type recorded for an expression, if there is one. -/
def lookup? (table : TypeTable) (e : Expr) : Option FieldType := table.types.get? e

/-- The type known of an expression; nothing is known of an expression that is not recorded. -/
def get (table : TypeTable) (e : Expr) : FieldType := (table.lookup? e).getD .unknown

/-- Records a type that says more than what was recorded. -/
def record (table : TypeTable) (e : Expr) (t : FieldType) : TypeTable :=
  ⟨table.types.insert e t, true, table.writes + 1⟩

/-- Adds `t` to what is known of `e`.  Writing `unknown` does nothing. -/
def set (table : TypeTable) (e : Expr) (t : FieldType) : Except TypeError TypeTable :=
  if t = .unknown then .ok table
  else
    match table.lookup? e with
    | none => .ok (table.record e t)
    | some old => do
      let new ← old.unify t (some e)
      return if new = old then table else table.record e new

/-- Clears the flag. -/
def settle (table : TypeTable) : TypeTable := { table with changed := false }

/-- Raises the flag without a write. -/
def disturb (table : TypeTable) : TypeTable := { table with changed := true }

/-- The recorded expressions and their types. -/
def toList (table : TypeTable) : List (Expr × FieldType) := table.types.toList

/-- The number of entries. -/
def size (table : TypeTable) : Nat := table.types.size

end TypeTable

end OperatorTemplate
