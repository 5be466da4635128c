import OperatorTemplate.Inference.Traversal
import OperatorTemplate.Proofs.Action
import OperatorTemplate.Proofs.TypeTable
/-!
# Inference without a memory

`plain` treats a common subexpression without remembering anything: what is known of it is written
down for its body, the body is inferred once, and what is known of the body then is the answer.  A
table that a plain pass leaves unchanged solves the typing rules of the roots (`Unchanged`).

This is the yardstick for inference with a memory.  A remembered result is right if the plain rule
would give it without changing anything, so what matters of a plain action is where it changes
nothing: actions that succeed on a table and change nothing are `Quiet` there.  Quiet actions
compose, and only the entries of a table matter to them, not its flag or its counter.
-/

namespace OperatorTemplate

open Infer

/-- A common subexpression is inferred like its body, once, under what is known of it. -/
def plain : SharedRule := fun e body => do
  write body.expr (← known e)
  let _ ← body.visit
  known body.expr

/-- A plain pass over the roots succeeds on the table and leaves every entry as it is. -/
def TypeTable.Unchanged (table : TypeTable) (roots : List Expr) : Prop :=
  ∃ after, (passOver plain roots).run.run ⟨table, .empty⟩ = (.ok (), after)
    ∧ ∀ e, after.table.get e = table.get e

variable {α β : Type}

/-! ## Runs of the basic actions -/

namespace Infer

/-- A lookup answers what the table tells of `e`, and leaves the state alone. -/
theorem run_known (e : Expr) (s : InferenceState) :
    (known e).run.run s = (.ok (s.table.get e), s) := rfl

/-- A write that the table accepts succeeds, and puts the new table in place of the old one. -/
theorem run_write_of_ok {e : Expr} {t : FieldType} {s : InferenceState} {table : TypeTable}
    (h : s.table.set e t = .ok table) :
    (write e t).run.run s = (.ok (), { s with table := table }) := by
  show ((liftM (s.table.set e t) : Infer TypeTable) >>= fun table =>
    updateTable fun _ => table).run.run s = _
  rw [h]
  rfl

/-- A write that the table refuses fails with its error, and leaves the state alone. -/
theorem run_write_of_error {e : Expr} {t : FieldType} {s : InferenceState} {cause : TypeError}
    (h : s.table.set e t = .error cause) : (write e t).run.run s = (.error cause, s) := by
  show ((liftM (s.table.set e t) : Infer TypeTable) >>= fun table =>
    updateTable fun _ => table).run.run s = _
  rw [h]
  rfl

/-- Writing a type `t` below what is known of `e` changes nothing. -/
theorem run_write_of_le {e : Expr} {t : FieldType} {s : InferenceState} (h : t ≤ s.table.get e) :
    (write e t).run.run s = (.ok (), s) :=
  run_write_of_ok (TypeTable.set_of_le h)

/-- A successful write writes to the table and leaves the memory alone. -/
theorem written_of_run {e : Expr} {t : FieldType} {s s' : InferenceState}
    (h : (write e t).run.run s = (.ok (), s')) :
    TypeTable.Written e t s.table s'.table ∧ s'.memory = s.memory := by
  cases hs : s.table.set e t with
  | error cause =>
    rw [run_write_of_error hs] at h
    nomatch congrArg Prod.fst h
  | ok table =>
    rw [run_write_of_ok hs] at h
    cases h
    exact ⟨TypeTable.set_spec hs, rfl⟩

end Infer

/-! ## Quiet actions -/

/-- On every table with these entries the action succeeds with `a` and changes nothing. -/
def Quiet (action : Infer α) (table : TypeTable) (a : α) : Prop :=
  ∀ s : InferenceState, s.table.types = table.types → action.run.run s = (.ok a, s)

namespace Quiet

variable {table table' : TypeTable}

/-- Quietness depends on the entries of the table alone. -/
theorem congr {action : Infer α} {a : α} (h : Quiet action table a)
    (ht : table'.types = table.types) : Quiet action table' a :=
  fun s hs => h s (hs.trans ht)

theorem pure (a : α) : Quiet (Pure.pure a) table a := fun _ _ => rfl

/-- A quiet action, followed by an action that is quiet after its answer, is quiet. -/
theorem bind {action : Infer α} {next : α → Infer β} {a : α} {b : β} (ha : Quiet action table a)
    (hn : Quiet (next a) table b) : Quiet (action >>= next) table b :=
  fun s hs => run_bind_eq_ok.mpr ⟨a, s, ha s hs, hn s hs⟩

/-- An action whose answer is dropped, before another one. -/
theorem drop {action : Infer α} {next : Infer β} {b : β}
    (ha : Quiet (do let _ ← action) table ()) (hn : Quiet next table b) :
    Quiet (do let _ ← action; next) table b := by
  intro s hs
  obtain ⟨a, s', hr, h⟩ := run_bind_eq_ok.mp (ha s hs)
  obtain ⟨-, rfl⟩ := run_pure_eq_ok.mp h
  exact run_bind_eq_ok.mpr ⟨a, s, hr, hn s hs⟩

/-- A lookup is quiet. -/
theorem known (e : Expr) : Quiet (Infer.known e) table (table.get e) := fun s hs => by
  rw [run_known, TypeTable.get_congr hs]

/-- A unification that succeeds is quiet: it does not look at the state. -/
theorem lift {answer : Except TypeError α} {a : α} (h : answer = .ok a) :
    Quiet (liftM answer) table a := fun s _ => by
  subst h
  rfl

/-- A write of what is known already is quiet. -/
theorem write {e : Expr} {t : FieldType} (h : t ≤ table.get e) : Quiet (Infer.write e t) table () :=
  fun s hs => run_write_of_le (by rw [TypeTable.get_congr hs]; exact h)

end Quiet

end OperatorTemplate
