import OperatorTemplate.Proofs.Inference.Plain
/-!
# Silent runs

A run is *silent* if it succeeds and leaves the state alone.  Where is a plain rule silent?  It is a
sequence of lookups, unifications, writes and visits, and for each of these the answer is easy.  For
the sequence it is not quite: the steps might change the state and change it back.

They cannot.  A plain action either leaves the state alone or writes (`Steady`), writes are counted,
and no write is taken back.  So a sequence is silent exactly if its steps are (`silent_bind_iff`,
`silent_forM_iff`), and a silent run can be taken apart step by step.
-/

namespace OperatorTemplate

open Infer

variable {α β γ : Type}

/-- Every run leaves the state alone or writes something. -/
def Steady (action : Infer α) : Prop :=
  ∀ s : InferenceState, (action.run.run s).2 = s
    ∨ s.table.writes < (action.run.run s).2.table.writes

/-- Run on a table without a memory, the action succeeds with `a` and changes nothing. -/
def Silent (action : Infer α) (table : TypeTable) (a : α) : Prop :=
  action.run.run ⟨table, .empty⟩ = (.ok a, ⟨table, .empty⟩)

/-! ## Steady actions -/

namespace Steady

theorem pure (a : α) : Steady (Pure.pure a) := fun _ => .inl rfl

/-- A failure leaves the state alone. -/
theorem throw (cause : TypeError) : Steady (MonadExcept.throw cause : Infer α) := fun _ => .inl rfl

/-- A lookup leaves the state alone. -/
theorem known (e : Expr) : Steady (Infer.known e) := fun _ => .inl rfl

/-- A unification leaves the state alone, whether it succeeds or not. -/
theorem lift (answer : Except TypeError α) : Steady (liftM answer : Infer α) := fun s => by
  cases answer <;> exact .inl rfl

/-- A write fails and leaves the state alone, says nothing new and leaves it alone, or is counted.
-/
theorem write (e : Expr) (t : FieldType) : Steady (Infer.write e t) := fun s => by
  cases hset : s.table.set e t with
  | error cause =>
    rw [run_write_of_error hset]
    exact .inl rfl
  | ok table =>
    rw [run_write_of_ok hset]
    rcases (TypeTable.set_spec hset).eq_or_record with rfl | ⟨-, hr⟩
    · exact .inl rfl
    · right
      show s.table.writes < table.writes
      rw [hr]
      exact Nat.lt_succ_self _

/-- A sequence is steady if its steps are: what the first step writes, the second one counts on
from. -/
theorem bind {action : Infer α} {next : α → Infer β} (ha : Steady action)
    (hn : ∀ a, Steady (next a)) : Steady (action >>= next) := fun s => by
  have first := ha s
  rcases run_bind_cases action next s with ⟨cause, s', hr, h⟩ | ⟨a, s', hr, h⟩ <;> rw [hr] at first <;>
    rw [h]
  · exact first
  · rcases first with rfl | hlt
    · exact hn a _
    · rcases hn a s' with heq | hlt'
      · rw [heq]
        exact .inr hlt
      · exact .inr (Nat.lt_trans hlt hlt')

/-- A fold is steady if each of its steps is, whatever was accumulated before. -/
theorem foldlM {f : α → γ → Infer α} {xs : List γ} (h : ∀ a, ∀ x ∈ xs, Steady (f a x)) (a : α) :
    Steady (xs.foldlM f a) := by
  induction xs generalizing a with
  | nil => exact pure a
  | cons x xs ih =>
    rw [List.foldlM_cons]
    exact bind (h a x List.mem_cons_self) fun b =>
      ih (fun c y hy => h c y (List.mem_cons_of_mem x hy)) b

/-- Actions one after the other are steady if each of them is. -/
theorem forM {f : γ → Infer PUnit} {xs : List γ} (h : ∀ x ∈ xs, Steady (f x)) :
    Steady (xs.forM f) := by
  induction xs with
  | nil => exact pure _
  | cons x xs ih =>
    exact bind (h x List.mem_cons_self) fun _ => ih fun y hy => h y (List.mem_cons_of_mem x hy)

end Steady

/-! ## Silent runs of the basic actions -/

section Silent

variable {table : TypeTable}

/-- A constant answer is silent. -/
theorem silent_pure_iff {a b : α} : Silent (pure a) table b ↔ b = a := by
  unfold Silent
  rw [run_pure_eq_ok]
  exact ⟨fun h => h.1, fun h => ⟨h, rfl⟩⟩

/-- A failure is not silent. -/
theorem not_silent_throw {cause : TypeError} {a : α} : ¬Silent (throw cause) table a :=
  run_throw_ne_ok

/-- A lookup is silent, and answers what the table tells. -/
theorem silent_known_iff {e : Expr} {t : FieldType} :
    Silent (known e) table t ↔ t = table.get e := by
  unfold Silent
  rw [run_known, Prod.mk.injEq, Except.ok.injEq]
  exact ⟨fun h => h.1.symm, fun h => ⟨h.symm, rfl⟩⟩

/-- A unification is silent with the answer `c` exactly if `c` is the join of both types. -/
theorem silent_unify_iff {a b c : FieldType} {e : Option Expr} :
    Silent (liftM (a.unify b e)) table c ↔ FieldType.Joins a b c := by
  rw [← FieldType.unify_eq_ok_iff (e := e)]
  unfold Silent
  cases a.unify b e with
  | error cause => exact ⟨fun h => (nomatch congrArg Prod.fst h), nofun⟩
  | ok d =>
    constructor
    · intro h
      exact congrArg Prod.fst h
    · intro h
      rw [h]
      rfl

/-- A write for `e` is silent exactly if it says nothing new of `e`. -/
theorem silent_write_iff {e : Expr} {t : FieldType} :
    Silent (write e t) table () ↔ t ≤ table.get e := by
  refine ⟨fun h => ?_, fun h => run_write_of_le h⟩
  exact (written_of_run h).1.joins.right

/-- A sequence is silent with the answer `b` exactly if its first step is silent, with some answer
`a`, and the second step is silent after `a`, with the answer `b`. -/
theorem silent_bind_iff {action : Infer α} {next : α → Infer β} (ha : Steady action)
    (hn : ∀ a, Steady (next a)) {b : β} :
    Silent (action >>= next) table b ↔ ∃ a, Silent action table a ∧ Silent (next a) table b := by
  refine ⟨fun h => ?_, fun ⟨a, h, h'⟩ => run_bind_eq_ok.mpr ⟨a, _, h, h'⟩⟩
  obtain ⟨a, s, hr, hr'⟩ := run_bind_eq_ok.mp h
  -- what the first step writes, the second does not take back
  have first := ha ⟨table, .empty⟩
  have second := hn a s
  rw [hr] at first
  rw [hr'] at second
  have same : s = ⟨table, .empty⟩ := by
    rcases first with h | h
    · exact h
    · rcases second with h' | h'
      · exact h'.symm
      · exact absurd (Nat.lt_trans h h') (Nat.lt_irrefl _)
  subst same
  exact ⟨a, hr, hr'⟩

/-- A sequence of actions without answers is silent if each of them is. -/
theorem silent_forM_iff {f : γ → Infer PUnit} {xs : List γ} (h : ∀ x ∈ xs, Steady (f x)) :
    Silent (xs.forM f) table ⟨⟩ ↔ ∀ x ∈ xs, Silent (f x) table ⟨⟩ := by
  induction xs with
  | nil => exact ⟨fun _ => nofun, fun _ => rfl⟩
  | cons x xs ih =>
    have tail (y : γ) (hy : y ∈ xs) := h y (List.mem_cons_of_mem x hy)
    rw [List.forall_mem_cons, ← ih tail]
    refine (silent_bind_iff (h x List.mem_cons_self) fun _ => Steady.forM tail).trans ?_
    exact ⟨fun ⟨_, h, h'⟩ => ⟨h, h'⟩, fun ⟨h, h'⟩ => ⟨⟨⟩, h, h'⟩⟩

end Silent

end OperatorTemplate
