import OperatorTemplate.Inference
import OperatorTemplate.Proofs.Inference.LeafDefault
import OperatorTemplate.Proofs.Inference.Solution
/-!
# The order of roots does not matter

Inference of two lists of roots with the same set of components (`SameComponents`) succeeds on both
or on neither, and on success gives the same type to every expression, whatever the order in which
the components are visited and however often each is (`infer_same_components`).

A table solves the typing rules of some roots if each of their components is well typed in it, which
says nothing of an order.  So two loops whose starts have the same entries have the same set of
solutions (`solutions_eq`), and end in the same least one (`runToFixpoint_same`).  The defaults in
between act entry by entry, hence keep tables with the same entries (`SameEntries`) so.

Two accounts of a run of inference serve here and in later files: its steps, with the loop after the
defaults under the name `resettle` (`run_eq`), and what a success consists of (`Succeeds`,
`infer_eq_ok_iff`).
-/

namespace OperatorTemplate

open Infer

variable {roots roots' : List Expr}

/-! ## Loops over roots -/

/-- Roots with the same components. -/
def SameComponents (roots roots' : List Expr) : Prop :=
  ∀ e, e ∈ roots.flatMap Expr.components ↔ e ∈ roots'.flatMap Expr.components

/-- Having the same components is symmetric. -/
theorem SameComponents.symm (h : SameComponents roots roots') : SameComponents roots' roots :=
  fun e => (h e).symm

/-- Tables that look up the same for every expression.  They may differ in the flag and the number
of writes. -/
def TypeTable.SameEntries (table table' : TypeTable) : Prop :=
  ∀ e, table'.lookup? e = table.lookup? e

/-- Tables with the same entries give every expression the same type. -/
theorem TypeTable.SameEntries.get_eq {table table' : TypeTable} (h : table.SameEntries table')
    (e : Expr) : table'.get e = table.get e := by
  rw [get, get, h e]

/-- Roots with the same components have the same solutions above starts with the same entries. -/
theorem solutions_eq (h : SameComponents roots roots') {start start' : TypeTable}
    (hs : start.SameEntries start') : Solutions roots' start' = Solutions roots start := by
  ext D
  refine and_congr (forall_congr' fun e => ?_) ?_
  · rw [hs.get_eq e]
  · rw [unchanged_iff_typed, unchanged_iff_typed]
    exact forall_congr' fun e => imp_congr_left (h e).symm

/-- Two tables that have grown from the same entries to the same types have the same entries: growth
makes no entry that is `.unknown`. -/
theorem lookup?_eq_of_grows {start start' table table' : TypeTable} (h : start.Grows table)
    (h' : start'.Grows table') (hs : start.SameEntries start')
    (hg : ∀ e, table'.get e = table.get e) : table.SameEntries table' := by
  intro e
  -- an unknown entry was there at the start, on both sides
  by_cases hu : table.get e = .unknown
  · rw [h.blank e hu, h'.blank e ((hg e).trans hu), hs e]
  · rw [TypeTable.lookup?_of_get hu, TypeTable.lookup?_of_get (hg e ▸ hu), hg e]

/-- If a loop succeeds, so does the loop over roots with the same components, from the same entries,
and both end in the same entries. -/
theorem runToFixpoint_same (h : SameComponents roots roots') {s₀ s₀' s : InferenceState}
    (hv : s₀.Valid) (hv' : s₀'.Valid) (hs : s₀.table.SameEntries s₀'.table) {n : Nat}
    (hr : (runToFixpoint roots).run.run s₀ = (.ok n, s)) :
    ∃ n' s', (runToFixpoint roots').run.run s₀' = (.ok n', s') ∧ IsFixpoint roots s₀ s
      ∧ IsFixpoint roots' s₀' s' ∧ s.table.SameEntries s'.table := by
  have fixpoint := fixpoint_of_run hv hr
  have solutions := solutions_eq h hs
  -- where the first loop ends solves the other roots as well, so their loop ends below it
  obtain ⟨hle, hD⟩ : s.table ∈ Solutions roots' s₀'.table := solutions ▸ fixpoint.least.1
  obtain ⟨n', s', hr', -⟩ := exists_run_of_solution hD hv' hle
  have fixpoint' := fixpoint_of_run hv' hr'
  have least' : IsLeast (Solutions roots s₀.table) s'.table := solutions ▸ fixpoint'.least
  exact ⟨n', s', hr', fixpoint, fixpoint', lookup?_eq_of_grows fixpoint.grows fixpoint'.grows hs
    fun e => le_antisymm (least'.2 fixpoint.least.1 e) (fixpoint.least.2 least'.1 e)⟩

/-! ## Inference -/

/-- The last step accepts a table exactly if all its entries are final. -/
theorem TypeTable.validate_eq_ok_iff {table : TypeTable} :
    table.validate = .ok () ↔ ∀ e t, table.lookup? e = some t → t.isFinal = true := by
  have none : table.validate = .ok () ↔ table.toList.find? (fun entry => !entry.2.isFinal) = none := by
    unfold validate
    split
    next h => simp [h]
    next h => simp [h]
  rw [none, List.find?_eq_none]
  constructor
  · intro h e t hl
    simpa using h (e, t) (Table.mem_toList.mpr hl)
  · rintro h ⟨e, t⟩ hm
    simpa using h e t (Table.mem_toList.mp hm)

namespace Inference

/-- The loop after the defaults, which runs only if some leaf was given a default. -/
def resettle (roots : List Expr) (defaulted : Bool) : Infer Nat :=
  if defaulted then runToFixpoint roots else pure 0

/-- The steps of inference, one after the other: a loop, the defaults, the loop after them, and the
check that all types are final. -/
theorem run_eq (roots : List Expr) :
    run roots = (do
      let first ← runToFixpoint roots
      let s ← get
      let (table, defaulted) ← s.table.applyLeafDefaults
      updateTable fun _ => table
      let second ← resettle roots defaulted
      let s ← get
      s.table.validate
      return ⟨s.table, first + second⟩) := by
  refine bind_congr fun first => bind_congr fun s => bind_congr fun entry => bind_congr fun _ => ?_
  obtain ⟨table, defaulted⟩ := entry
  cases defaulted <;> rfl

/-- A successful inference: `n` passes to `s₁`, defaults that give `table`, `m` passes to `s₂` (none
if no leaf was pending), final types in `s₂`, and the answer `i` made of that table and `n + m`. -/
structure Succeeds (roots : List Expr) (hints : TypeHints) (i : Inference) (n m : Nat)
    (s₁ s₂ : InferenceState) (table : TypeTable) : Prop where
  first : (runToFixpoint roots).run.run ⟨.ofHints hints, .empty⟩ = (.ok n, s₁)
  defaults : s₁.table.applyLeafDefaults = .ok (table, !s₁.table.pendingLeaves.isEmpty)
  second : (resettle roots !s₁.table.pendingLeaves.isEmpty).run.run { s₁ with table := table }
    = (.ok m, s₂)
  final : s₂.table.validate = .ok ()
  eq : i = ⟨s₂.table, n + m⟩

/-- Inference answers `i` exactly if there is a successful run of the phases that makes up `i`. -/
theorem infer_eq_ok_iff {hints : TypeHints} {i : Inference} :
    infer roots hints = .ok i ↔ ∃ n m s₁ s₂ table, Succeeds roots hints i n m s₁ s₂ table := by
  have unfolded : infer roots hints = ((run roots).run.run ⟨.ofHints hints, .empty⟩).1 := rfl
  rw [unfolded, run_eq]
  constructor
  · -- each step of the sequence succeeded, in a state that the previous one left
    intro h
    obtain ⟨n, s₁, first, hr⟩ := run_bind_eq_ok.mp (Prod.ext h rfl)
    obtain ⟨_, _, hg, hr⟩ := run_bind_eq_ok.mp hr
    cases hg
    obtain ⟨table, hd, -⟩ := s₁.table.applyLeafDefaults_spec
    obtain ⟨entry, _, hl, hr⟩ := run_bind_eq_ok.mp hr
    rw [hd] at hl
    cases hl
    obtain ⟨_, _, hu, hr⟩ := run_bind_eq_ok.mp hr
    cases hu
    obtain ⟨m, s₂, second, hr⟩ := run_bind_eq_ok.mp hr
    obtain ⟨_, _, hg, hr⟩ := run_bind_eq_ok.mp hr
    cases hg
    obtain ⟨⟨⟩, s₃, hv, hr⟩ := run_bind_eq_ok.mp hr
    obtain ⟨rfl, -⟩ := run_pure_eq_ok.mp hr
    refine ⟨n, m, s₁, s₂, table, first, hd, second, ?_, rfl⟩
    cases hc : s₂.table.validate with
    | ok _ => rfl
    | error cause =>
      rw [hc] at hv
      nomatch congrArg Prod.fst hv
  · -- the steps one after the other make up the run
    rintro ⟨n, m, s₁, s₂, table, h⟩
    show _ = Prod.fst ((.ok i, s₂) : Except TypeError Inference × InferenceState)
    refine congrArg Prod.fst (run_bind_eq_ok.mpr ⟨n, s₁, h.first, run_bind_eq_ok.mpr ⟨s₁, s₁, rfl,
      run_bind_eq_ok.mpr ⟨(table, !s₁.table.pendingLeaves.isEmpty), s₁, ?_,
        run_bind_eq_ok.mpr ⟨(), { s₁ with table := table }, rfl,
          run_bind_eq_ok.mpr ⟨m, s₂, h.second, run_bind_eq_ok.mpr ⟨s₂, s₂, rfl,
            run_bind_eq_ok.mpr ⟨(), s₂, ?_, ?_⟩⟩⟩⟩⟩⟩⟩)
    · rw [h.defaults]
      rfl
    · rw [h.final]
      rfl
    · rw [h.eq]
      rfl

/-- If inference of some roots succeeds, so does inference of other roots with the same components,
and with the same entries. -/
theorem exists_infer_same (h : SameComponents roots roots') {hints : TypeHints} {i : Inference}
    (hi : infer roots hints = .ok i) :
    ∃ i', infer roots' hints = .ok i' ∧ i.table.SameEntries i'.table := by
  obtain ⟨n, m, s₁, s₂, table, hs⟩ := infer_eq_ok_iff.mp hi
  have valid := InferenceState.valid_empty (.ofHints hints)
  obtain ⟨n', s₁', first', fixpoint, fixpoint', same⟩ :=
    runToFixpoint_same h valid valid (fun _ => rfl) hs.first
  obtain ⟨_, defaults, grows, completed⟩ := s₁.table.applyLeafDefaults_spec
  cases hs.defaults.symm.trans defaults
  obtain ⟨table', defaults', grows', completed'⟩ := s₁'.table.applyLeafDefaults_spec
  have valid₁ : InferenceState.Valid { s₁ with table := table } := fixpoint.valid.of_grows grows rfl
  have valid₁' : InferenceState.Valid { s₁' with table := table' } :=
    fixpoint'.valid.of_grows grows' rfl
  have same₁ : table.SameEntries table' := fun e => by rw [completed, completed', same e]
  -- what is left to do after the defaults is the same as well
  obtain ⟨m', s₂', second', same₂⟩ : ∃ m' s₂',
      (resettle roots' !s₁'.table.pendingLeaves.isEmpty).run.run { s₁' with table := table' }
        = (.ok m', s₂') ∧ s₂.table.SameEntries s₂'.table := by
    have second := hs.second
    rw [TypeTable.isEmpty_pendingLeaves_congr same]
    cases hp : s₁.table.pendingLeaves.isEmpty with
    | false =>
      rw [hp] at second
      obtain ⟨m', s₂', hr', -, -, same₂⟩ := runToFixpoint_same h valid₁ valid₁' same₁ second
      exact ⟨m', s₂', hr', same₂⟩
    | true =>
      rw [hp] at second
      obtain ⟨-, rfl⟩ := run_pure_eq_ok.mp second
      exact ⟨0, _, rfl, same₁⟩
  refine ⟨_, infer_eq_ok_iff.mpr ⟨n', m', s₁', s₂', table', first', defaults', second', ?_, rfl⟩, ?_⟩
  · rw [TypeTable.validate_eq_ok_iff]
    intro e t hl
    exact TypeTable.validate_eq_ok_iff.mp hs.final e t ((same₂ e).symm.trans hl)
  · rw [hs.eq]
    exact same₂

/-- Inference of roots with the same components succeeds on both or on neither, and gives the same
entries. -/
theorem infer_same_components (h : SameComponents roots roots') (hints : TypeHints) :
    ((∃ i, infer roots hints = .ok i) ↔ ∃ i', infer roots' hints = .ok i')
      ∧ ∀ i i', infer roots hints = .ok i → infer roots' hints = .ok i' →
        ∀ e, i'.table.lookup? e = i.table.lookup? e := by
  refine ⟨⟨?_, ?_⟩, ?_⟩
  · rintro ⟨i, hi⟩
    obtain ⟨i', hi', -⟩ := exists_infer_same h hi
    exact ⟨i', hi'⟩
  · rintro ⟨i', hi'⟩
    obtain ⟨i, hi, -⟩ := exists_infer_same h.symm hi'
    exact ⟨i, hi⟩
  · intro i i' hi hi'
    obtain ⟨_, hi₂, same⟩ := exists_infer_same h hi
    cases hi'.symm.trans hi₂
    exact same

/-- An array root, and its components as roots of their own, in another order. -/
theorem infer_same_components_array :
    let u : Expr := .atom (.variable "u")
    let du : Expr := .apply (.derivative .stiffness 0) u
    ∃ i i', infer [.array [u, du]] [] = .ok i ∧ infer [du, u, du] [] = .ok i'
      ∧ ∀ e, i'.table.lookup? e = i.table.lookup? e := by
  intro u du
  -- both are `u` and `du`, in another order and with a repetition
  have same : SameComponents [.array [u, du]] [du, u, du] := fun e => by
    simp only [List.flatMap_cons, List.flatMap_nil, u, du, Expr.components, List.append_nil,
      List.cons_append, List.nil_append, List.mem_cons, List.not_mem_nil, or_false]
    tauto
  obtain ⟨iff, entries⟩ := infer_same_components same []
  obtain ⟨i, hi⟩ :=
    exists_eq_ok (show (infer [.array [u, du]] []).isOk = true by decide +kernel)
  obtain ⟨i', hi'⟩ := iff.mp ⟨i, hi⟩
  exact ⟨i, i', hi, hi', entries i i' hi hi'⟩

end Inference

end OperatorTemplate
