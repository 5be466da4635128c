import OperatorTemplate.Proofs.Inference.RootOrder
import OperatorTemplate.Proofs.Inference.WellTyped
/-!
# The phases of inference

A typing `F` gives every expression a type; it *solves* the roots (`Solves roots F`) if every
expression `e` that is visited from them (`Reached roots e`) satisfies its typing rule in `F`.  This
is what `Unchanged` says of a table `D`, for the typing `D.get` (`unchanged_iff_solves`), but a
typing need not be finite, and its values at what is not visited do not matter (`Solves.congr`).

The crux is that a finite table lies below every such typing (`exists_solution`): keep `F` at what
is visited and at what has an entry at the start, and `.unknown` elsewhere.  As a loop ends in the
*least* solution above its start, it ends below every typing that solves the roots and is above the
start (`IsFixpoint.le`).  Applied to the typing that has learned only about what is visited, this
says that no other entry changes (`IsFixpoint.lookup?_eq`).

A successful inference is a first loop from the hints to a state `s₁`, defaults that map every entry
of `s₁` to its completion and give `table`, and a second loop from `table` to `s₂`, whose entries
are final (`Phases`, `exists_phases`).  Conversely inference succeeds below a typing that solves the
roots, if the defaults stay below that typing and `s₂` is final (`exists_infer_of_solves`).
-/

namespace OperatorTemplate

/-! ## Typings -/

namespace Expr

/-- What is visited from the roots: `e` is a component of a root, or visited from one. -/
def Reached (roots : List Expr) (e : Expr) : Prop :=
  ∃ c ∈ roots.flatMap components, Visited e c

variable {roots : List Expr} {e : Expr}

/-- A component of a root is visited. -/
theorem Reached.of_component (h : e ∈ roots.flatMap components) : Reached roots e := ⟨e, h, .self⟩

/-- What is visited from `e` is visited from the roots if `e` is. -/
theorem Reached.of_visited {x : Expr} (h : Reached roots e) (hx : Visited x e) : Reached roots x := by
  obtain ⟨c, hc, hv⟩ := h
  exact ⟨c, hc, hx.trans hv⟩

/-- The operands that the rule of `e` asks for are visited if `e` is. -/
theorem Reached.operand (h : Reached roots e) {o : FieldType × Expr} (ho : o ∈ e.demands) :
    Reached roots o.2 :=
  h.of_visited (.operand ho .self)

/-- What is visited is a part of a root, so there is a finite list that holds all of it. -/
theorem Reached.mem_parts (h : Reached roots e) : e ∈ parts roots := by
  obtain ⟨c, hc, hv⟩ := h
  obtain ⟨r, hr, hc⟩ := List.mem_flatMap.mp hc
  exact mem_parts_iff.mpr ⟨r, hr, hv.partOf.trans (.of_mem_components hc)⟩

end Expr

open OperatorTemplate.Expr (Reached)

/-- Every expression that is visited from the roots satisfies its rule in the typing `F`. -/
def Solves (roots : List Expr) (F : Expr → FieldType) : Prop := ∀ e, Reached roots e → e.Fits F

variable {roots : List Expr} {F : Expr → FieldType} {e : Expr}

/-- A typing that solves the roots types each visited expression, with all that is visited from it.
-/
theorem Solves.typed (h : Solves roots F) (he : Reached roots e) : e.Typed F :=
  fun _ hx => h _ (he.of_visited hx)

/-- Whether `F` solves the roots depends only on its values at the visited expressions. -/
theorem Solves.congr (h : Solves roots F) {G : Expr → FieldType}
    (hG : ∀ e, Reached roots e → G e = F e) : Solves roots G :=
  fun e he => (h e he).congr fun x hx => hG x (he.of_visited hx)

/-- A pass leaves `D` unchanged exactly if the types that `D` gives solve the roots. -/
theorem unchanged_iff_solves {D : TypeTable} : D.Unchanged roots ↔ Solves roots D.get := by
  rw [unchanged_iff_typed]
  constructor
  · rintro h e ⟨c, hc, hv⟩
    exact h c hc e hv
  · exact fun h c hc x hx => h x ⟨c, hc, hx⟩

/-- For every typing `F` and list `ps` there is a table that answers `F e` at the members of `ps`
and `.unknown` elsewhere. -/
theorem TypeTable.exists_get (F : Expr → FieldType) (ps : List Expr) :
    ∃ table : TypeTable, ∀ e, table.get e = if e ∈ ps then F e else .unknown := by
  -- a record for each member of `ps`; a later record of the same expression has the same type
  induction ps with
  | nil => exact ⟨⟨.empty, false, 0⟩, fun e => rfl⟩
  | cons p ps ih =>
    obtain ⟨table, hg⟩ := ih
    refine ⟨table.record p (F p), fun e => ?_⟩
    by_cases he : e = p
    · subst he
      rw [get_record_self, if_pos List.mem_cons_self]
    · rw [get_record_of_ne he, hg]
      simp only [List.mem_cons, he, false_or]

/-- If `F` solves the roots and is above `start`, some table `D` is a solution above `start` and is
below `F`. -/
theorem exists_solution {start : TypeTable} (hs : ∀ e, start.get e ≤ F e) (hF : Solves roots F) :
    ∃ D ∈ Solutions roots start, ∀ e, D.get e ≤ F e := by
  -- `D` is `F` at what has an entry at the start and at the parts of the roots
  obtain ⟨D, hD⟩ := TypeTable.exists_get F (start.toList.map (·.1) ++ Expr.parts roots)
  have reached (e : Expr) (he : Reached roots e) : D.get e = F e := by
    rw [hD, if_pos (List.mem_append_right _ he.mem_parts)]
  refine ⟨D, ⟨fun e => ?_, unchanged_iff_solves.mpr (hF.congr reached)⟩, fun e => ?_⟩
  · -- above the start: what `start` knows about has an entry there
    by_cases hu : start.get e = .unknown
    · rw [hu]
      exact FieldType.unknown_le _
    · have listed : e ∈ start.toList.map (·.1) :=
        List.mem_map.mpr ⟨_, Table.mem_toList.mpr (TypeTable.lookup?_of_get hu), rfl⟩
      rw [hD, if_pos (List.mem_append_left _ listed)]
      exact hs e
  · rw [hD]
    split
    · exact le_refl _
    · exact FieldType.unknown_le _

/-! ## Loops over roots -/

variable {s s' : InferenceState}

/-- The types in which a loop ends solve the roots. -/
theorem IsFixpoint.solves (h : IsFixpoint roots s s') : Solves roots s'.table.get :=
  unchanged_iff_solves.mp h.least.1.2

/-- A loop from `s` to `s'` ends below every typing that solves the roots and is above the start
`s`. -/
theorem IsFixpoint.le (h : IsFixpoint roots s s') (hs : ∀ e, s.table.get e ≤ F e)
    (hF : Solves roots F) (e : Expr) : s'.table.get e ≤ F e := by
  obtain ⟨D, hD, hle⟩ := exists_solution hs hF
  exact (h.least.2 hD e).trans (hle e)

/-- If some typing solves the roots and is above the table of `s`, the loop from `s` succeeds, and
ends in a fixpoint. -/
theorem exists_run_of_solves (hv : s.Valid) (hs : ∀ e, s.table.get e ≤ F e)
    (hF : Solves roots F) :
    ∃ n s', (runToFixpoint roots).run.run s = (.ok n, s') ∧ IsFixpoint roots s s' := by
  obtain ⟨D, ⟨hle, hD⟩, -⟩ := exists_solution hs hF
  obtain ⟨n, s', hr, -⟩ := exists_run_of_solution hD hv hle
  exact ⟨n, s', hr, fixpoint_of_run hv hr⟩

/-- A loop leaves the entry of an expression that is not visited as it was. -/
theorem IsFixpoint.lookup?_eq (h : IsFixpoint roots s s') (he : ¬Reached roots e) :
    s'.table.lookup? e = s.table.lookup? e := by
  classical
  -- the typing that has learned about what is visited alone solves the roots
  have solves : Solves roots fun x => if Reached roots x then s'.table.get x else s.table.get x :=
    h.solves.congr fun x hx => if_pos hx
  have below : s'.table.get e ≤ s.table.get e := by
    have := h.le (fun x => by
      show _ ≤ ite _ _ _
      split
      · exact h.grows.le x
      · exact le_refl _) solves e
    rwa [if_neg he] at this
  exact h.grows.lookup?_eq (le_antisymm below (h.grows.le e))

namespace Inference

/-! ## Loops after defaults -/

/-- The loop after the defaults ends in a fixpoint.  It runs only if some leaf was pending
(`again`); if none was, the start solves the roots already and is its own least solution. -/
theorem fixpoint_of_resettle {again : Bool} {m : Nat} (hv : s.Valid)
    (hs : again = false → Solves roots s.table.get)
    (hr : (resettle roots again).run.run s = (.ok m, s')) : IsFixpoint roots s s' := by
  cases again with
  | true => exact fixpoint_of_run hv hr
  | false =>
    obtain ⟨-, rfl⟩ := run_pure_eq_ok.mp hr
    exact ⟨.refl _, hv, ⟨le_refl _, unchanged_iff_solves.mpr (hs rfl)⟩, fun _ hD => hD.1⟩

/-- If some typing solves the roots and is above the table of `s`, the loop after the defaults
succeeds, whether it runs or not. -/
theorem exists_resettle (again : Bool) (hv : s.Valid) (hs : ∀ e, s.table.get e ≤ F e)
    (hF : Solves roots F) : ∃ m s', (resettle roots again).run.run s = (.ok m, s') := by
  cases again with
  | true =>
    obtain ⟨m, s', hr, -⟩ := exists_run_of_solves hv hs hF
    exact ⟨m, s', hr⟩
  | false => exact ⟨0, s, rfl⟩

/-- The entries of `completed` are those of `table`, each one mapped by `TypeTable.defaulted`: a
leaf that has a default gets the completion of its type, any other expression keeps its type. -/
def IsDefault (table completed : TypeTable) : Prop :=
  ∀ e, completed.lookup? e = (table.lookup? e).map (TypeTable.defaulted e)

/-- Where `table` knows a type, `completed` has that type after the default. -/
theorem IsDefault.get_of_ne_unknown {table completed : TypeTable} (h : IsDefault table completed)
    (hu : table.get e ≠ .unknown) : completed.get e = TypeTable.defaulted e (table.get e) := by
  rw [TypeTable.get, h, TypeTable.lookup?_of_get hu]
  rfl

/-- The defaults only raise types. -/
theorem IsDefault.le {table completed : TypeTable} (h : IsDefault table completed) (e : Expr) :
    table.get e ≤ completed.get e := by
  by_cases hu : table.get e = .unknown
  · exact hu ▸ FieldType.unknown_le _
  · rw [h.get_of_ne_unknown hu]
    exact TypeTable.le_defaulted e _

/-- If no leaf is pending, the defaults change nothing. -/
theorem IsDefault.get_eq {table completed : TypeTable} (h : IsDefault table completed)
    (hp : table.pendingLeaves.isEmpty = true) (e : Expr) : completed.get e = table.get e := by
  rw [TypeTable.get, TypeTable.get, h]
  cases hl : table.lookup? e with
  | none => rfl
  | some t =>
    show TypeTable.defaulted e t = t
    unfold TypeTable.defaulted
    split
    next hd =>
      -- a type whose completion differs is not final, so its leaf would be pending
      refine FieldType.completion_eq_self ?_
      by_contra hf
      have pending : (e, t) ∈ table.pendingLeaves :=
        TypeTable.mem_pendingLeaves.mpr ⟨hl, hd, by simpa using hf⟩
      rw [List.isEmpty_iff.mp hp] at pending
      exact absurd pending List.not_mem_nil
    · rfl

/-! ## All of inference -/

/-- A successful inference from the hints: a loop that ends in `s₁`, defaults that lead to `table`,
and a loop from there that ends in `s₂`, where all entries are final. -/
structure Phases (roots : List Expr) (hints : TypeHints) (s₁ : InferenceState) (table : TypeTable)
    (s₂ : InferenceState) : Prop where
  first : IsFixpoint roots ⟨.ofHints hints, .empty⟩ s₁
  defaults : IsDefault s₁.table table
  second : IsFixpoint roots { s₁ with table := table } s₂
  final : ∀ e t, s₂.table.lookup? e = some t → t.isFinal = true

variable {hints : TypeHints}

/-- If no leaf was pending after the first loop, the table after the defaults solves the roots. -/
theorem solves_of_defaults {s₁ : InferenceState} {table : TypeTable}
    (first : IsFixpoint roots ⟨.ofHints hints, .empty⟩ s₁) (defaults : IsDefault s₁.table table)
    (hp : (!s₁.table.pendingLeaves.isEmpty) = false) : Solves roots table.get :=
  first.solves.congr fun e _ => defaults.get_eq (by simpa using hp) e

/-- Every successful inference passes through the phases, and its table is the one of `s₂`. -/
theorem exists_phases {i : Inference} (hi : infer roots hints = .ok i) :
    ∃ s₁ table s₂, Phases roots hints s₁ table s₂ ∧ i.table = s₂.table := by
  obtain ⟨n, m, s₁, s₂, table, hs⟩ := infer_eq_ok_iff.mp hi
  have first := fixpoint_of_run (InferenceState.valid_empty _) hs.first
  obtain ⟨_, hd, grows, defaults⟩ := s₁.table.applyLeafDefaults_spec
  cases hs.defaults.symm.trans hd
  have valid : InferenceState.Valid { s₁ with table := table } := first.valid.of_grows grows rfl
  refine ⟨s₁, table, s₂, ⟨first, defaults, ?_, ?_⟩, by rw [hs.eq]⟩
  · exact fixpoint_of_resettle valid (solves_of_defaults first defaults) hs.second
  · exact TypeTable.validate_eq_ok_iff.mp hs.final

/-- Inference succeeds if some typing `F` solves the roots and is above the hints, if the defaults
after the first loop stay below `F`, and if the second loop ends in final types only. -/
theorem exists_infer_of_solves (hF : Solves roots F)
    (hh : ∀ e, (TypeTable.ofHints hints).get e ≤ F e)
    (hd : ∀ s₁ table, IsFixpoint roots ⟨.ofHints hints, .empty⟩ s₁ → IsDefault s₁.table table →
      ∀ e, table.get e ≤ F e)
    (hf : ∀ s₁ table s₂, IsFixpoint roots ⟨.ofHints hints, .empty⟩ s₁ → IsDefault s₁.table table →
      IsFixpoint roots { s₁ with table := table } s₂ →
      ∀ e t, s₂.table.lookup? e = some t → t.isFinal = true) :
    ∃ i s₁ table s₂, infer roots hints = .ok i ∧ Phases roots hints s₁ table s₂
      ∧ i.table = s₂.table := by
  -- both loops have a solution to end below, namely `F`
  obtain ⟨n, s₁, hr₁, first⟩ := exists_run_of_solves (InferenceState.valid_empty _) hh hF
  obtain ⟨table, hdefaults, grows, defaults⟩ := s₁.table.applyLeafDefaults_spec
  have valid : InferenceState.Valid { s₁ with table := table } := first.valid.of_grows grows rfl
  obtain ⟨m, s₂, hr₂⟩ := exists_resettle (!s₁.table.pendingLeaves.isEmpty) valid
    (hd s₁ table first defaults) hF
  have second := fixpoint_of_resettle valid (solves_of_defaults first defaults) hr₂
  have final := hf s₁ table s₂ first defaults second
  exact ⟨⟨s₂.table, n + m⟩, s₁, table, s₂,
    infer_eq_ok_iff.mpr ⟨n, m, s₁, s₂, table, hr₁, hdefaults, hr₂,
      TypeTable.validate_eq_ok_iff.mpr final, rfl⟩, ⟨first, defaults, second, final⟩, rfl⟩

end Inference

end OperatorTemplate
