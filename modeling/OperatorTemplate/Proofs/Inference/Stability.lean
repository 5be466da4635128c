import OperatorTemplate.Proofs.Inference.Soundness
/-!
# Inference is stable under its own results

Let inference under some hints end in a table `D`.  Hints `middle` that mention all that the hints
do and say as much of it, and say nothing beyond `D` (`Between`), lead to `D` again
(`infer_stable`).  Hints that are `D` itself leave nothing to write.

Write `s₁`, `table`, `s₂` for the phases under the hints, and the same with a prime for those under
`middle`.  The first loops satisfy `s₁ ≤ s₁' ≤ s₂` by leastness (`le_first`, `first_le`).  The
defaults are not monotone in general.  But between a type and its completion lie only types with
that completion (`FieldType.completion_eq_of_le`), so the defaults make the same of both, and
`table ≤ table' ≤ s₂` (`defaults_between`).  The second loops then have the same solutions below
`s₂`, which is the least (`second_same`).
-/

namespace OperatorTemplate

/-- What is between a type and its completion has the same completion. -/
theorem FieldType.completion_eq_of_le {t t' : FieldType} (h : t ≤ t') (h' : t' ≤ t.completion) :
    t'.completion = t.completion := by
  cases h with
  | refl => rfl
  | _ => cases h' <;> rfl

namespace Inference

open OperatorTemplate.Expr (Reached)

/-- Hints `middle` that mention all that `hints` do and say as much of it, and say nothing that is
not in the table. -/
structure Between (hints middle : TypeHints) (table : TypeTable) : Prop where
  above : ∀ e t, (TypeTable.ofHints hints).lookup? e = some t →
    ∃ t', (TypeTable.ofHints middle).lookup? e = some t' ∧ t ≤ t'
  below : ∀ e t', (TypeTable.ofHints middle).lookup? e = some t' →
    ∃ t, table.lookup? e = some t ∧ t' ≤ t

variable {roots : List Expr} {hints middle : TypeHints} {s₁ s₂ s₁' s₂' : InferenceState}
  {table table' : TypeTable} {e : Expr} {t t' : FieldType}

/-- A table that has an entry for all that another has, and says as much of it. -/
theorem get_le_of_lookup? {T T' : TypeTable}
    (h : ∀ t, T.lookup? e = some t → ∃ t', T'.lookup? e = some t' ∧ t ≤ t') :
    T.get e ≤ T'.get e := by
  cases hl : T.lookup? e with
  | none =>
    rw [show T.get e = .unknown by rw [TypeTable.get, hl]; rfl]
    exact FieldType.unknown_le _
  | some t =>
    obtain ⟨t', hl', hle⟩ := h t hl
    rw [TypeTable.get_of_lookup? hl, TypeTable.get_of_lookup? hl']
    exact hle

/-! ## The first loops -/

section FirstLoop

variable (p : Phases roots hints s₁ table s₂) (b : Between hints middle s₂.table)
  (first : IsFixpoint roots ⟨.ofHints middle, .empty⟩ s₁')
include p b first

/-- The first loop under `middle` ends above the first loop under the hints. -/
theorem le_first (e : Expr) : s₁.table.get e ≤ s₁'.table.get e :=
  p.first.le (fun x => (get_le_of_lookup? (b.above x)).trans (first.grows.le x)) first.solves e

/-- The first loop under `middle` ends below the result. -/
theorem first_le (e : Expr) : s₁'.table.get e ≤ s₂.table.get e :=
  first.le (fun x => get_le_of_lookup? (b.below x)) p.second.solves e

/-- What has an entry after the first loop under the hints has one after the first loop under
`middle`. -/
theorem exists_lookup?_first (h : s₁.table.lookup? e = some t) :
    ∃ t', s₁'.table.lookup? e = some t' := by
  -- what is visited has an entry in any solution; what is not has kept its hint
  by_cases he : Reached roots e
  · exact ⟨_, TypeTable.lookup?_of_get (first.solves.typed he).ne_unknown⟩
  · obtain ⟨t', hl, -⟩ := b.above e t ((p.first.lookup?_eq he).symm.trans h)
    exact ⟨t', (first.lookup?_eq he).trans hl⟩

/-- What has an entry after the first loop under `middle` has one after the first loop under the
hints: a loop makes entries only where it visits, and `middle` mentions nothing beyond the result.
-/
theorem exists_lookup?_of_first (h : s₁'.table.lookup? e = some t') :
    ∃ t, s₁.table.lookup? e = some t := by
  by_cases he : Reached roots e
  · exact ⟨_, TypeTable.lookup?_of_get (p.first.solves.typed he).ne_unknown⟩
  · -- the result has an entry, which the second loop has not made
    obtain ⟨d, hd, -⟩ := b.below e t' ((first.lookup?_eq he).symm.trans h)
    have entered : (s₁.table.lookup? e).map (TypeTable.defaulted e) = some d :=
      ((p.second.lookup?_eq he).trans (p.defaults e)).symm.trans hd
    obtain ⟨t, ht, -⟩ := Option.map_eq_some_iff.mp entered
    exact ⟨t, ht⟩

/-! ## The defaults -/

/-- For one expression: what the defaults make of its entry under the hints is below what they make
of its entry under `middle`, which is below the result. -/
theorem defaulted_between (h : s₁.table.lookup? e = some t) (h' : s₁'.table.lookup? e = some t') :
    TypeTable.defaulted e t ≤ TypeTable.defaulted e t'
      ∧ TypeTable.defaulted e t' ≤ s₂.table.get e := by
  have above : t ≤ t' := by
    rw [← TypeTable.get_of_lookup? h, ← TypeTable.get_of_lookup? h']
    exact le_first p b first e
  have below : t' ≤ s₂.table.get e := by
    rw [← TypeTable.get_of_lookup? h']
    exact first_le p b first e
  have defaults : table.lookup? e = some (TypeTable.defaulted e t) := by
    rw [p.defaults, h]
    rfl
  have completed : TypeTable.defaulted e t ≤ s₂.table.get e := by
    rw [← TypeTable.get_of_lookup? defaults]
    exact p.second.grows.le e
  unfold TypeTable.defaulted at completed ⊢
  split
  next hd =>
    rw [if_pos hd] at completed
    -- a completion is final, so it is the result
    have result := FieldType.eq_of_isFinal_of_le t.isFinal_completion completed
    rw [result] at below ⊢
    have same := FieldType.completion_eq_of_le above below
    exact ⟨le_of_eq same.symm, le_of_eq same⟩
  · exact ⟨above, below⟩

/-- After the defaults, the table under `middle` is between the one under the hints and the result.
-/
theorem defaults_between (defaults : IsDefault s₁'.table table') (e : Expr) :
    table.get e ≤ table'.get e ∧ table'.get e ≤ s₂.table.get e := by
  have entry {T T' : TypeTable} (hT : IsDefault T T') {t : FieldType} (h : T.lookup? e = some t) :
      T'.get e = TypeTable.defaulted e t :=
    TypeTable.get_of_lookup? (by rw [hT, h]; rfl)
  -- the same expressions have entries on both sides
  cases h : s₁.table.lookup? e with
  | some t =>
    obtain ⟨t', h'⟩ := exists_lookup?_first p b first h
    rw [entry p.defaults h, entry defaults h']
    exact defaulted_between p b first h h'
  | none =>
    have absent : s₁'.table.lookup? e = none := by
      cases h' : s₁'.table.lookup? e with
      | none => rfl
      | some t' =>
        obtain ⟨t, ht⟩ := exists_lookup?_of_first p b first h'
        nomatch h.symm.trans ht
    have blank {T T' : TypeTable} (hT : IsDefault T T') (h : T.lookup? e = none) :
        T'.get e = .unknown := by
      rw [TypeTable.get, hT, h]
      rfl
    rw [blank p.defaults h, blank defaults absent]
    exact ⟨le_refl _, FieldType.unknown_le _⟩

/-! ## The second loops -/

/-- The second loop from the hints in between ends in the result. -/
theorem second_same (defaults : IsDefault s₁'.table table')
    (second : IsFixpoint roots { s₁' with table := table' } s₂') :
    s₂.table.SameEntries s₂'.table := by
  have between := defaults_between p b first defaults
  -- each loop ends in a solution that is above the other one's start
  have same (e : Expr) : s₂'.table.get e = s₂.table.get e :=
    le_antisymm (second.le (fun x => (between x).2) p.second.solves e)
      (p.second.le (fun x => (between x).1.trans (second.grows.le x)) second.solves e)
  intro e
  by_cases hu : s₂.table.get e = .unknown
  · -- the result is final, so there is no entry
    have absent : s₂.table.lookup? e = none := by
      cases hl : s₂.table.lookup? e with
      | none => rfl
      | some t =>
        have final := p.final e t hl
        rw [← TypeTable.get_of_lookup? hl, hu] at final
        nomatch final
    have first_absent : s₁.table.lookup? e = none := by
      have := ((p.second.grows.blank e hu).trans (p.defaults e)).symm.trans absent
      exact Option.map_eq_none_iff.mp this
    rw [absent, second.grows.blank e ((same e).trans hu)]
    show table'.lookup? e = none
    rw [defaults e, Option.map_eq_none_iff]
    cases h' : s₁'.table.lookup? e with
    | none => rfl
    | some t' =>
      obtain ⟨t, ht⟩ := exists_lookup?_of_first p b first h'
      nomatch first_absent.symm.trans ht
  · rw [TypeTable.lookup?_of_get hu, TypeTable.lookup?_of_get (same e ▸ hu), same e]

end FirstLoop

/-! ## Inference -/

variable {i : Inference}

/-- Under hints in between, inference succeeds and gives the same table. -/
theorem exists_infer_between (hi : infer roots hints = .ok i) (b : Between hints middle i.table) :
    ∃ i', infer roots middle = .ok i' ∧ i.table.SameEntries i'.table := by
  obtain ⟨s₁, table, s₂, p, hs⟩ := exists_phases hi
  rw [hs] at b ⊢
  obtain ⟨i', s₁', table', s₂', hi', p', hs'⟩ := exists_infer_of_solves p.second.solves
    (fun e => get_le_of_lookup? (b.below e))
    (fun s₁' table' first defaults e => (defaults_between p b first defaults e).2)
    (fun s₁' table' s₂' first defaults second e t hl =>
      p.final e t ((second_same p b first defaults second e).symm.trans hl))
  refine ⟨i', hi', ?_⟩
  rw [hs']
  exact second_same p b p'.first p'.defaults p'.second

/-- The table of a successful inference has grown from the hints. -/
theorem grows_of_infer (hi : infer roots hints = .ok i) :
    (TypeTable.ofHints hints).Grows i.table := by
  obtain ⟨n, m, s₁, s₂, table, hs⟩ := infer_eq_ok_iff.mp hi
  have first := fixpoint_of_run (InferenceState.valid_empty _) hs.first
  obtain ⟨_, hd, grows, defaults⟩ := s₁.table.applyLeafDefaults_spec
  cases hs.defaults.symm.trans hd
  have valid : InferenceState.Valid { s₁ with table := table } := first.valid.of_grows grows rfl
  have second := fixpoint_of_resettle valid (solves_of_defaults first defaults) hs.second
  rw [hs.eq]
  exact (first.grows.trans grows).trans second.grows

/-- The entries of a table, as hints, make up the table. -/
theorem sameEntries_ofHints_toList (table : TypeTable) :
    table.SameEntries (.ofHints table.toList) := fun _ =>
  Option.ext fun _ =>
    (Table.get?_ofList table.types.nodup_keys_toList).trans Table.mem_toList

/-- **Inference is stable.**  Under hints between the hints and the result, inference succeeds with
the same result; under hints that are the result, it does so without a write. -/
theorem infer_stable (hi : infer roots hints = .ok i) :
    (∀ middle, Between hints middle i.table →
      ∃ i', infer roots middle = .ok i' ∧ i.table.SameEntries i'.table)
    ∧ ∀ own, i.table.SameEntries (.ofHints own) →
      ∃ i', infer roots own = .ok i' ∧ i.table.SameEntries i'.table ∧ i'.table.writes = 0 := by
  refine ⟨fun middle b => exists_infer_between hi b, fun own same => ?_⟩
  -- the result, as hints, is between the hints and itself
  have b : Between hints own i.table := {
    above := fun e t hl => by
      obtain ⟨t', hl', hle⟩ := exists_lookup?_of_hint hi hl
      exact ⟨t', (same e).trans hl', hle⟩
    below := fun e t' hl => ⟨t', (same e).symm.trans hl, le_refl t'⟩ }
  obtain ⟨i', hi', same'⟩ := exists_infer_between hi b
  have unwritten : i'.table.writes = (TypeTable.ofHints own).writes :=
    (grows_of_infer hi').writes_eq fun e => (same'.get_eq e).trans (same.get_eq e).symm
  exact ⟨i', hi', same', unwritten⟩

/-- A field that is hinted to be nodal, on a grid inside a stiffness matrix.  The hints in between
say where the field lives, and something of a product that no hint was about. -/
theorem infer_stable_upsampled :
    let u : Expr := .atom (.variable "u")
    let twice : Expr := .product [.atom (.constant (.int 2)), u]
    let root : Expr := .apply (.referenceQuadratureStiffnessTransposed 0 ⟨"q"⟩)
      (.apply (.upsample ⟨"q"⟩) twice)
    ∃ i i' i'', infer [root] [(u, .represented .nodal)] = .ok i
      ∧ infer [root] [(u, .volume .nodal), (twice, .onVolume)] = .ok i'
      ∧ i.table.SameEntries i'.table
      ∧ infer [root] i.table.toList = .ok i'' ∧ i''.table.writes = 0 := by
  intro u twice root
  obtain ⟨i, hi, hu, ht⟩ := exists_eq_ok_of_mem
    (show ∃ i ∈ (infer [root] [(u, .represented .nodal)]).toOption,
        i.table.lookup? u = some (.volume .nodal) ∧ i.table.lookup? twice = some (.volume .nodal) by
      decide +kernel)
  obtain ⟨stable, own⟩ := infer_stable hi
  obtain ⟨i', hi', same⟩ := stable [(u, .volume .nodal), (twice, .onVolume)] {
    above := fun e t hl => by
      have hm := (Table.get?_ofList (by decide)).mp hl
      rw [List.mem_singleton] at hm
      cases hm
      exact ⟨.volume .nodal, by decide, .representedVolume .nodal⟩
    below := fun e t hl => by
      have hm := (Table.get?_ofList (by decide)).mp hl
      rw [List.mem_pair] at hm
      rcases hm with hm | hm <;> cases hm
      · exact ⟨_, hu, le_refl _⟩
      · exact ⟨_, ht, .volume .nodal⟩ }
  obtain ⟨i'', hi'', -, unwritten⟩ := own i.table.toList (sameEntries_ofHints_toList i.table)
  exact ⟨i, i', i'', hi, hi', same, hi'', unwritten⟩

end Inference

end OperatorTemplate
