import OperatorTemplate.Inference.LeafDefault
import OperatorTemplate.Proofs.Table
import OperatorTemplate.Proofs.TypeTable
/-!
# What the defaults do

The defaults go through the entries of a table that are leaves with a type that is not final
(`pendingLeaves`), and set each to the completion of its type.  They never fail: a type is below its
completion, so the two unify, and the completion is what is recorded (`set_completion`).  And they
act entry by entry: the entry `t` of `e` becomes `defaulted e t`, and nothing else changes
(`applyLeafDefaults_spec`).

The invariant of the walk is that what is left of the list consists of distinct entries of the table
that are not final (`Pending`); completing one entry keeps it for the rest (`Pending.tail`).  So the
order in which the entries are gone through does not show (`complete_perm`,
`applyLeafDefaults_total`): neighbours in the list can be swapped, since in the place of a present
entry the types of two expressions can be recorded in either order (`record_comm`).
-/

namespace OperatorTemplate

/-- The final type that a default makes of a type: nodal where the representation is not known, and
on the volume where the domain is not. -/
def FieldType.completion : FieldType → FieldType
  | .unknown | .onVolume | .onInteriorFaces => .volume .nodal
  | .onBoundary tag => .boundary tag .nodal
  | .represented r => .volume r
  | t => t

/-- A type that is not final has a completion, whatever expression it is for. -/
theorem FieldType.completed_eq {t : FieldType} (h : t.isFinal = false) (e : Expr) :
    t.completed e = .ok t.completion := by
  cases t with
  | unknown | onVolume | onBoundary _ | onInteriorFaces | represented _ => rfl
  | scalar | volume _ | boundary _ _ | interiorFaces _ => nomatch h

/-- A type says no more than its completion. -/
theorem FieldType.le_completion (t : FieldType) : t ≤ t.completion := by
  cases t <;> constructor

/-- Completions are final. -/
theorem FieldType.isFinal_completion (t : FieldType) : t.completion.isFinal = true := by
  cases t <;> rfl

/-- A final type is its own completion. -/
theorem FieldType.completion_eq_self {t : FieldType} (h : t.isFinal = true) : t.completion = t :=
  eq_of_isFinal_of_le h t.le_completion

namespace TypeTable

variable {table : TypeTable}

/-- The type of `e` after the defaults, given the type before. -/
def defaulted (e : Expr) (t : FieldType) : FieldType :=
  if e.isDefaultable then t.completion else t

/-- The defaults only raise the type of an expression. -/
theorem le_defaulted (e : Expr) (t : FieldType) : t ≤ defaulted e t := by
  unfold defaulted
  split
  · exact t.le_completion
  · exact le_refl _

/-- The defaults raise the type of an expression to its completion at most. -/
theorem defaulted_le_completion (e : Expr) (t : FieldType) : defaulted e t ≤ t.completion := by
  unfold defaulted
  split
  · exact le_refl _
  · exact t.le_completion

/-- The pending leaves are the entries of leaves whose type is not final. -/
theorem mem_pendingLeaves {e : Expr} {t : FieldType} :
    (e, t) ∈ table.pendingLeaves
      ↔ table.lookup? e = some t ∧ e.isDefaultable = true ∧ t.isFinal = false := by
  rw [pendingLeaves, List.mem_filter, toList, Table.mem_toList, lookup?, Bool.and_eq_true,
    Bool.not_eq_true']

/-- Setting the entry of `e` to the completion of its type `t` succeeds, and records the completion,
if `t` is not final. -/
theorem set_completion {e : Expr} {t : FieldType} (hl : table.lookup? e = some t)
    (ht : t.isFinal = false) : table.set e t.completion = .ok (table.record e t.completion) := by
  have final := t.isFinal_completion
  -- neither of the two early exits applies: the completion is known, and it differs from the type
  have known : t.completion ≠ .unknown := fun h => by
    rw [h] at final
    nomatch final
  have more : t.completion ≠ t := fun h => by
    rw [h, ht] at final
    nomatch final
  rw [set, if_neg known, hl]
  show (t.unify t.completion (some e) >>= _) = _
  rw [FieldType.le_iff_unify.mp t.le_completion]
  show Except.ok _ = _
  rw [if_neg more]

/-- Distinct entries of a table, none of them final: what the defaults have yet to complete. -/
structure Pending (table : TypeTable) (entries : List (Expr × FieldType)) : Prop where
  nodup : (entries.map (·.1)).Nodup
  entry : ∀ e t, (e, t) ∈ entries → table.lookup? e = some t ∧ t.isFinal = false

/-- The pending leaves of a table are distinct entries of it, and none is final. -/
theorem pending_pendingLeaves (table : TypeTable) : table.Pending table.pendingLeaves where
  nodup := table.types.nodup_keys_toList.sublist (List.filter_sublist.map _)
  entry _ _ h := by
    obtain ⟨hl, -, ht⟩ := mem_pendingLeaves.mp h
    exact ⟨hl, ht⟩

namespace Pending

variable {entries entries' : List (Expr × FieldType)} {e : Expr} {t : FieldType}

/-- A permutation of entries that are to be completed is such a list as well. -/
theorem perm (h : table.Pending entries) (hp : entries'.Perm entries) : table.Pending entries' where
  nodup := (hp.map _).nodup_iff.mpr h.nodup
  entry e t hm := h.entry e t (hp.mem_iff.mp hm)

/-- The first expression does not occur in the rest, with any type. -/
theorem not_mem (h : table.Pending ((e, t) :: entries)) (u : FieldType) : (e, u) ∉ entries :=
  fun hm => (List.nodup_cons.mp h.nodup).1 (List.mem_map.mpr ⟨_, hm, rfl⟩)

/-- Completing one entry leaves the others to be completed. -/
theorem tail (h : table.Pending ((e, t) :: entries)) :
    (table.record e t.completion).Pending entries where
  nodup := (List.nodup_cons.mp h.nodup).2
  entry x u hx := by
    obtain ⟨hl, hu⟩ := h.entry x u (List.mem_cons_of_mem _ hx)
    have hne : x ≠ e := fun hxe => h.not_mem u (hxe ▸ hx)
    exact ⟨(lookup?_record_of_ne hne).trans hl, hu⟩

end Pending

/-- Sets each entry in turn to the completion of its type. -/
def complete (table : TypeTable) (entries : List (Expr × FieldType)) : Except TypeError TypeTable :=
  entries.foldlM (fun table entry => do table.set entry.1 (← entry.2.completed entry.1)) table

/-- The first entry is completed, and the rest in the table with that entry. -/
theorem complete_cons {e : Expr} {t : FieldType} {entries : List (Expr × FieldType)}
    (h : table.Pending ((e, t) :: entries)) :
    table.complete ((e, t) :: entries) = (table.record e t.completion).complete entries := by
  obtain ⟨hl, ht⟩ := h.entry e t List.mem_cons_self
  rw [complete, List.foldlM_cons, FieldType.completed_eq ht]
  show (table.set e t.completion >>= _) = _
  rw [set_completion hl ht]
  rfl

/-- Completing pending entries never fails; the entries that are listed hold their completions in
the end, and all others stay. -/
theorem complete_spec : (entries : List (Expr × FieldType)) → (table : TypeTable) →
    table.Pending entries →
    ∃ table', table.complete entries = .ok table'
      ∧ table.Grows table'
      ∧ (∀ e t, (e, t) ∈ entries → table'.lookup? e = some t.completion)
      ∧ ∀ e, (∀ t, (e, t) ∉ entries) → table'.lookup? e = table.lookup? e
  | [], table, _ => ⟨table, rfl, .refl table, nofun, fun _ _ => rfl⟩
  -- by recursion on the list: the rest is pending once the first entry is completed
  | (e, t) :: entries, table, h => by
    obtain ⟨hl, ht⟩ := h.entry e t List.mem_cons_self
    obtain ⟨table', hr, grows, completed, rest⟩ := complete_spec entries _ h.tail
    refine ⟨table', (complete_cons h).trans hr,
      (set_spec (set_completion hl ht)).grows.trans grows, ?_, ?_⟩
    · intro x u hx
      rcases List.mem_cons.mp hx with hx | hx
      · cases hx
        rw [rest e h.not_mem]
        exact Table.get?_insert_self _ _ _
      · exact completed x u hx
    · intro x hx
      have hne : x ≠ e := fun hxe => hx t (hxe ▸ List.mem_cons_self)
      rw [rest x fun u hu => hx u (List.mem_cons_of_mem _ hu), lookup?_record_of_ne hne]

/-- The defaults never fail; every entry is completed if it is a leaf, and left alone if not. -/
theorem applyLeafDefaults_spec (table : TypeTable) :
    ∃ table', table.applyLeafDefaults = .ok (table', !table.pendingLeaves.isEmpty)
      ∧ table.Grows table' ∧ ∀ e, table'.lookup? e = (table.lookup? e).map (defaulted e) := by
  obtain ⟨table', hr, grows, completed, rest⟩ :=
    complete_spec table.pendingLeaves table table.pending_pendingLeaves
  refine ⟨table', ?_, grows, fun e => ?_⟩
  · rw [applyLeafDefaults, ← complete, hr]
    rfl
  · cases hl : table.lookup? e with
    | none =>
      rw [rest e fun t ht => nomatch hl.symm.trans (mem_pendingLeaves.mp ht).1]
      exact hl
    | some t =>
      show _ = some (defaulted e t)
      -- a leaf that is not final is listed; a final leaf, or no leaf, keeps its type as
      -- `defaulted` says
      by_cases hp : e.isDefaultable = true ∧ t.isFinal = false
      · rw [completed e t (mem_pendingLeaves.mpr ⟨hl, hp⟩), defaulted, if_pos hp.1]
      · have same : defaulted e t = t := by
          unfold defaulted
          split
          next he => exact FieldType.completion_eq_self (by simpa [he] using hp)
          · rfl
        rw [rest e, hl, same]
        intro u hu
        obtain ⟨hlu, hpu⟩ := mem_pendingLeaves.mp hu
        cases hl.symm.trans hlu
        exact hp hpu

/-- There is a pending leaf exactly if a leaf has an entry that is not final. -/
theorem not_isEmpty_pendingLeaves_iff : (!table.pendingLeaves.isEmpty) = true
    ↔ ∃ e t, table.lookup? e = some t ∧ e.isDefaultable = true ∧ t.isFinal = false := by
  rw [Bool.not_eq_true', List.isEmpty_eq_false_iff_exists_mem, Prod.exists]
  exact exists_congr fun e => exists_congr fun t => mem_pendingLeaves

/-- Whether a leaf is pending depends on the entries alone. -/
theorem isEmpty_pendingLeaves_congr {table' : TypeTable}
    (h : ∀ e, table'.lookup? e = table.lookup? e) :
    table'.pendingLeaves.isEmpty = table.pendingLeaves.isEmpty := by
  rw [← Bool.not_inj_iff, Bool.eq_iff_iff, not_isEmpty_pendingLeaves_iff,
    not_isEmpty_pendingLeaves_iff]
  simp only [h]

/-! ## The order of entries -/

variable {entries entries' : List (Expr × FieldType)}

/-- In another order, entries are completed to the same table. -/
theorem complete_perm (hp : entries.Perm entries') (h : table.Pending entries) :
    table.complete entries' = table.complete entries := by
  induction hp generalizing table with
  | nil => rfl
  | cons entry hp ih => rw [complete_cons h, complete_cons (h.perm (hp.symm.cons entry)), ih h.tail]
  | swap entry entry' entries =>
    -- two neighbours are different expressions, and the first of them has an entry
    have h' := h.perm (.swap entry' entry entries)
    have hne : entry.1 ≠ entry'.1 := fun he => h.not_mem entry.2 (he ▸ List.mem_cons_self)
    obtain ⟨hl, -⟩ := h.entry entry.1 entry.2 (.tail _ List.mem_cons_self)
    rw [complete_cons h, complete_cons h.tail, complete_cons h', complete_cons h'.tail,
      record_comm hne hl]
  | trans hp _ ih ih' => rw [ih' (h.perm hp.symm), ih h]

/-- The defaults, if the table yields its entries in some order. -/
def applyLeafDefaultsAlong (table : TypeTable) (entries : List (Expr × FieldType)) :
    Except TypeError (TypeTable × Bool) := do
  let pending := entries.filter fun entry => entry.1.isDefaultable && !entry.2.isFinal
  let completed ← table.complete pending
  return (completed, !pending.isEmpty)

/-- The table lists its entries in the order in which they arrived; any other order does as well. -/
theorem applyLeafDefaultsAlong_eq (hp : entries.Perm table.toList) :
    table.applyLeafDefaultsAlong entries = table.applyLeafDefaults := by
  have pending : (entries.filter fun entry => entry.1.isDefaultable && !entry.2.isFinal).Perm
      table.pendingLeaves := hp.filter _
  rw [applyLeafDefaultsAlong, complete_perm pending.symm table.pending_pendingLeaves,
    pending.isEmpty_eq]
  rfl

/-- **The defaults are total, and see no order.**  On any table they succeed.  Every entry of a leaf
becomes final and says no less than before; no other entry changes.  They tell whether an entry of a
leaf was not final.  In whatever order the entries come, the table in the end is the same; and where
two tables have the same entries, so have the tables in the end. -/
theorem applyLeafDefaults_total (table : TypeTable) :
    ∃ completed again, table.applyLeafDefaults = .ok (completed, again)
      ∧ (∀ e t, table.lookup? e = some t → e.isDefaultable = true →
          ∃ t', completed.lookup? e = some t' ∧ t'.isFinal = true ∧ t ≤ t')
      ∧ (∀ e, (e.isDefaultable = true → table.lookup? e = none) →
          completed.lookup? e = table.lookup? e)
      ∧ (again = true
          ↔ ∃ e t, table.lookup? e = some t ∧ e.isDefaultable = true ∧ t.isFinal = false)
      ∧ (∀ entries, entries.Perm table.toList →
          table.applyLeafDefaultsAlong entries = .ok (completed, again))
      ∧ ∀ other : TypeTable, (∀ e, other.lookup? e = table.lookup? e) →
          ∃ completed', other.applyLeafDefaults = .ok (completed', again)
            ∧ ∀ e, completed'.lookup? e = completed.lookup? e := by
  obtain ⟨completed, hr, -, hc⟩ := table.applyLeafDefaults_spec
  refine ⟨completed, _, hr, fun e t hl hd => ?_, fun e he => ?_, not_isEmpty_pendingLeaves_iff,
    fun entries hp => (applyLeafDefaultsAlong_eq hp).trans hr, fun other same => ?_⟩
  · refine ⟨t.completion, ?_, t.isFinal_completion, t.le_completion⟩
    rw [hc, hl, Option.map_some, defaulted, if_pos hd]
  · rw [hc]
    cases hl : table.lookup? e with
    | none => rfl
    | some t =>
      have hd : ¬e.isDefaultable = true := fun hd => by
        rw [he hd] at hl
        nomatch hl
      rw [Option.map_some, defaulted, if_neg hd]
  · obtain ⟨completed', hr', -, hc'⟩ := other.applyLeafDefaults_spec
    refine ⟨completed', isEmpty_pendingLeaves_congr same ▸ hr', fun e => ?_⟩
    rw [hc, hc', same]

end TypeTable

end OperatorTemplate
