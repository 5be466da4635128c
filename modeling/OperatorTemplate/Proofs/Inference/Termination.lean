import Mathlib.Algebra.Order.BigOperators.Group.Finset
import OperatorTemplate.Proofs.Inference.Limit
import OperatorTemplate.Proofs.Inference.RootOrder
/-!
# Inference ends

No loop of inference is ever cut off, so the limit of passes does not show: inference with any
higher limit for its loops (`inferWithin`) answers the same (`infer_terminates`).

The bound on the passes is `n ≤ writes + 2`, where `writes` are the writes of the loop.  A pass may
raise the flag without a write, because it renewed the result of some common subexpression.  But
then the pass after it finds all results up to date, changes nothing and is the last.  So a loop
takes at most one pass for every write, and two more (`passes_repeat`).

The bound on the writes is twice the number of entries.  A write raises the rank of its entry, which
is at most 2; what is left to raise among expressions `ps` is their room, `table.room ps`, and every
step leaves `writes + room` no larger.  The loops state this for the parts of the roots.  As what
takes room has an entry in the end, it holds as well of any list of expressions that has all entries
(`writes_add_room_le_of_keys`), and along the phases, for the entries of the final table
(`costs_of_infer`).
-/

namespace OperatorTemplate

open Infer

/-! ## Passes of a loop -/

/-- A loop that ends after `n` passes has taken at most one for every write, and two more.  If the
first pass changes nothing, `n` is 1. -/
theorem passes_repeat {ps : List Expr} {P : Unit → Prop} {pass twin : Infer Unit}
    (h : Tame ps P pass twin) : (limit : Nat) → {s s' : InferenceState} → s.Valid → {n : Nat} →
    (repeatUntilSettled pass limit).run.run s = (.ok n, s') →
    n + s.table.writes ≤ s'.table.writes + 2
      ∧ (pass.run.run s.settle = (.ok (), s.settle) → n = 1)
  | 0, _, _, _, _, hr => absurd hr run_throw_ne_ok
  | limit + 1, s, s', hs, n, hr => by
    -- by induction on the limit: the first pass, and the loop after it
    have first := h.regular s.settle hs.settle
    rcases run_repeat_succ pass limit s with ⟨cause, s₁, hr₁, hrun⟩ | ⟨s₁, hr₁, hrun⟩
    · rw [hrun] at hr
      nomatch congrArg Prod.fst hr
    rw [hr₁] at first
    have valid : s₁.Valid := first.valid
    have grown : s.table.writes ≤ s₁.table.writes := first.grows.writes
    rw [hrun] at hr
    split at hr
    next hc =>
      -- the flag is raised, and `m` more passes follow
      obtain ⟨m, s₂, hrest, hr⟩ := run_bind_eq_ok.mp hr
      obtain ⟨rfl, rfl⟩ := run_pure_eq_ok.mp hr
      obtain ⟨passes, once⟩ := passes_repeat h limit valid hrest
      have rest := loopRun_repeat h limit s₁ valid
      rw [hrest] at rest
      have grown' : s₁.table.writes ≤ s'.table.writes := rest.grows.writes
      refine ⟨?_, fun hquiet => ?_⟩
      · by_cases hw : s₁.table.writes = s.table.writes
        · -- nothing was written, so nothing is left to renew
          have := once (h.repeatable s.settle hs.settle () s₁ hr₁ hw s₁.settle s₁.covers_settle)
          omega
        · omega
      · -- a pass that changes nothing leaves the flag cleared
        cases hr₁.symm.trans hquiet
        nomatch hc
    next =>
      cases hr
      exact ⟨by omega, fun _ => rfl⟩

/-! ## Writes and entries -/

namespace TypeTable

variable {table table' : TypeTable} {ps qs : List Expr} {e : Expr}

/-- The expressions that have an entry. -/
def keys (table : TypeTable) : List Expr := table.toList.map (·.1)

/-- The keys of a table are the expressions that have an entry. -/
theorem mem_keys : e ∈ table.keys ↔ ∃ t, table.lookup? e = some t := by
  rw [keys, List.mem_map]
  constructor
  · rintro ⟨⟨e, t⟩, hm, rfl⟩
    exact ⟨t, Table.mem_toList.mp hm⟩
  · rintro ⟨t, hl⟩
    exact ⟨(e, t), Table.mem_toList.mpr hl, rfl⟩

/-- No expression has two entries. -/
theorem nodup_keys (table : TypeTable) : table.keys.Nodup := table.types.nodup_keys_toList

/-- There are as many keys as the size of the table says. -/
theorem length_keys (table : TypeTable) : table.keys.length = table.size := by
  rw [keys, toList, Table.toList, List.length_map, List.length_map, size, Table.size]

/-- What a table knows a type of has an entry. -/
theorem mem_keys_of_get (h : table.get e ≠ .unknown) : e ∈ table.keys := by
  rw [mem_keys]
  cases hl : table.lookup? e with
  | none => exact absurd (by rw [get, hl, Option.getD_none]) h
  | some t => exact ⟨t, rfl⟩

/-- Growth loses no entry. -/
theorem Grows.keys_subset (h : table.Grows table') : table.keys ⊆ table'.keys := by
  intro e he
  by_cases hu : table'.get e = .unknown
  · rw [mem_keys, h.blank e hu]
    exact mem_keys.mp he
  · exact mem_keys_of_get hu

/-- Between a table and one above it, the room of `ps` shrinks by what the ranks of its members
gain. -/
theorem room_eq_add_gain (h : table ≤ table') (ps : List Expr) :
    table.room ps
      = table'.room ps + (ps.map fun e => (table'.get e).rank - (table.get e).rank).sum := by
  induction ps with
  | nil => rfl
  | cons e ps ih =>
    have := FieldType.rank_mono (h e)
    have := FieldType.rank_le_two (table'.get e)
    simp only [room, List.map_cons, List.sum_cons] at ih ⊢
    omega

/-- If the writes from `table` to `table'` take room among `ps`, they take it among every list `qs`
that has all entries of `table'`: an expression whose rank has grown has an entry. -/
theorem writes_add_room_le_of_keys (hle : table ≤ table') (hps : ps.Nodup) (hqs : qs.Nodup)
    (hq : table'.keys ⊆ qs)
    (h : table'.writes + table'.room ps ≤ table.writes + table.room ps) :
    table'.writes + table'.room qs ≤ table.writes + table.room qs := by
  -- as sums over sets, where the members of `ps` without gain do not count
  have gains : (ps.map fun e => (table'.get e).rank - (table.get e).rank).sum
      ≤ (qs.map fun e => (table'.get e).rank - (table.get e).rank).sum := by
    rw [← List.sum_toFinset _ hps, ← List.sum_toFinset _ hqs]
    refine Finset.sum_le_sum_of_ne_zero fun e _ hgain => List.mem_toFinset.mpr (hq (mem_keys_of_get ?_))
    intro hu
    rw [hu] at hgain
    exact hgain (Nat.zero_sub _)
  rw [room_eq_add_gain hle ps] at h
  rw [room_eq_add_gain hle qs]
  omega

/-- Setting the completions of some entries, all of them in `qs`, takes a write only if it takes
room among `qs`. -/
theorem foldlM_completed_takes_room : (entries : List (Expr × FieldType)) →
    (∀ entry ∈ entries, entry.1 ∈ qs) → {table table' : TypeTable} →
    entries.foldlM (fun table entry => do table.set entry.1 (← entry.2.completed entry.1)) table
      = .ok table' →
    table'.writes + table'.room qs ≤ table.writes + table.room qs
  | [], _, _, _, h => by
    cases h
    exact Nat.le_refl _
  | (e, t) :: entries, hm, table, table', h => by
    rw [List.foldlM_cons] at h
    obtain ⟨table₁, hset, h⟩ := bind_eq_ok.mp h
    obtain ⟨t', -, hset⟩ := bind_eq_ok.mp hset
    exact Nat.le_trans
      (foldlM_completed_takes_room entries (fun x hx => hm x (List.mem_cons_of_mem _ hx)) h)
      ((set_spec hset).writes_add_room_le (hm (e, t) List.mem_cons_self))

/-- The defaults write only where they take room among the expressions that have an entry. -/
theorem applyLeafDefaults_takes_room {b : Bool} (h : table.applyLeafDefaults = .ok (table', b))
    (hq : table.keys ⊆ qs) :
    table'.writes + table'.room qs ≤ table.writes + table.room qs := by
  obtain ⟨completed, hr, h⟩ := bind_eq_ok.mp h
  cases h
  refine foldlM_completed_takes_room _ (fun entry hm => hq ?_) hr
  exact List.mem_map_of_mem (List.mem_of_mem_filter hm)

end TypeTable

variable {roots : List Expr} {limit limit' n : Nat} {s s' : InferenceState}

/-- What a loop of `n` passes from `s` to `s'` takes: growth, at most one pass for every write and
two more, and writes that take room among any list that has all entries in the end. -/
structure LoopCosts (s s' : InferenceState) (n : Nat) : Prop where
  grows : s.Grows s'
  passes : n + s.table.writes ≤ s'.table.writes + 2
  room : ∀ qs : List Expr, qs.Nodup → s'.table.keys ⊆ qs →
    s'.table.writes + s'.table.room qs ≤ s.table.writes + s.table.room qs

/-- A loop over the roots from a valid state takes no more than `LoopCosts` says. -/
theorem loopCosts_runToFixpoint (hs : s.Valid)
    (hr : (runToFixpoint roots).run.run s = (.ok n, s')) : LoopCosts s s' n := by
  have loop := loopRun_repeat (tame_pass roots) (passLimit roots) s hs
  rw [show (repeatUntilSettled _ _).run.run s = (.ok n, s') from hr] at loop
  exact ⟨loop.grows, (passes_repeat (tame_pass roots) _ hs hr).1, fun qs hqs hq =>
    TypeTable.writes_add_room_le_of_keys loop.grows.le (Expr.nodup_parts roots) hqs hq loop.bounded⟩

namespace Inference

/-! ## Limits -/

/-- The loop after the defaults, with a limit of passes, which runs only if some leaf was given a
default. -/
def resettleWithin (limit : Nat) (roots : List Expr) (defaulted : Bool) : Infer Nat :=
  if defaulted then runToFixpointWithin limit roots else pure 0

/-- Inference of the roots on a table that holds the hints, with a limit for every loop. -/
def runWithin (limit : Nat) (roots : List Expr) : Infer Inference := do
  let first ← runToFixpointWithin limit roots
  let s ← get
  let (table, defaulted) ← s.table.applyLeafDefaults
  updateTable fun _ => table
  let second ← resettleWithin limit roots defaulted
  let s ← get
  s.table.validate
  return ⟨s.table, first + second⟩

/-- Infers the roots under hints, with a limit for every loop. -/
def inferWithin (limit : Nat) (roots : List Expr) (hints : TypeHints) : Except TypeError Inference :=
  ((runWithin limit roots).run.run ⟨.ofHints hints, .empty⟩).1

/-- Inference is inference within the limit that belongs to the roots. -/
theorem inferWithin_passLimit (roots : List Expr) (hints : TypeHints) :
    inferWithin (passLimit roots) roots hints = infer roots hints := by
  have same : runWithin (passLimit roots) roots = run roots := (run_eq roots).symm
  rw [inferWithin, same]
  rfl

/-- The loop after the defaults within a lower limit answers as within a higher one, unless it is
cut off. -/
theorem approximates_resettle (hle : limit ≤ limit') (roots : List Expr) (defaulted : Bool) :
    Approximates (resettleWithin limit roots defaulted)
      (resettleWithin limit' roots defaulted) := by
  unfold resettleWithin
  split
  · exact approximates_runToFixpoint hle roots
  · exact .refl _

/-- Inference within a lower limit answers as within a higher one, unless a loop is cut off. -/
theorem approximates_run (hle : limit ≤ limit') (roots : List Expr) :
    Approximates (runWithin limit roots) (runWithin limit' roots) := by
  refine .bind (approximates_runToFixpoint hle roots) fun first => ?_
  refine .bind (.refl _) fun s => ?_
  refine .bind (.refl _) fun entry => ?_
  refine .bind (.refl _) fun _ => ?_
  exact .bind (approximates_resettle hle roots entry.2) fun second => .refl _

/-- If no loop is cut off within `limit`, a higher limit gives the same answer. -/
theorem inferWithin_of_le {hints : TypeHints} (hle : limit ≤ limit')
    (h : inferWithin limit roots hints ≠ .error .unsettled) :
    inferWithin limit' roots hints = inferWithin limit roots hints :=
  congrArg Prod.fst (approximates_run hle roots ⟨.ofHints hints, .empty⟩ h)

/-! ## Nothing is cut off -/

/-- A sequence is not cut off if neither its first step is, nor what follows, from any answer and
state in which the first step ends. -/
theorem bind_settles {α β : Type} {action : Infer α} {next : α → Infer β}
    (ha : (action.run.run s).1 ≠ .error .unsettled)
    (hn : ∀ a s', action.run.run s = (.ok a, s') → ((next a).run.run s').1 ≠ .error .unsettled) :
    ((action >>= next).run.run s).1 ≠ .error .unsettled := by
  rcases run_bind_cases action next s with ⟨cause, s', hr, hrun⟩ | ⟨a, s', hr, hrun⟩
  · rw [hrun]
    rw [hr] at ha
    exact fun h => ha (congrArg Except.error (Except.error.inj h))
  · rw [hrun]
    exact hn a s' hr

/-- The check for final types fails with an error of its own, never as a loop that is cut off. -/
theorem validate_ne_unsettled (table : TypeTable) : table.validate ≠ .error .unsettled := by
  unfold TypeTable.validate
  split <;> nofun

/-- The loop after the defaults is not cut off. -/
theorem resettle_settles (roots : List Expr) (defaulted : Bool) (hs : s.Valid) :
    ((resettle roots defaulted).run.run s).1 ≠ .error .unsettled := by
  unfold resettle
  split
  · exact runToFixpoint_settles roots s hs
  · nofun

/-- Inference never fails for being cut off. -/
theorem infer_ne_unsettled (roots : List Expr) (hints : TypeHints) :
    infer roots hints ≠ .error .unsettled := by
  have valid := InferenceState.valid_empty (.ofHints hints)
  show ((run roots).run.run ⟨.ofHints hints, .empty⟩).1 ≠ _
  rw [run_eq]
  -- the first loop, the defaults, the second loop and the check; each leaves a valid state
  refine bind_settles (runToFixpoint_settles roots _ valid) fun n s₁ hr => ?_
  have fixpoint := fixpoint_of_run valid hr
  obtain ⟨table, hd, grows, -⟩ := s₁.table.applyLeafDefaults_spec
  refine bind_settles nofun fun _ _ hg => ?_
  cases hg
  refine bind_settles (by rw [hd]; nofun) fun entry _ hl => ?_
  rw [hd] at hl
  cases hl
  refine bind_settles nofun fun _ _ hu => ?_
  cases hu
  refine bind_settles (resettle_settles roots _ (fixpoint.valid.of_grows grows rfl)) fun m s₂ _ => ?_
  refine bind_settles nofun fun _ _ hg => ?_
  cases hg
  refine bind_settles ?_ fun _ _ _ => nofun
  have := validate_ne_unsettled s₂.table
  cases hv : s₂.table.validate with
  | ok _ => nofun
  | error cause =>
    rw [hv] at this
    exact this

/-! ## Bounds -/

/-- The loop after the defaults takes no more than `LoopCosts` says; nothing at all if it does not
run. -/
theorem loopCosts_resettle {defaulted : Bool} (hs : s.Valid)
    (hr : (resettle roots defaulted).run.run s = (.ok n, s')) : LoopCosts s s' n := by
  unfold resettle at hr
  split at hr
  · exact loopCosts_runToFixpoint hs hr
  · obtain ⟨rfl, rfl⟩ := run_pure_eq_ok.mp hr
    exact ⟨.refl _, by omega, fun _ _ _ => Nat.le_refl _⟩

/-- A successful inference has written each entry twice at most, and has taken a pass for every
write at most, and two more in each of its loops. -/
theorem costs_of_infer {hints : TypeHints} {i : Inference} (h : infer roots hints = .ok i) :
    i.table.writes ≤ 2 * i.table.size ∧ i.passes ≤ i.table.writes + 4 := by
  obtain ⟨n, m, s₁, s₂, table, hs⟩ := infer_eq_ok_iff.mp h
  have valid := InferenceState.valid_empty (.ofHints hints)
  have fixpoint := fixpoint_of_run valid hs.first
  obtain ⟨_, hd, grows, -⟩ := s₁.table.applyLeafDefaults_spec
  cases hs.defaults.symm.trans hd
  have valid₁ : InferenceState.Valid { s₁ with table := table } := fixpoint.valid.of_grows grows rfl
  have first := loopCosts_runToFixpoint valid hs.first
  have second := loopCosts_resettle valid₁ hs.second
  rw [hs.eq]
  constructor
  · -- each step takes room among the entries that there are in the end
    have keys : table.keys ⊆ s₂.table.keys := second.grows.keys_subset
    have keys₁ : s₁.table.keys ⊆ s₂.table.keys := List.Subset.trans grows.keys_subset keys
    have nodup := s₂.table.nodup_keys
    calc s₂.table.writes
        ≤ s₂.table.writes + s₂.table.room s₂.table.keys := Nat.le_add_right _ _
      _ ≤ table.writes + table.room s₂.table.keys := second.room _ nodup (List.Subset.refl _)
      _ ≤ s₁.table.writes + s₁.table.room s₂.table.keys :=
        TypeTable.applyLeafDefaults_takes_room hs.defaults keys₁
      _ ≤ 0 + (TypeTable.ofHints hints).room s₂.table.keys := first.room _ nodup keys₁
      _ ≤ 2 * s₂.table.keys.length := by
        rw [Nat.zero_add]
        exact TypeTable.room_le _ _
      _ = 2 * s₂.table.size := by rw [TypeTable.length_keys]
  · have one : n + 0 ≤ s₁.table.writes + 2 := first.passes
    have two : m + table.writes ≤ s₂.table.writes + 2 := second.passes
    have between : s₁.table.writes ≤ table.writes := grows.writes
    show n + m ≤ s₂.table.writes + 4
    omega

/-- **Inference ends.**  No loop, over the roots or inside, is cut off, and a higher limit of passes
makes no difference.  A success has written at most twice as often as there are entries, in at most
four passes more than writes. -/
theorem infer_terminates (roots : List Expr) (hints : TypeHints) :
    infer roots hints ≠ .error .unsettled
      ∧ (∀ limit, passLimit roots ≤ limit → inferWithin limit roots hints = infer roots hints)
      ∧ ∀ i, infer roots hints = .ok i →
        i.table.writes ≤ 2 * i.table.size ∧ i.passes ≤ i.table.writes + 4 := by
  refine ⟨infer_ne_unsettled roots hints, fun limit hle => ?_, fun i hi => costs_of_infer hi⟩
  rw [← inferWithin_passLimit]
  refine inferWithin_of_le hle ?_
  rw [inferWithin_passLimit]
  exact infer_ne_unsettled roots hints

end Inference

end OperatorTemplate
