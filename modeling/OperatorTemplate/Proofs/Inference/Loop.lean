import OperatorTemplate.Proofs.Inference.Rule
/-!
# Loops of inference

A loop repeats a tame pass until it leaves the flag cleared.  Whatever the passes have done, the
loop does what one of them does: it adds to the table, takes room for that, and keeps the memory
valid. It ends where the plain twin of the pass is quiet (`LoopRun`, `loopRun_repeat`).

It does end (`settles_repeat`).  A pass that writes takes room, of which there is a bounded amount.
A pass that raises the flag without a write has renewed some result in memory; but a tame pass is
repeatable, so the pass after it finds everything up to date, and leaves the flag cleared.  So the
measure is the room that is left, with one more pass allowed after each pass that did not write.
-/

namespace OperatorTemplate

open Infer

variable {ps : List Expr} {P : Unit → Prop} {pass twin : Infer Unit}

/-- The state with the flag cleared. -/
def InferenceState.settle (s : InferenceState) : InferenceState := { s with table := s.table.settle }

/-- Clearing the flag loses no information. -/
theorem InferenceState.grows_settle (s : InferenceState) : s.Grows s.settle :=
  TypeTable.grows_of_types_eq rfl rfl

/-- Clearing the flag keeps the memory valid. -/
theorem InferenceState.Valid.settle {s : InferenceState} (h : s.Valid) : s.settle.Valid :=
  h.of_grows s.grows_settle rfl

/-- The state with the flag cleared covers the state. -/
theorem InferenceState.covers_settle (s : InferenceState) : s.settle.Covers s :=
  ⟨rfl, rfl, fun _ _ h _ _ => h⟩

/-- One round of a loop: a pass with the flag cleared, and the rest of the loop if the pass fails to
leave it so. -/
theorem run_repeat_succ (pass : Infer Unit) (limit : Nat) (s : InferenceState) :
    (∃ cause s₁, pass.run.run s.settle = (.error cause, s₁)
        ∧ (repeatUntilSettled pass (limit + 1)).run.run s = (.error cause, s₁))
      ∨ ∃ s₁, pass.run.run s.settle = (.ok (), s₁)
        ∧ (repeatUntilSettled pass (limit + 1)).run.run s
          = if s₁.table.changed then
              ((repeatUntilSettled pass limit >>= fun n => pure (n + 1) : Infer Nat)).run.run s₁
            else (.ok 1, s₁) := by
  have unfolded : (repeatUntilSettled pass (limit + 1)).run.run s
      = (pass >>= fun _ => (get : Infer InferenceState) >>= fun state =>
          if state.table.changed then (do return (← repeatUntilSettled pass limit) + 1)
          else return 1).run.run s.settle := rfl
  rcases run_bind_cases pass (fun _ => (get : Infer InferenceState) >>= fun state =>
      if state.table.changed then (do return (← repeatUntilSettled pass limit) + 1)
      else return 1) s.settle with ⟨cause, s₁, hr, h⟩ | ⟨⟨⟩, s₁, hr, h⟩
  · exact .inl ⟨cause, s₁, hr, unfolded.trans h⟩
  · refine .inr ⟨s₁, hr, (unfolded.trans h).trans ?_⟩
    show (if s₁.table.changed then (do return (← repeatUntilSettled pass limit) + 1)
      else return 1 : Infer Nat).run.run s₁ = _
    split <;> rfl

/-- What is said of a run of a loop from `s`: what has changed, and that at the end of a loop the
plain twin of its pass is quiet. -/
structure LoopRun (ps : List Expr) (twin : Infer Unit) (s : InferenceState)
    (run : Except TypeError Nat × InferenceState) : Prop where
  grows : s.Grows run.2
  valid : run.2.Valid
  bounded : run.2.table.writes + run.2.table.room ps ≤ s.table.writes + s.table.room ps
  covers : run.2.table.writes = s.table.writes → run.2.Covers s
  /-- A loop ends with a pass that has changed nothing. -/
  quiet : ∀ n, run.1 = .ok n → run.2.table.changed = false ∧ Quiet twin run.2.table ()

/-- Every run of a loop of a tame pass, from a valid state, is as `LoopRun` says, whether it
succeeds, fails, or is cut off.  By induction on the limit. -/
theorem loopRun_repeat (h : Tame ps P pass twin) : (limit : Nat) → (s : InferenceState) →
    s.Valid → LoopRun ps twin s ((repeatUntilSettled pass limit).run.run s)
  | 0, s, hs => ⟨.refl _, hs, Nat.le_refl _, fun _ => .refl s, nofun⟩
  | limit + 1, s, hs => by
    have first := h.regular s.settle hs.settle
    have grows := s.grows_settle
    have room : s.settle.table.room ps = s.table.room ps := TypeTable.room_congr ps rfl
    have writes : s.settle.table.writes = s.table.writes := rfl
    rcases run_repeat_succ pass limit s with ⟨cause, s₁, hr, hrun⟩ | ⟨s₁, hr, hrun⟩
    · rw [hr] at first
      rw [hrun]
      exact ⟨grows.trans first.grows, first.valid, by rw [← room, ← writes]; exact first.bounded,
        fun hw => (first.covers hw).trans s.covers_settle, nofun⟩
    · rw [hr] at first
      rw [hrun]
      have bounded : s₁.table.writes + s₁.table.room ps ≤ s.table.writes + s.table.room ps := by
        rw [← room, ← writes]
        exact first.bounded
      split
      · -- the flag was raised: the rest of the loop decides
        have rest := loopRun_repeat h limit s₁ first.valid
        rcases run_bind_cases (repeatUntilSettled pass limit) (fun n => pure (n + 1)) s₁ with
          ⟨cause, s₂, hr₂, hrun₂⟩ | ⟨n, s₂, hr₂, hrun₂⟩ <;> rw [hr₂] at rest <;> rw [hrun₂]
        all_goals
          have covers (hw : s₂.table.writes = s.table.writes) : s₂.Covers s := by
            have hw₁ : s.table.writes ≤ s₁.table.writes := first.grows.writes
            have hw₂ : s₁.table.writes ≤ s₂.table.writes := rest.grows.writes
            exact ((rest.covers (show s₂.table.writes = s₁.table.writes by omega)).trans
              (first.covers (show s₁.table.writes = s.table.writes by omega))).trans
              s.covers_settle
        · exact ⟨(grows.trans first.grows).trans rest.grows, rest.valid,
            Nat.le_trans rest.bounded bounded, covers, nofun⟩
        · exact ⟨(grows.trans first.grows).trans rest.grows, rest.valid,
            Nat.le_trans rest.bounded bounded, covers, fun _ _ => rest.quiet n rfl⟩
      next hc =>
        -- the flag is cleared: the pass has changed nothing, and its plain twin is quiet
        have hc : s₁.table.changed = false := by simpa using hc
        obtain ⟨same, quiet⟩ := first.quiet () rfl hc
        have same : s₁ = s.settle := same
        exact ⟨grows.trans first.grows, first.valid, bounded,
          fun hw => (first.covers hw).trans s.covers_settle,
          fun _ _ => ⟨hc, by rw [same]; exact quiet⟩⟩

/-- A loop of a tame pass is not cut off if the limit has a pass for every write that there is room
for, and two more; or if it has one pass, and this one changes nothing.  By induction on the limit.
-/
theorem settles_repeat (h : Tame ps P pass twin) : (limit : Nat) → (s : InferenceState) →
    s.Valid → s.table.room ps + 2 ≤ limit
      ∨ 1 ≤ limit ∧ pass.run.run s.settle = (.ok (), s.settle) →
    ((repeatUntilSettled pass limit).run.run s).1 ≠ .error .unsettled
  | 0, _, _, hl => by omega
  | limit + 1, s, hs, hl => by
    have first := h.regular s.settle hs.settle
    have room : s.settle.table.room ps = s.table.room ps := TypeTable.room_congr ps rfl
    have writes : s.settle.table.writes = s.table.writes := rfl
    rcases run_repeat_succ pass limit s with ⟨cause, s₁, hr, hrun⟩ | ⟨s₁, hr, hrun⟩
    · rw [hr] at first
      rw [hrun]
      -- the pass fails, but not because something was cut off
      exact fun h => first.settles (congrArg Except.error (Except.error.inj h))
    · rw [hrun]
      split
      next hc =>
        rcases hl with hl | ⟨-, hquiet⟩
        · rw [hr] at first
          have bounded : s₁.table.writes + s₁.table.room ps ≤ s.table.writes + s.table.room ps := by
            rw [← room, ← writes]
            exact first.bounded
          have grown : s.table.writes ≤ s₁.table.writes := first.grows.writes
          have rest : ((repeatUntilSettled pass limit).run.run s₁).1 ≠ .error .unsettled := by
            refine settles_repeat h limit s₁ first.valid ?_
            by_cases hw : s₁.table.writes = s.table.writes
            · -- nothing was written, so nothing is left to renew
              exact .inr ⟨by omega, h.repeatable s.settle hs.settle () s₁ hr hw s₁.settle
                s₁.covers_settle⟩
            · exact .inl (by omega)
          rcases run_bind_cases (repeatUntilSettled pass limit) (fun n => pure (n + 1)) s₁ with
            ⟨cause, s₂, hr₂, hrun₂⟩ | ⟨n, s₂, hr₂, hrun₂⟩ <;> rw [hr₂] at rest <;> rw [hrun₂]
          · exact fun h => rest (congrArg Except.error (Except.error.inj h))
          · nofun
        · -- the pass was quiet, so the flag is cleared
          rw [hr] at hquiet
          cases hquiet
          nomatch hc
      · nofun

end OperatorTemplate
