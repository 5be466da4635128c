import Mathlib.Order.Bounds.Basic
import OperatorTemplate.Proofs.Inference.Phases
/-!
# Types accumulate

Types are written to a table one after the other (`inTurn ws`), in any order, for any expressions,
and some of the writes fail.  What is known of an expression is then the join of its hint and of the
types that were written for it with success (`writes_accumulate`); failures leave no trace.

The crux is one equivalence (`get_inTurn_le_iff`): after the writes, the entry of `x` is below a
type `d` exactly if it was below `d` before and every `t` is below `d` that was written for `x` with
success.  It follows from the same statement about one write, by induction on the writes, and says
that the entry is a least upper bound.

So the order of writes shows in the entries only through failures.  And where no write fails, the
table in the end is above all that is written; below such a table no write can fail, whatever the
order (`inTurn_of_le`), although types that join in pairs need not join all together.  Hence a
permutation of writes that all succeed succeeds as well, with the same entries (`inTurn_perm`).

For the counter, every counted write for `e` raises the rank of its entry, which is at most 2
(`rank_add_counted_le`).
-/

namespace OperatorTemplate

/-! ## Hints -/

/-- The type that hints give for an expression, if they give any. -/
def TypeHints.lookup? (hints : TypeHints) (e : Expr) : Option FieldType := hints.reverse.lookup e

/-- A table filled with hints looks up the last hint for each expression. -/
theorem TypeTable.lookup?_ofHints (hints : TypeHints) (e : Expr) :
    (ofHints hints).lookup? e = hints.lookup? e :=
  Table.get?_ofList_eq_lookup hints e

namespace Infer

/-! ## Writes in turn -/

/-- Makes writes one after the other, and goes on after failures. -/
def inTurn (ws : List (Expr × FieldType)) : StateM InferenceState (List (Except TypeError Unit)) :=
  ws.mapM fun w => (write w.1 w.2).run

/-- The writes whose answer is a success. -/
def succeeded (ws : List (Expr × FieldType)) (answers : List (Except TypeError Unit)) :
    List (Expr × FieldType) :=
  ((ws.zip answers).filter (·.2.isOk)).map (·.1)

/-- How many of some writes in turn are writes for `e` and are counted by the table. -/
def counted (e : Expr) : List (Expr × FieldType) → InferenceState → Nat
  | [], _ => 0
  | w :: ws, s =>
    let s' := ((write w.1 w.2).run.run s).2
    (if w.1 = e ∧ s'.table.writes ≠ s.table.writes then 1 else 0) + counted e ws s'

variable {e x : Expr} {t d : FieldType} {w : Expr × FieldType} {ws ws' : List (Expr × FieldType)}
  {s s' : InferenceState} {answers : List (Except TypeError Unit)}

/-- The first write is made, and the others from the state in which it ends, with or without
success. -/
theorem run_inTurn_cons (w : Expr × FieldType) (ws : List (Expr × FieldType)) (s : InferenceState) :
    (inTurn (w :: ws)).run s
      = (((write w.1 w.2).run.run s).1 :: ((inTurn ws).run ((write w.1 w.2).run.run s).2).1,
          ((inTurn ws).run ((write w.1 w.2).run.run s).2).2) := by
  rw [inTurn, List.mapM_cons]
  rfl

/-- A write fails and leaves everything as it is, or it writes. -/
theorem write_cases (e : Expr) (t : FieldType) (s : InferenceState) :
    (∃ cause, (write e t).run.run s = (.error cause, s))
      ∨ ∃ s', (write e t).run.run s = (.ok (), s') ∧ TypeTable.Written e t s.table s'.table := by
  cases h : s.table.set e t with
  | error cause => exact .inl ⟨cause, run_write_of_error h⟩
  | ok table => exact .inr ⟨_, run_write_of_ok h, TypeTable.set_spec h⟩

/-- The successful writes of a list whose first write succeeds are that one and those of the rest.
-/
theorem mem_succeeded_cons_ok :
    w ∈ succeeded ((e, t) :: ws) (.ok () :: answers) ↔ w = (e, t) ∨ w ∈ succeeded ws answers :=
  List.mem_cons

/-! ## Entries -/

/-- After a write of `t` for `e`, an entry is below `d` exactly if it was before and, for `e`
itself, `t` is. -/
theorem get_le_iff_of_written {T T' : TypeTable} (h : TypeTable.Written e t T T') :
    T'.get x ≤ d ↔ T.get x ≤ d ∧ (x = e → t ≤ d) := by
  by_cases hx : x = e
  · subst hx
    exact ⟨fun hd => ⟨h.joins.left.trans hd, fun _ => h.joins.right.trans hd⟩,
      fun hd => h.joins.least d hd.1 (hd.2 rfl)⟩
  · rw [h.get_of_ne hx]
    exact (and_iff_left fun hxe => absurd hxe hx).symm

/-- After writes in turn, an entry is below a type exactly if it was before and all is that was
written for it with success. -/
theorem get_inTurn_le_iff (ws : List (Expr × FieldType)) (s : InferenceState) :
    ((inTurn ws).run s).2.table.get x ≤ d ↔
      s.table.get x ≤ d ∧ ∀ t, (x, t) ∈ succeeded ws ((inTurn ws).run s).1 → t ≤ d := by
  induction ws generalizing s with
  | nil => exact (and_iff_left nofun).symm
  | cons w ws ih =>
    obtain ⟨e, t⟩ := w
    rw [run_inTurn_cons]
    -- a write that fails is in neither list and leaves the state; one that succeeds joins its
    -- entry
    rcases write_cases e t s with ⟨cause, hr⟩ | ⟨s', hr, hw⟩
    · rw [hr]
      exact ih s
    · rw [hr, ih s', get_le_iff_of_written hw, and_assoc]
      refine and_congr_right fun _ => ?_
      constructor
      · rintro ⟨first, rest⟩ u hu
        rcases mem_succeeded_cons_ok.mp hu with h | hu
        · cases h
          exact first rfl
        · exact rest u hu
      · intro all
        refine ⟨fun hx => ?_, fun u hu => all u (mem_succeeded_cons_ok.mpr (.inr hu))⟩
        subst hx
        exact all t (mem_succeeded_cons_ok.mpr (.inl rfl))

/-- Writes in turn only let the table grow. -/
theorem grows_inTurn (ws : List (Expr × FieldType)) (s : InferenceState) :
    s.table.Grows ((inTurn ws).run s).2.table := by
  induction ws generalizing s with
  | nil => exact .refl _
  | cons w ws ih =>
    rw [run_inTurn_cons]
    rcases write_cases w.1 w.2 s with ⟨cause, hr⟩ | ⟨s', hr, hw⟩
    · rw [hr]
      exact ih s
    · rw [hr]
      exact hw.grows.trans (ih s')

/-- Without a success that says anything about it, an entry stays as it is. -/
theorem lookup?_inTurn_of_unknown (ws : List (Expr × FieldType)) (s : InferenceState)
    (h : ∀ t, (x, t) ∈ succeeded ws ((inTurn ws).run s).1 → t = .unknown) :
    ((inTurn ws).run s).2.table.lookup? x = s.table.lookup? x := by
  have below : ((inTurn ws).run s).2.table.get x ≤ s.table.get x :=
    (get_inTurn_le_iff ws s).mpr ⟨le_refl _, fun t ht => h t ht ▸ FieldType.unknown_le _⟩
  exact (grows_inTurn ws s).lookup?_eq (le_antisymm below ((grows_inTurn ws s).le x))

/-! ## Counted writes -/

/-- A write is counted exactly if it changes the entry that it is for. -/
theorem writes_write (e : Expr) (t : FieldType) (s : InferenceState) :
    ((write e t).run.run s).2.table.writes
      = s.table.writes
        + if ((write e t).run.run s).2.table.lookup? e = s.table.lookup? e then 0 else 1 := by
  rcases write_cases e t s with ⟨cause, hr⟩ | ⟨s', hr, hw⟩
  · rw [hr, if_pos rfl, Nat.add_zero]
  · rw [hr]
    rcases hw.eq_or_record with same | ⟨hlt, hrec⟩
    · rw [same, if_pos rfl, Nat.add_zero]
    · have changed : s'.table.lookup? e ≠ s.table.lookup? e := fun h => by
        rw [TypeTable.get, TypeTable.get, h] at hlt
        exact lt_irrefl _ hlt
      rw [if_neg changed, hrec, TypeTable.record]

/-- Every counted write for an expression lifts its entry by a level. -/
theorem rank_add_counted_le (e : Expr) (ws : List (Expr × FieldType)) (s : InferenceState) :
    (s.table.get e).rank + counted e ws s ≤ (((inTurn ws).run s).2.table.get e).rank := by
  induction ws generalizing s with
  | nil => exact Nat.le_refl _
  | cons w ws ih =>
    rw [run_inTurn_cons, counted]
    rcases write_cases w.1 w.2 s with ⟨cause, hr⟩ | ⟨s', hr, hw⟩
    · rw [hr, if_neg fun h => h.2 rfl, Nat.zero_add]
      exact ih s
    · have rest := ih s'
      rw [hr]
      show (s.table.get e).rank + ((if w.1 = e ∧ s'.table.writes ≠ s.table.writes then 1 else 0)
        + counted e ws s') ≤ (((inTurn ws).run s').2.table.get e).rank
      -- it is counted and is for `e`, so the entry of `e` has changed; else the rank may stay
      split
      next h =>
        obtain ⟨rfl, hcount⟩ := h
        have lifted : (s.table.get w.1).rank < (s'.table.get w.1).rank := by
          rcases hw.eq_or_record with same | ⟨hlt, -⟩
          · rw [same] at hcount
            exact absurd rfl hcount
          · exact FieldType.rank_lt_of_lt hlt
        omega
      next =>
        have := FieldType.rank_mono (hw.le e)
        omega

/-! ## Orders of writes -/

/-- Below a table that says all that is written, no write fails, and the entries stay below. -/
theorem inTurn_of_le {D : TypeTable} (ws : List (Expr × FieldType)) (s : InferenceState)
    (hs : s.table ≤ D) (h : ∀ w ∈ ws, w.2 ≤ D.get w.1) :
    ∀ answer ∈ ((inTurn ws).run s).1, answer = .ok () := by
  induction ws generalizing s with
  | nil => exact fun _ ha => absurd ha List.not_mem_nil
  | cons w ws ih =>
    have hD := h w List.mem_cons_self
    obtain ⟨table, hset⟩ := TypeTable.exists_set_of_le hs hD
    have below : table ≤ D := (TypeTable.set_spec hset).le_of_le hs hD
    rw [run_inTurn_cons, run_write_of_ok hset]
    intro answer ha
    rcases List.mem_cons.mp ha with rfl | ha
    · rfl
    · exact ih _ below (fun w hw => h w (List.mem_cons_of_mem _ hw)) answer ha

/-- Where no write fails, all writes succeed. -/
theorem succeeded_of_ok (ws : List (Expr × FieldType)) (s : InferenceState)
    (h : ∀ answer ∈ ((inTurn ws).run s).1, answer = .ok ()) :
    succeeded ws ((inTurn ws).run s).1 = ws := by
  induction ws generalizing s with
  | nil => rfl
  | cons w ws ih =>
    rw [run_inTurn_cons] at h ⊢
    have first := h _ List.mem_cons_self
    have rest := ih _ fun answer ha => h answer (List.mem_cons_of_mem _ ha)
    rw [first]
    exact congrArg (w :: ·) rest

/-- Writes none of which fails can be made in any other order: none fails, and the entries are the
same. -/
theorem inTurn_perm (hp : ws'.Perm ws) (s : InferenceState)
    (h : ∀ answer ∈ ((inTurn ws).run s).1, answer = .ok ()) :
    (∀ answer ∈ ((inTurn ws').run s).1, answer = .ok ())
      ∧ ((inTurn ws).run s).2.table.SameEntries ((inTurn ws').run s).2.table := by
  have all := succeeded_of_ok ws s h
  -- after the writes in their first order, every entry is above what is written for it
  have written (w : Expr × FieldType) (hw : w ∈ ws') :
      w.2 ≤ ((inTurn ws).run s).2.table.get w.1 :=
    ((get_inTurn_le_iff ws s).mp (le_refl _)).2 w.2 (all.symm ▸ hp.mem_iff.mp hw)
  have ok := inTurn_of_le ws' s (grows_inTurn ws s).le written
  have all' := succeeded_of_ok ws' s ok
  refine ⟨ok, lookup?_eq_of_grows (grows_inTurn ws s) (grows_inTurn ws' s) (fun _ => rfl) fun e => ?_⟩
  -- both entries have the same upper bounds
  have bounds (d : FieldType) : ((inTurn ws').run s).2.table.get e ≤ d
      ↔ ((inTurn ws).run s).2.table.get e ≤ d := by
    rw [get_inTurn_le_iff, get_inTurn_le_iff, all, all']
    exact and_congr_right fun _ => forall_congr' fun t => imp_congr_left hp.mem_iff
  exact le_antisymm ((bounds _).mpr (le_refl _)) ((bounds _).mp (le_refl _))

/-- **Types accumulate.**  A table is filled with hints, and written to any number of times; some of
the writes fail.  A write that fails changes nothing; one that does not changes no entry but its own,
and is counted exactly if it changes that one, which happens at most twice for an expression.  An
entry is the join of its hint and of what was written for it with success.  If no write fails, none
does in any other order, and the entries in the end are the same. -/
theorem writes_accumulate (hints : TypeHints) (memory : SettledMemory)
    (ws : List (Expr × FieldType)) :
    let start : InferenceState := ⟨.ofHints hints, memory⟩
    let answers := ((inTurn ws).run start).1
    let s := ((inTurn ws).run start).2
    (∀ e t, let run := (write e t).run.run s
      (∀ cause, run.1 = .error cause → run.2 = s) ∧
      (∀ x, x ≠ e → run.2.table.lookup? x = s.table.lookup? x) ∧
      run.2.table.writes
        = s.table.writes + if run.2.table.lookup? e = s.table.lookup? e then 0 else 1) ∧
    (∀ e, counted e ws start ≤ 2) ∧
    (∀ e, IsLUB (insert ((hints.lookup? e).getD .unknown) {t | (e, t) ∈ succeeded ws answers})
      (s.table.get e)) ∧
    (∀ e, (∀ t, (e, t) ∈ succeeded ws answers → t = .unknown) →
      s.table.lookup? e = hints.lookup? e) ∧
    ((∀ answer ∈ answers, answer = .ok ()) → ∀ ws', ws'.Perm ws →
      (∀ answer ∈ ((inTurn ws').run start).1, answer = .ok ()) ∧
      s.table.SameEntries ((inTurn ws').run start).2.table) := by
  intro start answers s
  have hint (e : Expr) : start.table.get e = (hints.lookup? e).getD .unknown := by
    rw [TypeTable.get, TypeTable.lookup?_ofHints]
  refine ⟨fun e t => ⟨?_, ?_, writes_write e t s⟩, fun e => ?_, fun e => ?_, fun e he => ?_,
    fun ok ws' hp => inTurn_perm hp start ok⟩
  · intro cause hcause
    rcases write_cases e t s with ⟨_, hr⟩ | ⟨s', hr, -⟩
    · exact congrArg Prod.snd hr
    · rw [hr] at hcause
      cases hcause
  · intro x hx
    rcases write_cases e t s with ⟨_, hr⟩ | ⟨s', hr, hw⟩
    · rw [hr]
    · rw [hr]
      exact hw.others x hx
  · have := rank_add_counted_le e ws start
    have := FieldType.rank_le_two (((inTurn ws).run start).2.table.get e)
    omega
  · -- the upper bounds of an entry are those of its hint and of what was written for it
    rw [isLUB_iff_le_iff]
    intro d
    rw [get_inTurn_le_iff, hint e, upperBounds_insert]
    exact Iff.rfl
  · exact (lookup?_inTurn_of_unknown ws start he).trans (TypeTable.lookup?_ofHints hints e)

end Infer

end OperatorTemplate
