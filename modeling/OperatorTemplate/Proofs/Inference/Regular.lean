import OperatorTemplate.Proofs.Inference.Plain
/-!
# What every inference does

Whatever the operands of a rule do, the rule does too, as long as it is put together from reads,
unifications, writes to its operands, and visits.  What that is, is collected in `Regular`; an
action is regular beside its *plain twin*, the same action over plain operands:

* it only adds to the table, counts what it adds, and takes room for it;
* it keeps the memory valid: a result that nothing has outdated is the one that the plain rule
  gives;
* if it leaves the flag cleared, it has changed nothing, and its plain twin is quiet.

The last point is what makes the end of a loop a solution: the loop ends with a pass that leaves the
flag cleared, and there the plain pass is quiet.  For a sequence it takes both steps at once: if the
second step leaves the flag cleared, it has changed nothing, so the first step had left the flag
cleared too (`Regular.bind`).

An action is *repeatable* if, after a run without a write, it can be run again without renewing
anything.  That is what ends the loops.
-/

namespace OperatorTemplate

open Infer

variable {α β γ : Type}

/-! ## States -/

/-- A plain visit of an expression. -/
def plainVisit (e : Expr) : Infer FieldType := Operand.visit ⟨e, inferWith plain e⟩

/-- The table of the second state has grown from that of the first: no entry loses information. -/
abbrev InferenceState.Grows (s s' : InferenceState) : Prop := s.table.Grows s'.table

/-- What is remembered of common subexpressions is of this table or an earlier one, and right if the
table is still the same. -/
structure InferenceState.Valid (s : InferenceState) : Prop where
  known : ∀ body label last, s.memory.get? (.shared body label) = some last →
    last.type ≠ .unknown
  past : ∀ body label last, s.memory.get? (.shared body label) = some last →
    last.writes ≤ s.table.writes
  current : ∀ body label last, s.memory.get? (.shared body label) = some last →
    last.writes = s.table.writes →
    s.table.get body = last.type ∧ Quiet (do let _ ← plainVisit body) s.table ()

/-- If the table grows and the memory stays as it is, the memory stays valid: what is up to date
after the growth was so before, since then nothing was written in between. -/
theorem InferenceState.Valid.of_grows {s s' : InferenceState} (h : s.Valid) (hs : s.Grows s')
    (hm : s'.memory = s.memory) : s'.Valid where
  known body label last hl := h.known body label last (hm ▸ hl)
  past body label last hl := Nat.le_trans (h.past body label last (hm ▸ hl)) hs.writes
  current body label last hl hw := by
    rw [hm] at hl
    have := h.past body label last hl
    have := hs.writes
    have ht := hs.types_eq (by omega)
    obtain ⟨hb, hq⟩ := h.current body label last hl (by omega)
    exact ⟨(TypeTable.get_congr ht body).trans hb, hq.congr ht⟩

/-- `s₂` has the entries of `s` and remembers every result that is up to date in `s`. -/
structure InferenceState.Covers (s₂ s : InferenceState) : Prop where
  types : s₂.table.types = s.table.types
  writes : s₂.table.writes = s.table.writes
  memory : ∀ e last, s.memory.get? e = some last → last.type = s.table.get e →
    last.writes = s.table.writes → s₂.memory.get? e = some last

/-- A state covers itself. -/
theorem InferenceState.Covers.refl (s : InferenceState) : s.Covers s :=
  ⟨rfl, rfl, fun _ _ h _ _ => h⟩

/-- A state covers what is covered by a state that it covers. -/
theorem InferenceState.Covers.trans {s s₁ s₂ : InferenceState} (h : s₂.Covers s₁)
    (h' : s₁.Covers s) : s₂.Covers s where
  types := h.types.trans h'.types
  writes := h.writes.trans h'.writes
  memory e last hl ht hw :=
    h.memory e last (h'.memory e last hl ht hw) (ht.trans (TypeTable.get_congr h'.types e).symm)
      (hw.trans h'.writes.symm)

/-! ## Regular actions -/

/-- What is said of one run of an action, from `s`: how the state has changed, that a success
satisfies `P`, and that a run that leaves the flag cleared has changed nothing. -/
structure RegularRun (ps : List Expr) (P : α → Prop) (twin : Infer α) (s : InferenceState)
    (run : Except TypeError α × InferenceState) : Prop where
  grows : s.Grows run.2
  valid : run.2.Valid
  bounded : run.2.table.writes + run.2.table.room ps ≤ s.table.writes + s.table.room ps
  covers : run.2.table.writes = s.table.writes → run.2.Covers s
  settles : run.1 ≠ .error .unsettled
  returns : ∀ a, run.1 = .ok a → P a
  quiet : ∀ a, run.1 = .ok a → run.2.table.changed = false → run.2 = s ∧ Quiet twin s.table a

/-- An action that, run from valid states, writes to the expressions `ps` alone and is regular beside
its plain twin; its answers satisfy `P`. -/
def Regular (ps : List Expr) (P : α → Prop) (action twin : Infer α) : Prop :=
  ∀ s : InferenceState, s.Valid → RegularRun ps P twin s (action.run.run s)

/-- After a run without a write, nothing is left to do: from every state that remembers as much, the
action gives the same answer and changes nothing. -/
def Repeatable (action : Infer α) : Prop :=
  ∀ s, s.Valid → ∀ a s', action.run.run s = (.ok a, s') → s'.table.writes = s.table.writes →
    ∀ s₂ : InferenceState, s₂.Covers s' → action.run.run s₂ = (.ok a, s₂)

namespace Regular

variable {ps : List Expr} {P : α → Prop} {Q : β → Prop}

/-- A regular action is regular with every weaker condition `P'` on its answers. -/
theorem mono {P' : α → Prop} {action twin : Infer α} (h : Regular ps P action twin)
    (hP : ∀ a, P a → P' a) : Regular ps P' action twin :=
  fun s hs => { h s hs with returns := fun a ha => hP a ((h s hs).returns a ha) }

/-- A run that does not change the state. -/
theorem run_self {twin : Infer α} {s : InferenceState} (hs : s.Valid) {answer : Except TypeError α}
    (settles : answer ≠ .error .unsettled) (returns : ∀ a, answer = .ok a → P a)
    (quiet : ∀ a, answer = .ok a → Quiet twin s.table a) :
    RegularRun ps P twin s (answer, s) where
  grows := .refl _
  valid := hs
  bounded := Nat.le_refl _
  covers _ := .refl s
  settles := settles
  returns := returns
  quiet a ha _ := ⟨rfl, quiet a ha⟩

/-- A constant answer is regular beside itself. -/
theorem pure {a : α} (h : P a) : Regular ps P (Pure.pure a) (Pure.pure a) :=
  fun _ hs => run_self hs nofun (fun b hb => by cases hb; exact h)
    fun b hb => by cases hb; exact Quiet.pure a

/-- A failure is regular beside itself, unless it is that of a loop that was cut off. -/
theorem throw {cause : TypeError} (h : cause ≠ .unsettled) :
    Regular ps P (MonadExcept.throw cause) (MonadExcept.throw cause) :=
  fun _ hs => run_self hs (fun hc => h (Except.error.inj hc)) nofun nofun

/-- A lookup is regular beside itself. -/
theorem known (e : Expr) : Regular ps (fun _ => True) (Infer.known e) (Infer.known e) :=
  fun _ hs => run_self hs nofun (fun _ _ => trivial) fun _ ha => by cases ha; exact Quiet.known e

/-- A unification is regular beside itself: it leaves the state alone. -/
theorem lift {answer : Except TypeError α} (hc : answer ≠ .error .unsettled)
    (h : ∀ a, answer = .ok a → P a) : Regular ps P (liftM answer) (liftM answer) := by
  intro s hs
  rw [show (liftM answer : Infer α).run.run s = (answer, s) by cases answer <;> rfl]
  exact run_self hs hc h fun a ha => Quiet.lift ha

/-- A write for one of the expressions `ps` is regular beside itself.  It takes room for what it
adds, and if it leaves the flag cleared it has added nothing. -/
theorem write {e : Expr} (he : e ∈ ps) (t : FieldType) :
    Regular ps (fun _ => True) (Infer.write e t) (Infer.write e t) := by
  intro s hs
  cases hset : s.table.set e t with
  | error cause =>
    rw [run_write_of_error hset]
    refine run_self hs (fun h => ?_) nofun nofun
    cases h
    exact TypeTable.set_ne_unsettled hset
  | ok table =>
    have hw := TypeTable.set_spec hset
    rw [run_write_of_ok hset]
    refine ⟨hw.grows, hs.of_grows hw.grows rfl, hw.writes_add_room_le he, fun hn => ?_, nofun,
      fun _ _ => trivial, fun a _ hc => ?_⟩
    · rw [show table = s.table from hw.eq_of_writes hn]
      exact .refl s
    · have same : table = s.table := hw.eq_of_changed hc
      rw [same] at hw ⊢
      exact ⟨rfl, Quiet.write hw.joins.right⟩

/-- A sequence is regular beside the sequence of the twins, if its steps are. -/
theorem bind {action twin : Infer α} {next next' : α → Infer β} (ha : Regular ps P action twin)
    (hn : ∀ a, P a → Regular ps Q (next a) (next' a)) :
    Regular ps Q (action >>= next) (twin >>= next') := by
  intro s hs
  have first := ha s hs
  rcases run_bind_cases action next s with ⟨cause, s', hr, h⟩ | ⟨a, s', hr, h⟩
  · rw [hr] at first
    rw [h]
    -- the first step fails, and so does the sequence
    exact ⟨first.grows, first.valid, first.bounded, first.covers,
      fun h => first.settles (congrArg Except.error (Except.error.inj h)), nofun, nofun⟩
  · rw [hr] at first
    rw [h]
    have second := hn a (first.returns a rfl) s' first.valid
    refine ⟨first.grows.trans second.grows, second.valid,
      Nat.le_trans second.bounded first.bounded, fun hw => ?_, second.settles, second.returns,
      fun b hb hc => ?_⟩
    · have hw₁ : s.table.writes ≤ s'.table.writes := first.grows.writes
      have hw₂ := second.grows.writes
      exact (second.covers (by omega)).trans
        (first.covers (show s'.table.writes = s.table.writes by omega))
    · -- the flag is cleared in the end, so the second step has changed nothing, and neither has the
      -- first
      obtain ⟨hs', hq⟩ := second.quiet b hb hc
      rw [hs'] at hc ⊢
      obtain ⟨heq, hq'⟩ := first.quiet a rfl hc
      dsimp only at heq
      subst heq
      exact ⟨rfl, hq'.bind hq⟩

end Regular

end OperatorTemplate
