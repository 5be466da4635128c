import Mathlib.Logic.Relation
import OperatorTemplate.Proofs.Inference.Pointwise
import OperatorTemplate.Proofs.Inference.Termination
/-!
# Where defaults reach

Defaults complete leaves, and inference has to carry what they add to everything above.  In
pointwise roots without hints it mostly does.  Arithmetic shares its type with its vector operands,
and a common subexpression with its body; so types travel along these *ties*, up and down (`Ties`,
`Tied.type_eq`).  But geometric data answer that they live on the volume, whatever is recorded for
them, so there is no tie between them and the arithmetic above.

An expression is *stuck* if it is a visited vector and no leaf is tied to it (`Stuck`).  All that is
known of it comes from geometric operands of arithmetic that is tied to it
(`Stuck.exists_geometric`): it lives on the volume, in no representation.  So inference succeeds, or
finds a conflict, or leaves a stuck expression at `.onVolume`; and where something is stuck it does
not succeed (`infer_pointwise`).

The first half holds since a visited leaf ends with a final type, and so does what is tied to it
(`stuck_of_not_isFinal`).  The crux of the second half is that, for a typing `T` that solves the
roots, the typing `unstuck roots T` solves them as well (`solves_unstuck`): it is `.onVolume` at
what is stuck and `T` elsewhere.  The ends of a tie are both stuck or both not, so it respects the
ties; a stuck node is above the answer `.onVolume` of its geometric operands.  Both loops and the
defaults end below that typing, where nothing stuck is final.
-/

namespace OperatorTemplate

open FieldType

namespace Expr

/-! ## Ties -/

/-- Visited expressions that share their type: arithmetic and a vector operand that answers what is
recorded for it, and a common subexpression and its body. -/
inductive Ties (roots : List Expr) : Expr → Expr → Prop
  | operand {e c : Expr} (hr : Reached roots e) (he : e.IsArithmetic) (hc : c ∈ e.children)
    (hs : ¬c.IsScalar) (hg : ¬c.IsGeometric) : Ties roots e c
  | body {x : Expr} {label : Option String} (hr : Reached roots (.shared x label)) :
    Ties roots (.shared x label) x

/-- Connected by ties, in either direction. -/
abbrev Tied (roots : List Expr) : Expr → Expr → Prop := Relation.EqvGen (Ties roots)

/-- A vector that is visited, with no leaf tied to it. -/
structure Stuck (roots : List Expr) (e : Expr) : Prop where
  reached : Reached roots e
  vector : ¬e.IsScalar
  untied : ∀ leaf : Expr, leaf.isDefaultable = true → ¬Tied roots leaf e

variable {roots : List Expr} {T : Expr → FieldType} {e c : Expr}

/-- The upper end of a tie is visited. -/
theorem Ties.reached_left (h : Ties roots e c) : Reached roots e := by
  cases h with
  | operand hr _ _ _ _ | body hr => exact hr

/-- The lower end of a tie is visited, as an operand of the upper end. -/
theorem Ties.reached_right (h : Ties roots e c) : Reached roots c := by
  cases h with
  | operand hr he hc _ _ => exact hr.operand (mem_demands_of_isArithmetic he hc)
  | body hr => exact hr.operand (o := (.unknown, c)) List.mem_cons_self

/-- The ends of a tie are both scalar or both vectors. -/
theorem Ties.isScalar_iff (h : Ties roots e c) : e.IsScalar ↔ c.IsScalar := by
  cases h with
  | operand _ he hc hs _ => exact iff_of_false (fun h => hs (h.of_isArithmetic he c hc)) hs
  | body _ => exact isScalar_shared_iff

/-- What is the same at both ends of each tie is the same for all that is tied. -/
theorem Tied.value_eq {α : Type} (v : Expr → α) (hv : ∀ x y, Ties roots x y → v x = v y)
    (h : Tied roots e c) : v e = v c := by
  induction h with
  | rel x y h => exact hv x y h
  | refl _ => rfl
  | symm _ _ _ ih => exact ih.symm
  | trans _ _ _ _ _ ih ih' => exact ih.trans ih'

/-- What is tied to something visited is visited. -/
theorem Tied.reached_iff (h : Tied roots e c) : Reached roots e ↔ Reached roots c :=
  Iff.of_eq (h.value_eq (Reached roots) fun _ _ tie =>
    propext (iff_of_true tie.reached_left tie.reached_right))

/-- The ends of a tie are both stuck or both not. -/
theorem Ties.stuck_iff (h : Ties roots e c) : Stuck roots e ↔ Stuck roots c := by
  have tie : Tied roots e c := .rel _ _ h
  constructor
  · rintro ⟨-, hv, hl⟩
    exact ⟨h.reached_right, mt h.isScalar_iff.mpr hv,
      fun leaf hd ht => hl leaf hd (ht.trans _ _ _ (tie.symm _ _))⟩
  · rintro ⟨-, hv, hl⟩
    exact ⟨h.reached_left, mt h.isScalar_iff.mp hv,
      fun leaf hd ht => hl leaf hd (ht.trans _ _ _ tie)⟩

/-- A leaf is not stuck, as it is tied to itself. -/
theorem not_stuck_of_isDefaultable (h : e.isDefaultable = true) : ¬Stuck roots e :=
  fun hs => hs.untied e h (.refl e)

/-- Something stuck is tied to a visited arithmetic node that has a geometric operand. -/
theorem Stuck.exists_geometric (h : Stuck roots e) (he : e.IsPointwise) :
    ∃ x g, Tied roots e x ∧ Reached roots x ∧ x.IsArithmetic ∧ g ∈ x.children ∧ g.IsGeometric := by
  induction he with
  | @atom a ha =>
    cases a with
    | constant value => exact absurd (.constant value) h.vector
    | parameter name => exact absurd (.parameter name) h.vector
    | kernelNormal axis => exact absurd rfl (ha axis)
    | _ => exact absurd h (not_stuck_of_isDefaultable rfl)
  | subscript _ _ => exact absurd h (not_stuck_of_isDefaultable rfl)
  | @arithmetic e he _ ih =>
    -- a vector has a vector operand; if that one is not geometric, it is tied to the node and stuck
    -- too
    obtain ⟨c, hc, hs⟩ : ∃ c ∈ e.children, ¬c.IsScalar := by
      by_contra hn
      exact h.vector (.arithmetic he fun c hc => by_contra fun hs => hn ⟨c, hc, hs⟩)
    by_cases hg : c.IsGeometric
    · exact ⟨e, c, .refl e, h.reached, he, hc, hg⟩
    · have tie : Ties roots e c := .operand h.reached he hc hs hg
      obtain ⟨x, g, hx, rest⟩ := ih c hc (tie.stuck_iff.mp h)
      exact ⟨x, g, .trans _ _ _ (.rel _ _ tie) hx, rest⟩
  | @shared body _ label ih =>
    have tie : Ties roots (.shared body label) body := .body h.reached
    obtain ⟨x, g, hx, rest⟩ := ih (tie.stuck_iff.mp h)
    exact ⟨x, g, .trans _ _ _ (.rel _ _ tie) hx, rest⟩

/-! ## Types along ties -/

/-- All that is visited is pointwise if the roots are. -/
theorem Reached.isPointwise (h : Reached roots e) (hp : ∀ root ∈ roots, root.IsPointwise) :
    e.IsPointwise := by
  obtain ⟨c, hc, hv⟩ := h
  obtain ⟨root, hr, hc⟩ := List.mem_flatMap.mp hc
  exact ((hp root hr).of_mem_components hc).of_visited hv

section Solved

variable (hp : ∀ root ∈ roots, root.IsPointwise) (hT : Solves roots T)

include hp hT

/-- In a typing that solves pointwise roots, the visited expressions of type `.scalar` are the
scalar ones. -/
theorem isScalar_of_solves (he : Reached roots e) : T e = .scalar ↔ e.IsScalar :=
  isScalar_iff (hT.typed he) (he.isPointwise hp)

/-- A vector operand of arithmetic answers no more than the node, which says no more than the
operand. -/
theorem answer_le_of_operand (hr : Reached roots e) (he : e.IsArithmetic) (hc : c ∈ e.children)
    (hs : ¬c.IsScalar) : answer T c ≤ T e ∧ T e ≤ T c := by
  have ho := mem_demands_of_isArithmetic he hc
  have operand : Reached roots c := hr.operand ho
  have law := (hT e hr).law
  rw [law_of_isArithmetic he] at law
  refine law.2 _ (mem_readings.mpr ⟨_, ho, rfl⟩) ?_
  exact mt (hT.typed operand).answer_eq_scalar_iff.mp (mt (isScalar_of_solves hp hT operand).mp hs)

/-- A visited expression that is not geometric answers the type that the typing gives it. -/
theorem answer_of_solves (hc : Reached roots c) (hg : ¬c.IsGeometric) : answer T c = T c :=
  answer_of_isPointwise (hc.isPointwise hp) hg fun _ hx => isScalar_of_solves hp hT (hc.of_visited hx)

/-- The ends of a tie have the same type. -/
theorem Ties.type_eq (h : Ties roots e c) : T e = T c := by
  have right := h.reached_right
  cases h with
  | operand hr he hc hs hg =>
    obtain ⟨up, down⟩ := answer_le_of_operand hp hT hr he hc hs
    rw [answer_of_solves hp hT right hg] at up
    exact le_antisymm down up
  | body hr =>
    have same : T c = T _ := (hT _ hr).law _ List.mem_cons_self
    exact same.symm

/-- Expressions that are tied have the same type. -/
theorem Tied.type_eq (h : Tied roots e c) : T e = T c :=
  h.value_eq T fun _ _ tie => tie.type_eq hp hT

/-- Something stuck is known to live on the volume, in every typing that solves the roots. -/
theorem Stuck.onVolume_le (h : Stuck roots e) : .onVolume ≤ T e := by
  obtain ⟨x, g, hx, hr, harith, hg, hgeo⟩ := h.exists_geometric (h.reached.isPointwise hp)
  have operand : Reached roots g := hr.operand (mem_demands_of_isArithmetic harith hg)
  have vector : ¬g.IsScalar := by
    refine mt (isScalar_of_solves hp hT operand).mpr fun hs => ?_
    have scalar := (hT.typed operand).answer_eq_scalar_iff.mpr hs
    rw [answer_eq_of_isGeometric hgeo] at scalar
    nomatch scalar
  rw [Tied.type_eq hp hT hx, ← answer_eq_of_isGeometric (T := T) hgeo]
  exact (answer_le_of_operand hp hT hr harith hg vector).1

/-! ## The typing of what is stuck -/

open Classical in
/-- The typing in which what is stuck lives on the volume, in no representation, and all else has
the type that `T` gives. -/
noncomputable def unstuck (roots : List Expr) (T : Expr → FieldType) (e : Expr) : FieldType :=
  if Stuck roots e then .onVolume else T e

omit hp hT in
/-- At what is stuck, `unstuck roots T` is `.onVolume`. -/
theorem unstuck_of_stuck (h : Stuck roots e) : unstuck roots T e = .onVolume := if_pos h

omit hp hT in
/-- At what is not stuck, `unstuck roots T` is `T`. -/
theorem unstuck_of_not_stuck (h : ¬Stuck roots e) : unstuck roots T e = T e := if_neg h

/-- The ends of a tie have the same type in `unstuck roots T`. -/
theorem Ties.unstuck_eq (h : Ties roots e c) : unstuck roots T e = unstuck roots T c := by
  by_cases hs : Stuck roots e
  · rw [unstuck_of_stuck hs, unstuck_of_stuck (h.stuck_iff.mp hs)]
  · rw [unstuck_of_not_stuck hs, unstuck_of_not_stuck (mt h.stuck_iff.mpr hs), h.type_eq hp hT]

/-- In `unstuck roots T` as in `T`, the visited expressions of type `.scalar` are the scalar ones.
-/
theorem unstuck_isScalar_iff (he : Reached roots e) : unstuck roots T e = .scalar ↔ e.IsScalar := by
  by_cases hs : Stuck roots e
  · rw [unstuck_of_stuck hs]
    exact iff_of_false nofun hs.vector
  · rw [unstuck_of_not_stuck hs]
    exact isScalar_of_solves hp hT he

/-- In `unstuck roots T` as well, a visited expression that is not geometric answers its type. -/
theorem answer_unstuck (hc : Reached roots c) (hg : ¬c.IsGeometric) :
    answer (unstuck roots T) c = unstuck roots T c :=
  answer_of_isPointwise (hc.isPointwise hp) hg fun _ hx =>
    unstuck_isScalar_iff hp hT (hc.of_visited hx)

omit hT in
/-- What is geometric and visited from pointwise roots is a leaf that defaults complete. -/
theorem isDefaultable_of_isGeometric (hc : Reached roots c) (hg : c.IsGeometric) :
    c.isDefaultable = true := by
  obtain ⟨a, rfl, ha⟩ := (hc.isPointwise hp).isGeometric_iff.mp hg
  exact isDefaultable_of_isVolumeGeometry ha

/-- In `unstuck roots T`, an operand `c` of arithmetic `e` is scalar and answers so, or it answers
no more than the type of `e`, which is no more than the type of `c`. -/
theorem unstuck_operand (hr : Reached roots e) (he : e.IsArithmetic) (hc : c ∈ e.children) :
    (c.IsScalar ∧ answer (unstuck roots T) c = .scalar) ∨
      (answer (unstuck roots T) c ≠ .scalar
        ∧ answer (unstuck roots T) c ≤ unstuck roots T e ∧ unstuck roots T e ≤ unstuck roots T c) := by
  have operand : Reached roots c := hr.operand (mem_demands_of_isArithmetic he hc)
  -- a geometric operand keeps its type and answers `.onVolume`, which is below a stuck node as
  -- well; any other is tied to the node
  by_cases hg : c.IsGeometric
  · have leaf := isDefaultable_of_isGeometric hp operand hg
    have vector := not_isScalar_of_isDefaultable leaf
    obtain ⟨up, down⟩ := answer_le_of_operand hp hT hr he hc vector
    rw [unstuck_of_not_stuck (not_stuck_of_isDefaultable leaf), answer_eq_of_isGeometric hg]
    rw [answer_eq_of_isGeometric hg] at up
    refine .inr ⟨nofun, ?_⟩
    by_cases hs : Stuck roots e
    · rw [unstuck_of_stuck hs]
      exact ⟨le_refl _, up.trans down⟩
    · rw [unstuck_of_not_stuck hs]
      exact ⟨up, down⟩
  · have scalar := unstuck_isScalar_iff hp hT operand
    rw [answer_unstuck hp hT operand hg]
    by_cases hs : c.IsScalar
    · exact .inl ⟨hs, scalar.mpr hs⟩
    · have tie : Ties roots e c := .operand hr he hc hs hg
      rw [tie.unstuck_eq hp hT]
      exact .inr ⟨mt scalar.mp hs, le_refl _, le_refl _⟩

/-- If `T` solves pointwise roots, so does `unstuck roots T`. -/
theorem solves_unstuck : Solves roots (unstuck roots T) := by
  intro e hr
  have he := hr.isPointwise hp
  have law := (hT e hr).law
  refine ⟨fun o ho => ?_, ?_⟩
  · rw [(he.operand ho).1]
    exact unknown_le _
  · cases he with
    | @atom a ha =>
      -- leaves and scalars are not stuck, so nothing has changed
      have leaf : ¬Stuck roots (.atom a) := by
        cases a with
        | constant value => exact fun h => h.vector (.constant value)
        | parameter name => exact fun h => h.vector (.parameter name)
        | kernelNormal axis => exact absurd rfl (ha axis)
        | _ => exact not_stuck_of_isDefaultable rfl
      rw [unstuck_of_not_stuck leaf]
      exact law
    | subscript aggregate index =>
      rw [unstuck_of_not_stuck (not_stuck_of_isDefaultable rfl)]
      exact law
    | shared _ label =>
      have tie : Ties roots (.shared _ label) _ := .body hr
      intro o ho
      obtain rfl := List.mem_singleton.mp ho
      exact (tie.unstuck_eq hp hT).symm
    | arithmetic harith _ =>
      -- the two halves of the law: scalar operands make a scalar, vectors agree with the node
      rw [law_of_isArithmetic harith]
      have operand {r : Reading} (h : r ∈ e.readings (unstuck roots T)) :
          ∃ c ∈ e.children, r = ⟨unstuck roots T c, answer (unstuck roots T) c⟩ := by
        obtain ⟨o, ho, rfl⟩ := mem_readings.mp h
        rw [demands_of_isArithmetic harith] at ho
        obtain ⟨c, hc, rfl⟩ := List.mem_map.mp ho
        exact ⟨c, hc, rfl⟩
      refine ⟨fun hs => ?_, fun r h hv => ?_⟩
      · have scalar : e.IsScalar := .arithmetic harith fun c hc => by
          rcases unstuck_operand hp hT hr harith hc with ⟨h, -⟩ | ⟨hv, -⟩
          · exact h
          · have ho := mem_demands_of_isArithmetic harith hc
            exact absurd (hs _ (mem_readings.mpr ⟨_, ho, rfl⟩)) hv
        exact le_of_eq ((unstuck_isScalar_iff hp hT hr).mpr scalar).symm
      · obtain ⟨c, hc, rfl⟩ := operand h
        rcases unstuck_operand hp hT hr harith hc with ⟨-, h⟩ | ⟨-, h⟩
        · exact absurd h hv
        · exact h

end Solved

end Expr

/-! ## Failures of inference -/

namespace Inference

open OperatorTemplate.Expr (Reached Stuck)

variable {roots : List Expr} {hints : TypeHints}

/-- If the check for final types fails, it reports an entry that is not final, with its type. -/
theorem of_validate {table : TypeTable} {cause : TypeError} (h : table.validate = .error cause) :
    ∃ e t, table.lookup? e = some t ∧ t.isFinal = false ∧ cause = .incomplete e t := by
  unfold TypeTable.validate at h
  split at h
  next e t hfind =>
    have entry := List.mem_of_find?_eq_some hfind
    have final := List.find?_some hfind
    exact ⟨e, t, Table.mem_toList.mp entry, by simpa using final, (Except.error.inj h).symm⟩
  next => nomatch h

/-- Inference fails where one of its loops does, or at the check of the table that they end in. -/
theorem infer_error_cases {cause : TypeError} (h : infer roots hints = .error cause) :
    (∃ s, ((runToFixpoint roots).run.run s).1 = .error cause) ∨
      ∃ s₁ table s₂, IsFixpoint roots ⟨.ofHints hints, .empty⟩ s₁ ∧ IsDefault s₁.table table
        ∧ IsFixpoint roots { s₁ with table := table } s₂ ∧ s₂.table.validate = .error cause := by
  have valid := InferenceState.valid_empty (.ofHints hints)
  have unfolded : infer roots hints = ((run roots).run.run ⟨.ofHints hints, .empty⟩).1 := rfl
  rw [unfolded, run_eq] at h
  -- step by step: each one fails, or leads to the state in which the next one starts
  rcases of_run_bind_eq_error h with h | ⟨n, s₁, hr, h⟩
  · exact .inl ⟨_, h⟩
  have first := fixpoint_of_run valid hr
  obtain ⟨table, hd, grows, defaults⟩ := s₁.table.applyLeafDefaults_spec
  have valid₁ : InferenceState.Valid { s₁ with table := table } := first.valid.of_grows grows rfl
  rcases of_run_bind_eq_error h with h | ⟨_, _, hg, h⟩
  · nomatch h
  cases hg
  -- the defaults do not fail
  rcases of_run_bind_eq_error h with h | ⟨entry, _, hl, h⟩ <;> rw [hd] at *
  · nomatch h
  cases hl
  rcases of_run_bind_eq_error h with h | ⟨_, _, hu, h⟩
  · nomatch h
  cases hu
  rcases of_run_bind_eq_error h with h | ⟨m, s₂, hr, h⟩
  · unfold resettle at h
    split at h
    · exact .inl ⟨_, h⟩
    · nomatch h
  have second := fixpoint_of_resettle valid₁ (solves_of_defaults first defaults) hr
  rcases of_run_bind_eq_error h with h | ⟨_, _, hg, h⟩
  · nomatch h
  cases hg
  rcases of_run_bind_eq_error h with h | ⟨_, _, _, h⟩
  · refine .inr ⟨s₁, table, s₂, first, defaults, second, ?_⟩
    cases hv : s₂.table.validate with
    | ok _ =>
      rw [hv] at h
      nomatch h
    | error _ =>
      rw [hv] at h
      exact h
  · nomatch h

section Phases

variable {s₁ s₂ : InferenceState} {table : TypeTable} {e : Expr}

/-- The defaults leave the type of what they do not complete. -/
theorem IsDefault.get_of_not_isDefaultable {completed : TypeTable} (h : IsDefault table completed)
    (he : e.isDefaultable = false) : completed.get e = table.get e := by
  rw [TypeTable.get, TypeTable.get, h]
  cases table.lookup? e with
  | none => rfl
  | some t =>
    show TypeTable.defaulted e t = t
    rw [TypeTable.defaulted, if_neg (by simp [he])]

variable (hp : ∀ root ∈ roots, root.IsPointwise)
  (first : IsFixpoint roots ⟨.ofHints [], .empty⟩ s₁) (defaults : IsDefault s₁.table table)
  (second : IsFixpoint roots { s₁ with table := table } s₂)

include first defaults second

/-- Without hints, what is not visited has no entry. -/
theorem reached_of_lookup? {t : FieldType} (hl : s₂.table.lookup? e = some t) : Reached roots e := by
  by_contra he
  rw [second.lookup?_eq he, defaults, first.lookup?_eq he] at hl
  nomatch hl

/-- Visited leaves have final types after the second loop. -/
theorem isFinal_of_isDefaultable (he : Reached roots e) (hd : e.isDefaultable = true) :
    (s₂.table.get e).isFinal = true := by
  have completed : table.get e = (s₁.table.get e).completion := by
    rw [defaults.get_of_ne_unknown (first.solves.typed he).ne_unknown, TypeTable.defaulted, if_pos hd]
  have final := (s₁.table.get e).isFinal_completion
  rw [← completed] at final
  have above : table.get e ≤ s₂.table.get e := second.grows.le e
  rw [eq_of_isFinal_of_le final above]
  exact final

include hp

/-- An entry that is not final after the second loop belongs to something stuck, and is `.onVolume`.
-/
theorem stuck_of_not_isFinal {t : FieldType} (hl : s₂.table.lookup? e = some t)
    (ht : t.isFinal = false) : Stuck roots e ∧ t = .onVolume := by
  have reached := reached_of_lookup? first defaults second hl
  have type : s₂.table.get e = t := TypeTable.get_of_lookup? hl
  have stuck : Stuck roots e := by
    -- a scalar would be final, and so would be what is tied to a leaf
    refine ⟨reached, fun hs => ?_, fun leaf hd tied => ?_⟩
    · rw [(Expr.isScalar_of_solves hp second.solves reached).mpr hs] at type
      rw [← type] at ht
      nomatch ht
    · have final := isFinal_of_isDefaultable first defaults second (tied.reached_iff.mpr reached) hd
      rw [tied.type_eq hp second.solves, type, ht] at final
      nomatch final
  have volume := stuck.onVolume_le hp second.solves
  rw [type] at volume
  refine ⟨stuck, ?_⟩
  cases le_def.mp volume with
  | refl => rfl
  | volume _ => nomatch ht

end Phases

/-- Where something is stuck, inference does not succeed. -/
theorem infer_ne_ok_of_stuck (hp : ∀ root ∈ roots, root.IsPointwise) {e : Expr}
    (he : Stuck roots e) (i : Inference) : infer roots [] ≠ .ok i := by
  intro hi
  obtain ⟨s₁, table, s₂, phases, -⟩ := exists_phases hi
  have solves := Expr.solves_unstuck hp phases.second.solves
  -- the first loop, the defaults and the second loop all stay below the typing of what is stuck
  have start : ∀ x, s₁.table.get x ≤ Expr.unstuck roots s₂.table.get x :=
    phases.first.le (fun x => unknown_le _) solves
  have defaulted (x : Expr) : table.get x ≤ Expr.unstuck roots s₂.table.get x := by
    -- a leaf is not stuck, so the bound is its final type; all else has kept its type
    cases hd : x.isDefaultable with
    | true =>
      rw [Expr.unstuck_of_not_stuck (Expr.not_stuck_of_isDefaultable hd)]
      exact phases.second.grows.le x
    | false =>
      rw [phases.defaults.get_of_not_isDefaultable hd]
      exact start x
  have below : s₂.table.get e ≤ .onVolume := by
    rw [← Expr.unstuck_of_stuck (T := s₂.table.get) he]
    exact phases.second.le defaulted solves e
  have typed := phases.second.solves.typed he.reached
  have final := phases.final e _ (TypeTable.lookup?_of_get typed.ne_unknown)
  rw [← eq_of_isFinal_of_le final below] at final
  nomatch final

/-- Inference of pointwise roots without hints succeeds, or reports a conflict, or finds a stuck
expression of which it knows that it lives on the volume and no more.  It does not succeed where
something is stuck. -/
theorem infer_pointwise (hp : ∀ root ∈ roots, root.IsPointwise) :
    ((∃ i, infer roots [] = .ok i)
      ∨ (∃ known added about, infer roots [] = .error (.conflict known added about))
      ∨ ∃ e, Stuck roots e ∧ infer roots [] = .error (.incomplete e .onVolume))
    ∧ ∀ e, Stuck roots e → ∀ i, infer roots [] ≠ .ok i := by
  refine ⟨?_, fun e he i => infer_ne_ok_of_stuck hp he i⟩
  cases hi : infer roots [] with
  | ok i => exact .inl ⟨i, rfl⟩
  | error cause =>
    refine .inr ?_
    rcases infer_error_cases hi with ⟨s, h⟩ | ⟨s₁, table, s₂, first, defaults, second, h⟩
    · rcases raises_runToFixpoint hp s cause h with ⟨known, added, about, rfl⟩ | rfl
      · exact .inl ⟨known, added, about, rfl⟩
      · exact absurd hi (infer_ne_unsettled roots [])
    · obtain ⟨e, t, hl, ht, rfl⟩ := of_validate h
      obtain ⟨stuck, rfl⟩ := stuck_of_not_isFinal hp first defaults second hl ht
      exact .inr ⟨e, stuck, rfl⟩

/-- Twice the Jacobian determinant is stuck: its operands are a scalar and a geometric datum. -/
theorem infer_pointwise_product :
    let two : Expr := .atom (.constant (.int 2))
    let jacobian : Expr := .atom (.jacobian none)
    let twice : Expr := .product [two, jacobian]
    (∀ root ∈ [twice], root.IsPointwise) ∧ Stuck [twice] twice
      ∧ ∀ i, infer [twice] [] ≠ .ok i := by
  intro two jacobian twice
  have scalar : two.IsScalar := .constant (.int 2)
  have geometric : jacobian.IsGeometric := .atom (.jacobian none)
  have leaf : ¬jacobian.IsScalar := Expr.not_isScalar_of_isDefaultable rfl
  have pointwise : twice.IsPointwise := .arithmetic (.product _) fun c hc => by
    rcases List.mem_pair.mp hc with rfl | rfl <;> exact .atom nofun
  -- three expressions are visited, and no two of them are tied
  have reached {x : Expr} (hx : Reached [twice] x) : x = twice ∨ x = two ∨ x = jacobian := by
    obtain ⟨root, hr, hx⟩ := hx
    obtain rfl := List.mem_singleton.mp hr
    cases hx with
    | self => exact .inl rfl
    | operand ho hx =>
      rcases List.mem_pair.mp ho with rfl | rfl
      · cases hx with
        | self => exact .inr (.inl rfl)
        | operand ho _ => nomatch ho
      · cases hx with
        | self => exact .inr (.inr rfl)
        | operand ho _ => nomatch ho
  have untied (x c : Expr) : ¬Expr.Ties [twice] x c := by
    rintro (⟨hr, he, hc, hs, hg⟩ | ⟨hr⟩)
    · rcases reached hr with rfl | rfl | rfl
      · rcases List.mem_pair.mp hc with rfl | rfl
        · exact hs scalar
        · exact hg geometric
      · nomatch hc
      · nomatch hc
    · rcases reached hr with h | h | h <;> nomatch h
  have alone {x c : Expr} (h : Expr.Tied [twice] x c) : x = c :=
    h.value_eq id fun x c tie => absurd tie (untied x c)
  have stuck : Stuck [twice] twice := by
    refine ⟨.of_component List.mem_cons_self, fun hs => ?_, fun x hd hx => ?_⟩
    · exact leaf (hs.of_isArithmetic (.product _) jacobian (.tail _ List.mem_cons_self))
    · rw [alone hx] at hd
      nomatch hd
  have all : ∀ root ∈ [twice], root.IsPointwise := List.forall_mem_singleton.mpr pointwise
  exact ⟨all, stuck, (infer_pointwise all).2 twice stuck⟩

/-- The default of the Jacobian determinant does not reach twice the determinant, of which inference
knows the domain alone; the default of a field of ones does. -/
theorem not_infer_complete :
    let two : Expr := .atom (.constant (.int 2))
    let jacobian : Expr := .atom (.jacobian none)
    let ones : Expr := .atom (.ones none)
    (∀ root ∈ [Expr.product [two, jacobian]], root.IsPointwise)
      ∧ infer [.product [two, jacobian]] []
          = .error (.incomplete (.product [two, jacobian]) .onVolume)
      ∧ (infer [.product [two, ones]] []).isOk = true := by
  intro two jacobian ones
  refine ⟨List.forall_mem_singleton.mpr (.arithmetic (.product _) fun c hc => ?_), ?_, ?_⟩
  · rcases List.mem_pair.mp hc with rfl | rfl <;> exact .atom nofun
  · have failed : (infer [.product [two, jacobian]] []).map (fun _ => ())
        = .error (.incomplete (.product [two, jacobian]) .onVolume) := by decide +kernel
    cases hi : infer [.product [two, jacobian]] [] with
    | ok _ =>
      rw [hi] at failed
      nomatch failed
    | error _ =>
      rw [hi] at failed
      exact congrArg _ (Except.error.inj failed)
  · decide +kernel

end Inference

end OperatorTemplate
