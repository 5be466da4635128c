import OperatorTemplate.Proofs.Expr.Parts
import OperatorTemplate.Proofs.Inference.Loop
/-!
# Visits are tame

The visit of every part of a template is tame, with a memory of common subexpressions (`tame_visit`)
and without one (`tame_plainVisit`).

All nodes but common subexpressions are settled by their rules.  To infer one node in two ways is to
apply one rule to operands that are related; so a relation of actions that every kind of rule
respects (`RulesRelate`) holds of the two inferences of the node (`RulesRelate.inferStep`), where the
kinds of nodes are told apart once for all such relations.

A common subexpression is looked up or renewed:

* a result that is up to date is what the plain rule gives, so nothing happens
  (`quiet_plain_of_upToDate`);
* a renewed result is right when it is remembered, since the loop over the body has just ended
  (`regularRun_renew`), and the visit writes it down, after which it is up to date
  (`upToDate_of_visit`).

The second point is the crux.  What the memory has to say of a new entry is that something is known
of the body and that a plain visit of the body changes nothing; and that is how a loop over the body
ends.  The induction is on the size of the node, for the visit and for its plain twin at once: the
twin of a visit is a plain visit, whose tameness must be known before.
-/

namespace OperatorTemplate

open Infer

variable {ps : List Expr}

/-! ## Operands of a node -/

section Node

variable {R : Operand → Operand → Prop}

/-- Operands made of the members of one list, in two ways, are related one by one. -/
theorem forall₂_attach_map {xs : List Expr} {f g : { x // x ∈ xs } → Operand}
    (h : ∀ x, R (f x) (g x)) : List.Forall₂ R (xs.attach.map f) (xs.attach.map g) := by
  rw [List.forall₂_map_left_iff, List.forall₂_map_right_iff]
  exact List.forall₂_same.mpr fun x _ => h x

/-- Inputs of a flux made of the members of one list, in two ways, are related one by one. -/
theorem forall₂_attach_flatMap {xs : List Expr} {f g : { x // x ∈ xs } → List Rule.FluxInput}
    (h : ∀ x, List.Forall₂ (Rule.FluxInput.Over R) (f x) (g x)) :
    List.Forall₂ (Rule.FluxInput.Over R) (xs.attach.flatMap f) (xs.attach.flatMap g) := by
  induction xs.attach with
  | nil => exact .nil
  | cons x _ ih =>
    rw [List.flatMap_cons, List.flatMap_cons]
    exact List.rel_append (h x) ih

variable {e : Expr} {infer infer' : Expr.Descent (Infer FieldType) e}

/-- The same parts of `e`, inferred in two ways. -/
abbrev RelatedParts (R : Operand → Operand → Prop) (infer infer' : Expr.Descent (Infer FieldType) e) :
    Prop :=
  ∀ x hx, Expr.PartOf x e → R ⟨x, infer x hx⟩ ⟨x, infer' x hx⟩

/-- The children of `e` as operands, inferred in two ways. -/
theorem related_childOperands (h : RelatedParts R infer infer') :
    List.Forall₂ R (childOperands infer) (childOperands infer') :=
  forall₂_attach_map fun c => h c.1 _ (.of_child c.2)

/-- The components of a part `x` of `e` as inputs of a flux, inferred in two ways. -/
theorem related_componentInputs (h : RelatedParts R infer infer') (domain : FieldType) (x : Expr)
    (hx : x.size < e.size) (hp : Expr.PartOf x e) :
    List.Forall₂ (Rule.FluxInput.Over R) (componentInputs infer domain x hx)
      (componentInputs infer' domain x hx) := by
  unfold componentInputs componentOperands
  rw [List.forall₂_map_left_iff, List.forall₂_map_right_iff]
  refine List.Forall₂.imp (fun _ _ ht => Rule.FluxInput.Over.field domain ht)
    (forall₂_attach_map fun c => h c.1 _ ((Expr.PartOf.of_mem_components c.2).trans hp))

/-- The inputs that a flux reads of a pair, inferred in two ways. -/
theorem related_pairInputs (h : RelatedParts R infer infer') : (x : Expr) →
    (hx : x.size < e.size) → Expr.PartOf x e →
    List.Forall₂ (Rule.FluxInput.Over R) (pairInputs infer x hx) (pairInputs infer' x hx)
  | .pair interior boundary _, _, hp =>
    List.rel_append
      (related_componentInputs h _ interior _
        ((Expr.PartOf.of_child List.mem_cons_self).trans hp))
      (related_componentInputs h _ boundary _
        ((Expr.PartOf.of_child (List.mem_cons_of_mem _ List.mem_cons_self)).trans hp))
  | .atom _, _, _ | .subscript _ _, _, _ | .sum _, _, _ | .product _, _, _ | .quotient _ _, _, _
  | .power _ _, _, _ | .conditional _ _ _, _, _ | .ifPositive _ _ _, _, _
  | .comparison _ _ _, _, _ | .call _ _, _, _ | .shared _ _, _, _ | .apply _ _, _, _
  | .array _, _, _ | .exchange _ _ _, _, _ | .domainFlux _ _, _, _ => .cons (.stray _) .nil

/-- The inputs that a flux reads of a field, be it a pair or not, inferred in two ways. -/
theorem related_fluxInputs (h : RelatedParts R infer infer') : (x : Expr) →
    (hx : x.size < e.size) → Expr.PartOf x e →
    List.Forall₂ (Rule.FluxInput.Over R) (fluxInputs infer x hx) (fluxInputs infer' x hx)
  | .pair interior boundary tag, hx, hp => related_pairInputs h (.pair interior boundary tag) hx hp
  | .atom _, _, hp | .subscript _ _, _, hp | .sum _, _, hp | .product _, _, hp
  | .quotient _ _, _, hp | .power _ _, _, hp | .conditional _ _ _, _, hp
  | .ifPositive _ _ _, _, hp | .comparison _ _ _, _, hp | .call _ _, _, hp | .shared _ _, _, hp
  | .apply _ _, _, hp | .array _, _, hp | .exchange _ _ _, _, hp | .domainFlux _ _, _, hp =>
    related_componentInputs h _ _ _ hp

/-- The inputs of a flux over a whole domain, inferred in two ways. -/
theorem related_domainInputs {interiors boundaries : List Expr}
    {infer infer' : Expr.Descent (Infer FieldType) (.domainFlux interiors boundaries)}
    (h : RelatedParts R infer infer') :
    List.Forall₂ (Rule.FluxInput.Over R)
      (interiors.attach.flatMap (fun x =>
          componentInputs infer .onInteriorFaces x.1
            (Expr.size_lt_of_mem_children (List.mem_append_left _ x.2)))
        ++ boundaries.attach.flatMap (fun x =>
          pairInputs infer x.1 (Expr.size_lt_of_mem_children (List.mem_append_right _ x.2))))
      (interiors.attach.flatMap (fun x =>
          componentInputs infer' .onInteriorFaces x.1
            (Expr.size_lt_of_mem_children (List.mem_append_left _ x.2)))
        ++ boundaries.attach.flatMap (fun x =>
          pairInputs infer' x.1 (Expr.size_lt_of_mem_children (List.mem_append_right _ x.2)))) :=
  List.rel_append
    (forall₂_attach_flatMap fun x =>
      related_componentInputs h _ x.1 _ (.of_child (List.mem_append_left _ x.2)))
    (forall₂_attach_flatMap fun x =>
      related_pairInputs h x.1 _ (.of_child (List.mem_append_right _ x.2)))

end Node

/-- A common subexpression. -/
def Expr.isShared : Expr → Bool
  | .shared _ _ => true
  | _ => false

/-- The application of an operator that is not a flux has one rule. -/
theorem inferStep_apply {shared : SharedRule} {op : Operator} (hop : ∀ f, op ≠ .flux f)
    {field : Expr} (infer : Expr.Descent (Infer FieldType) (.apply op field)) :
    inferStep shared (.apply op field) infer
      = Rule.application op (.apply op field)
          ⟨field, infer field (Expr.size_lt_of_mem_children List.mem_cons_self)⟩ := by
  cases op with
  | flux f => exact absurd rfl (hop f)
  | _ => rfl

/-- The actions that `Q` relates include what each kind of rule makes of operands that `R` relates. -/
structure RulesRelate (R : Operand → Operand → Prop) (Q : Infer FieldType → Infer FieldType → Prop) :
    Prop where
  atom (a : Atom) : Q (Rule.atom a) (Rule.atom a)
  subscript (e : Expr) :
    Q (unifyKnown (.represented .nodal) e) (unifyKnown (.represented .nodal) e)
  arithmetic (e : Expr) {os os' : List Operand} (h : List.Forall₂ R os os') :
    Q (Rule.arithmetic e os) (Rule.arithmetic e os')
  application (op : Operator) (e : Expr) {o o' : Operand} (h : R o o') :
    Q (Rule.application op e o) (Rule.application op e o')
  flux {inputs inputs' : List Rule.FluxInput}
    (h : List.Forall₂ (Rule.FluxInput.Over R) inputs inputs') :
    Q (Rule.flux inputs) (Rule.flux inputs')
  exchange (rank : Nat) {os os' : List Operand} (h : List.Forall₂ R os os') :
    Q (Rule.exchange rank os) (Rule.exchange rank os')
  unsupported (e : Expr) :
    Q (throw (.unsupportedExpression e)) (throw (.unsupportedExpression e))

/-- If the rules respect `R` and `Q`, then `Q` relates the inference of a node over parts that `R`
relates, unless the node is a common subexpression, whose rule is free. -/
theorem RulesRelate.inferStep {R : Operand → Operand → Prop}
    {Q : Infer FieldType → Infer FieldType → Prop} (rules : RulesRelate R Q) {e : Expr}
    (he : e.isShared = false) (shared shared' : SharedRule)
    {infer infer' : Expr.Descent (Infer FieldType) e} (h : RelatedParts R infer infer') :
    Q (inferStep shared e infer) (inferStep shared' e infer') := by
  cases e with
  | atom a => exact rules.atom a
  | subscript _ _ => exact rules.subscript _
  | sum _ | product _ | quotient _ _ | power _ _ | conditional _ _ _ | ifPositive _ _ _
  | comparison _ _ _ | call _ _ => exact rules.arithmetic _ (related_childOperands h)
  | shared _ _ => nomatch he
  | apply op field =>
    have hp : Expr.PartOf field (.apply op field) := .of_child List.mem_cons_self
    -- a flux reads the inputs of its field, any other operator the field itself
    by_cases hop : ∃ f, op = .flux f
    · obtain ⟨f, rfl⟩ := hop
      exact rules.flux (related_fluxInputs h field _ hp)
    · have hop (f : Flux) : op ≠ .flux f := fun hf => hop ⟨f, hf⟩
      rw [inferStep_apply hop, inferStep_apply hop]
      exact rules.application _ _ (h field _ hp)
  | pair _ _ _ | array _ => exact rules.unsupported _
  | exchange _ rank _ => exact rules.exchange rank (related_childOperands h)
  | domainFlux _ _ => exact rules.flux (related_domainInputs h)

/-- The rules are tame over operands with tame visits. -/
theorem rulesRelate_tame : RulesRelate (Operand.Twin ps) (Tame ps (· ≠ .unknown)) where
  atom := Rule.tame_atom
  subscript := Rule.tame_unifyKnown nofun
  arithmetic := Rule.tame_arithmetic
  application := Rule.tame_application
  flux := Rule.tame_flux
  exchange := Rule.tame_exchange
  unsupported _ := Tame.throw nofun

/-! ## Common subexpressions -/

/-- The visit of a node is tame if the inference of the node is: it writes down the answer. -/
theorem tame_visit_of_infer {o o' : Operand} (he : o'.expr = o.expr) (hm : o.expr ∈ ps)
    (h : Tame ps (· ≠ .unknown) o.infer o'.infer) : Tame ps (· ≠ .unknown) o.visit o'.visit := by
  unfold Operand.visit
  rw [he]
  exact Tame.bind h fun t ht => Tame.drop (Tame.write hm t) (Tame.pure ht)

/-- After a visit that answers a known type, the type of the operand is known. -/
theorem get_ne_unknown_of_visit {o : Operand} {t : FieldType} {s s' : InferenceState}
    (h : o.visit.run.run s = (.ok t, s')) (ht : t ≠ .unknown) :
    s'.table.get o.expr ≠ .unknown := by
  obtain ⟨t', s₁, -, h⟩ := run_bind_eq_ok.mp h
  obtain ⟨⟨⟩, s₂, hw, h⟩ := run_bind_eq_ok.mp h
  obtain ⟨rfl, rfl⟩ := run_pure_eq_ok.mp h
  exact fun hu => ht (FieldType.eq_unknown_of_le (hu ▸ (written_of_run hw).1.joins.right))

/-- A visit, after which it is asked what is known of the operand. -/
theorem tame_visit_known {o o' : Operand} (h : o.Twin ps o') :
    Tame ps (· ≠ .unknown) (do let _ ← o.visit; known o.expr) (do let _ ← o'.visit; known o.expr) := by
  have tame := Tame.drop h.visit (Tame.known o.expr)
  refine ⟨fun s hs => { tame.regular s hs with returns := fun t ht => ?_ }, tame.repeatable⟩
  have visited := h.visit.regular s hs
  rcases run_bind_cases o.visit (fun _ => known o.expr) s with
    ⟨cause, s', hr, hrun⟩ | ⟨u, s', hr, hrun⟩ <;> rw [hrun] at ht
  · nomatch ht
  · rw [hr] at visited
    cases ht
    exact get_ne_unknown_of_visit hr (visited.returns u rfl)

/-- The plain rule of a common subexpression is tame over a body with a tame visit. -/
theorem tame_plain {e : Expr} {body body' : Operand} (h : body.Twin ps body') :
    Tame ps (· ≠ .unknown) (plain e body) (plain e body') := by
  unfold plain
  rw [h.expr]
  exact Tame.bind (Tame.known e) fun t _ => Tame.drop (Tame.write h.mem t) (tame_visit_known h)

/-- What is remembered of `e` is up to date. -/
def UpToDate (s : InferenceState) (e : Expr) : Prop :=
  ∃ last, s.memory.get? e = some last ∧ last.type = s.table.get e ∧ last.writes = s.table.writes

/-- What is remembered of `e` and up to date is found. -/
theorem run_remembered {s : InferenceState} {e : Expr} (h : UpToDate s e) :
    (remembered? e).run.run s = (.ok (some (s.table.get e)), s) := by
  obtain ⟨last, hm, ht, hw⟩ := h
  unfold remembered?
  rw [run_get_bind, hm]
  show (if last.type = s.table.get e ∧ last.writes = s.table.writes then
    (return some last.type) else return none : Infer (Option FieldType)).run.run s = _
  rw [if_pos ⟨ht, hw⟩, ht]
  rfl

/-- What is out of date is not found, nor what was never remembered. -/
theorem run_remembered_of_not {s : InferenceState} {e : Expr} (h : ¬UpToDate s e) :
    (remembered? e).run.run s = (.ok none, s) := by
  unfold remembered?
  rw [run_get_bind]
  cases hm : s.memory.get? e with
  | none => rfl
  | some last =>
    show (if last.type = s.table.get e ∧ last.writes = s.table.writes then
      (return some last.type) else return none : Infer (Option FieldType)).run.run s = _
    rw [if_neg fun hc => h ⟨last, hm, hc.1, hc.2⟩]
    rfl

/-- A common subexpression whose result is up to date is answered from memory. -/
theorem run_settle_of_upToDate {s : InferenceState} {e : Expr} (limit : Nat) (body : Operand)
    (h : UpToDate s e) : (settle limit e body).run.run s = (.ok (s.table.get e), s) :=
  run_bind_eq_ok.mpr ⟨_, s, run_remembered h, rfl⟩

/-- A common subexpression whose result is out of date is renewed. -/
theorem run_settle_of_not {s : InferenceState} {e : Expr} (limit : Nat) (body : Operand)
    (h : ¬UpToDate s e) :
    (settle limit e body).run.run s = (renew limit e body).run.run s := by
  unfold settle
  rcases run_bind_cases (remembered? e) _ s with ⟨cause, s', hr, -⟩ | ⟨a, s', hr, hrun⟩
  · rw [run_remembered_of_not h] at hr
    cases hr
  · rw [run_remembered_of_not h] at hr
    cases hr
    exact hrun

/-- What is up to date in a state is up to date in every state that covers it. -/
theorem UpToDate.of_covers {s s₂ : InferenceState} {e : Expr} (h : UpToDate s e)
    (hs : s₂.Covers s) : UpToDate s₂ e := by
  obtain ⟨last, hm, ht, hw⟩ := h
  exact ⟨last, hs.memory e last hm ht hw, ht.trans (TypeTable.get_congr hs.types e).symm,
    hw.trans hs.writes.symm⟩

/-- The state after the result of the common subexpression `e` of `body` was renewed: the flag is
raised, and what is known of `body` is remembered for `e`, with the number of writes so far. -/
def InferenceState.renewed (s : InferenceState) (e body : Expr) : InferenceState :=
  ⟨s.table.disturb, s.memory.insert e ⟨s.table.get body, s.table.writes⟩⟩

/-- Renewing a result loses no information: it raises the flag and changes the memory alone. -/
theorem InferenceState.grows_renewed (s : InferenceState) (e body : Expr) :
    s.Grows (s.renewed e body) :=
  TypeTable.grows_of_types_eq rfl rfl

/-- A memory stays valid when the result for `body` is remembered, if something is known of `body` and
a plain visit of `body` changes nothing: this is what is asked of the new entry, and the entries of
other common subexpressions are the old ones. -/
theorem InferenceState.Valid.renewed {s : InferenceState} (h : s.Valid) {body : Expr}
    (label : Option String) (known : s.table.get body ≠ .unknown)
    (quiet : Quiet (do let _ ← plainVisit body) s.table ()) :
    (s.renewed (.shared body label) body).Valid where
  known b l last hm := by
    rcases Table.get?_insert_cases hm with ⟨hx, rfl⟩ | ⟨-, hm⟩
    · exact known
    · exact h.known b l last hm
  past b l last hm := by
    rcases Table.get?_insert_cases hm with ⟨hx, rfl⟩ | ⟨-, hm⟩
    · exact Nat.le_refl _
    · exact h.past b l last hm
  current b l last hm hw := by
    rcases Table.get?_insert_cases hm with ⟨hx, rfl⟩ | ⟨-, hm⟩
    · cases hx
      exact ⟨rfl, quiet⟩
    · exact h.current b l last hm hw

/-- The renewed state of `s₂` remembers what is up to date in `s`, if `s₂` does: the entry that is
replaced was not up to date in `s`. -/
theorem InferenceState.Covers.renewed {s s₂ : InferenceState} {e : Expr} (h : s₂.Covers s)
    (hold : ¬UpToDate s e) (body : Expr) : (s₂.renewed e body).Covers s where
  types := h.types
  writes := h.writes
  memory x last hm ht hw := by
    have hx : x ≠ e := fun hx => hold (hx ▸ ⟨last, hm, ht, hw⟩)
    exact (Table.get?_insert_of_ne _ hx _).trans (h.memory x last hm ht hw)

section Shared

variable {body : Expr} {label : Option String} {o : Operand} {limit : Nat}

/-- From a state where `e` is not up to date, `renew` writes down for the body what is known of `e`,
runs the loop, and remembers what is known of the body then.  So it fails with the write, or after the
write with the loop, or it answers with the type of the body in the state `s₂` in which the loop
ends. -/
theorem run_renew (e : Expr) (o : Operand) (limit : Nat) (s : InferenceState) :
    (∃ cause, s.table.set o.expr (s.table.get e) = .error cause
        ∧ (renew limit e o).run.run s = (.error cause, s))
      ∨ ∃ table, TypeTable.Written o.expr (s.table.get e) s.table table
        ∧ ((∃ cause s₂, (repeatUntilSettled (do let _ ← o.visit) limit).run.run
                { s with table := table } = (.error cause, s₂)
              ∧ (renew limit e o).run.run s = (.error cause, s₂))
            ∨ ∃ n s₂, (repeatUntilSettled (do let _ ← o.visit) limit).run.run
                { s with table := table } = (.ok n, s₂)
              ∧ (renew limit e o).run.run s
                = (.ok (s₂.table.get o.expr), s₂.renewed e o.expr)) := by
  have unfolded : (renew limit e o).run.run s
      = (write o.expr (s.table.get e) >>= fun _ =>
          repeatUntilSettled (do let _ ← o.visit) limit >>= fun _ =>
            known o.expr >>= fun t =>
              (modify fun s =>
                  { table := s.table.disturb, memory := s.memory.insert e ⟨t, s.table.writes⟩ }
                : Infer PUnit) >>= fun _ => pure t).run.run s := rfl
  rw [unfolded]
  cases hset : s.table.set o.expr (s.table.get e) with
  | error cause =>
    refine .inl ⟨cause, rfl, ?_⟩
    rcases run_bind_cases (write o.expr (s.table.get e)) _ s with
      ⟨cause', s', hr, h⟩ | ⟨a, s', hr, h⟩ <;> rw [run_write_of_error hset] at hr <;> cases hr
    exact h
  | ok table =>
    refine .inr ⟨table, TypeTable.set_spec hset, ?_⟩
    rcases run_bind_cases (write o.expr (s.table.get e)) _ s with
      ⟨cause', s', hr, h⟩ | ⟨a, s', hr, h⟩ <;> rw [run_write_of_ok hset] at hr <;> cases hr
    rcases run_bind_cases (repeatUntilSettled (do let _ ← o.visit) limit) _
      { s with table := table } with ⟨cause, s₂, hr₂, h₂⟩ | ⟨n, s₂, hr₂, h₂⟩
    · exact .inl ⟨cause, s₂, hr₂, h.trans h₂⟩
    · exact .inr ⟨n, s₂, hr₂, h.trans h₂⟩

/-- The pass of the loop over a body is tame. -/
theorem tame_bodyPass {o' : Operand} (h : o.Twin ps o') :
    Tame ps (fun _ => True) (do let _ ← o.visit) (do let _ ← o'.visit) :=
  Tame.drop h.visit (Tame.pure trivial)

/-- A result that is up to date is what the plain rule gives. -/
theorem quiet_plain_of_upToDate {s : InferenceState} (hs : s.Valid)
    (h : UpToDate s (.shared body label)) :
    s.table.get (.shared body label) ≠ .unknown
      ∧ Quiet (plain (.shared body label) ⟨body, inferWith plain body⟩) s.table
          (s.table.get (.shared body label)) := by
  obtain ⟨last, hm, ht, hw⟩ := h
  obtain ⟨hb, hq⟩ := hs.current body label last hm hw
  have same : s.table.get body = s.table.get (.shared body label) := hb.trans ht
  refine ⟨ht ▸ hs.known body label last hm, ?_⟩
  have final : Quiet (known body) s.table (s.table.get body) := Quiet.known body
  rw [same] at final
  exact (Quiet.known _).bind ((Quiet.write (le_of_eq same.symm)).bind (hq.drop final))

/-- Where a plain visit of `body` changes nothing, something is known of `body`: the visit has written
down the type that it answers, and it answers no unknown type. -/
theorem known_of_quiet {s : InferenceState} (hs : s.Valid)
    (hplain : Tame ps (· ≠ .unknown) (plainVisit body) (plainVisit body))
    (quiet : Quiet (do let _ ← plainVisit body) s.table ()) : s.table.get body ≠ .unknown := by
  obtain ⟨t, s', hv, h⟩ := run_bind_eq_ok.mp (quiet s rfl)
  obtain ⟨-, rfl⟩ := run_pure_eq_ok.mp h
  have visited := hplain.regular s hs
  rw [hv] at visited
  exact get_ne_unknown_of_visit hv (visited.returns t rfl)

/-- A loop that starts after a write and ends with as many writes as there were before it remembers
what was up to date before the write: neither the write nor the loop has added anything. -/
theorem LoopRun.covers_of_written {twin : Infer Unit} {s s₂ : InferenceState} {x : Expr}
    {t : FieldType} {table : TypeTable} {result : Except TypeError Nat}
    (written : TypeTable.Written x t s.table table)
    (loop : LoopRun ps twin { s with table := table } (result, s₂))
    (hw : s₂.table.writes = s.table.writes) : s₂.Covers s := by
  have hw₁ : s.table.writes ≤ table.writes := written.grows.writes
  have hw₂ : table.writes ≤ s₂.table.writes := loop.grows.writes
  have covers := loop.covers (show s₂.table.writes = table.writes by omega)
  rwa [show table = s.table from written.eq_of_writes (by omega)] at covers

/-- Renewing the result of a common subexpression is regular.  A failed write leaves the state as it
is; a failed loop leaves what the loop has added; and after a loop that ends, the plain visit of the
body is quiet, which is what the new entry of the memory has to say. -/
theorem regularRun_renew (h : o.Twin ps ⟨body, inferWith plain body⟩)
    (hplain : Tame ps (· ≠ .unknown) (plainVisit body) (plainVisit body))
    (hl : 2 * ps.length + 2 ≤ limit) {s : InferenceState} (hs : s.Valid)
    (hold : ¬UpToDate s (.shared body label)) (twin : Infer FieldType) :
    RegularRun ps (· ≠ .unknown) twin s ((renew limit (.shared body label) o).run.run s) := by
  have hexpr : body = o.expr := h.expr
  rcases run_renew (.shared body label) o limit s with
    ⟨cause, hset, hrun⟩ | ⟨table, written, hrun⟩
  · -- the write fails
    rw [hrun]
    refine Regular.run_self hs (fun h => ?_) nofun nofun
    cases h
    exact TypeTable.set_ne_unsettled hset
  · have grows₁ : s.Grows { s with table := table } := written.grows
    have valid₁ := hs.of_grows grows₁ rfl
    have bounded₁ := written.writes_add_room_le h.mem
    have loop := loopRun_repeat (tame_bodyPass h) limit { s with table := table } valid₁
    have settles := settles_repeat (tame_bodyPass h) limit { s with table := table } valid₁
      (.inl (by have := table.room_le ps; dsimp only; omega))
    rcases hrun with ⟨cause, s₂, hr, hrun⟩ | ⟨n, s₂, hr, hrun⟩ <;> rw [hr] at loop settles <;>
      rw [hrun]
    · -- the loop fails
      exact {
        grows := grows₁.trans loop.grows
        valid := loop.valid
        bounded := Nat.le_trans loop.bounded bounded₁
        covers := loop.covers_of_written written
        settles := fun h => settles (congrArg Except.error (Except.error.inj h))
        returns := nofun
        quiet := nofun }
    · -- the loop ends, and its result is remembered
      obtain ⟨-, quiet⟩ := loop.quiet n rfl
      have known : s₂.table.get body ≠ .unknown := known_of_quiet loop.valid hplain quiet
      rw [← hexpr]
      exact {
        grows := (grows₁.trans loop.grows).trans (s₂.grows_renewed _ body)
        valid := loop.valid.renewed label known quiet
        bounded := Nat.le_trans loop.bounded bounded₁
        covers := fun hw => (loop.covers_of_written written hw).renewed hold body
        settles := nofun
        returns := fun t ht => by cases ht; exact known
        quiet := fun _ _ hc => nomatch hc }

/-- The rule of a common subexpression is regular beside its plain twin. -/
theorem regular_settle (h : o.Twin ps ⟨body, inferWith plain body⟩)
    (hplain : Tame ps (· ≠ .unknown) (plainVisit body) (plainVisit body))
    (hl : 2 * ps.length + 2 ≤ limit) :
    Regular ps (· ≠ .unknown) (settle limit (.shared body label) o)
      (plain (.shared body label) ⟨body, inferWith plain body⟩) := by
  intro s hs
  by_cases hold : UpToDate s (.shared body label)
  · obtain ⟨known, quiet⟩ := quiet_plain_of_upToDate hs hold
    rw [run_settle_of_upToDate limit o hold]
    exact Regular.run_self hs nofun (fun t ht => by cases ht; exact known)
      fun t ht => by cases ht; exact quiet
  · rw [run_settle_of_not limit o hold]
    exact regularRun_renew h hplain hl hs hold _

/-- After a visit that has written nothing, the result of a common subexpression is up to date. -/
theorem upToDate_of_visit (h : o.Twin ps ⟨body, inferWith plain body⟩)
    (hplain : Tame ps (· ≠ .unknown) (plainVisit body) (plainVisit body))
    (hl : 2 * ps.length + 2 ≤ limit) {s s' : InferenceState} (hs : s.Valid) {t : FieldType}
    (hr : (Operand.visit ⟨.shared body label, settle limit (.shared body label) o⟩).run.run s
      = (.ok t, s')) (hw : s'.table.writes = s.table.writes) :
    UpToDate s' (.shared body label) ∧ t = s'.table.get (.shared body label) := by
  obtain ⟨t', s₁, hr₁, hr'⟩ := run_bind_eq_ok.mp hr
  obtain ⟨⟨⟩, s₂, hr₂, hr'⟩ := run_bind_eq_ok.mp hr'
  obtain ⟨rfl, rfl⟩ := run_pure_eq_ok.mp hr'
  have regular : Regular ps (· ≠ .unknown) (settle limit (.shared body label) o) _ :=
    regular_settle h hplain hl
  have first := regular s hs
  rw [hr₁] at first
  obtain ⟨written, memory⟩ := written_of_run hr₂
  -- neither the rule nor the write has written anything
  have hw₁ : s.table.writes ≤ s₁.table.writes := first.grows.writes
  have hw₂ : s₁.table.writes ≤ s'.table.writes := written.grows.writes
  have same : s'.table = s₁.table := written.eq_of_writes (by omega)
  have types : s₁.table.types = s.table.types :=
    first.grows.types_eq (show s₁.table.writes = s.table.writes by omega)
  by_cases hold : UpToDate s (.shared body label)
  · rw [run_settle_of_upToDate limit o hold] at hr₁
    cases hr₁
    obtain ⟨last, hm, ht, hw⟩ := hold
    rw [UpToDate, memory, same]
    exact ⟨⟨last, hm, ht, hw⟩, rfl⟩
  · rw [run_settle_of_not limit o hold] at hr₁
    rcases run_renew (.shared body label) o limit s with
      ⟨cause, -, hrun⟩ | ⟨table, writtenBody, hrun⟩
    · rw [hrun] at hr₁
      nomatch congrArg Prod.fst hr₁
    · rcases hrun with ⟨cause, s₃, -, hrun⟩ | ⟨n, s₃, hloop, hrun⟩ <;> rw [hrun] at hr₁
      · nomatch congrArg Prod.fst hr₁
      · cases hr₁
        have loop := loopRun_repeat (tame_bodyPass h) limit { s with table := table }
          (hs.of_grows writtenBody.grows rfl)
        rw [hloop] at loop
        -- what is known of the expression and of its body says the same
        have le : s₃.table.get (.shared body label) ≤ s₃.table.get o.expr :=
          calc s₃.table.get (.shared body label)
              = s.table.get (.shared body label) := TypeTable.get_congr types _
            _ ≤ table.get o.expr := writtenBody.joins.right
            _ ≤ s₃.table.get o.expr := loop.grows.le _
        have ge : s₃.table.get o.expr ≤ s'.table.get (.shared body label) := written.joins.right
        rw [same] at ge
        have eq := le_antisymm le ge
        rw [UpToDate, memory, same]
        exact ⟨⟨_, Table.get?_insert_self _ _ _, eq.symm, rfl⟩, eq.symm⟩

/-- The visit of a common subexpression is tame, if those of its body are, with a memory and
without. -/
theorem tame_visit_shared (h : o.Twin ps ⟨body, inferWith plain body⟩)
    (hplain : Tame ps (· ≠ .unknown) (plainVisit body) (plainVisit body))
    (hl : 2 * ps.length + 2 ≤ limit) (hm : Expr.shared body label ∈ ps) :
    Tame ps (· ≠ .unknown)
      (Operand.visit ⟨.shared body label, settle limit (.shared body label) o⟩)
      (Operand.visit ⟨.shared body label,
        plain (.shared body label) ⟨body, inferWith plain body⟩⟩) where
  regular := Regular.bind (regular_settle h hplain hl) fun t ht =>
    Regular.bind (Regular.write hm t) fun _ _ => Regular.pure ht
  repeatable := by
    intro s hs t s' hr hw s₂ hs₂
    obtain ⟨current, ht⟩ := upToDate_of_visit h hplain hl hs hr hw
    have same : s₂.table.get (.shared body label) = t :=
      (TypeTable.get_congr hs₂.types _).trans ht.symm
    have settled := run_settle_of_upToDate limit o (current.of_covers hs₂)
    rw [same] at settled
    exact run_bind_eq_ok.mpr ⟨t, s₂, settled,
      run_bind_eq_ok.mpr ⟨(), s₂, run_write_of_le (le_of_eq same.symm), rfl⟩⟩

end Shared

/-! ## All parts -/

/-- To infer `e` is to apply the rule of the node, with the inference of smaller parts at hand. -/
theorem inferWith_eq (shared : SharedRule) (e : Expr) :
    inferWith shared e = inferStep shared e fun x _ => inferWith shared x := by
  rw [inferWith, Expr.recurse_eq]
  rfl

/-- To infer a common subexpression is to treat it as `shared` says, given its body. -/
theorem inferWith_shared (shared : SharedRule) (body : Expr) (label : Option String) :
    inferWith shared (.shared body label)
      = shared (.shared body label) ⟨body, inferWith shared body⟩ := by
  rw [inferWith_eq]
  rfl

/-- The plain visit of every expression of a closed list `ps` is tame.  By induction on the size. -/
theorem tame_plainVisit (hps : Expr.Closed ps) (e : Expr) (he : e ∈ ps) :
    Tame ps (· ≠ .unknown) (plainVisit e) (plainVisit e) := by
  have twin (x : Expr) (_ : x.size < e.size) (hp : Expr.PartOf x e) :
      Operand.Twin ps ⟨x, inferWith plain x⟩ ⟨x, inferWith plain x⟩ :=
    ⟨rfl, hps.mem_of_partOf he hp, tame_plainVisit hps x (hps.mem_of_partOf he hp)⟩
  refine tame_visit_of_infer rfl he ?_
  show Tame ps _ (inferWith plain e) (inferWith plain e)
  by_cases hs : e.isShared = true
  · cases e with
    | shared body label =>
      rw [inferWith_shared]
      exact tame_plain (twin body (Expr.size_lt_of_mem_children List.mem_cons_self)
        (.of_child List.mem_cons_self))
    | _ => nomatch hs
  · rw [inferWith_eq]
    exact rulesRelate_tame.inferStep (by simpa using hs) _ _ twin
termination_by e.size

/-- The visit of every expression of a closed list `ps` is tame beside the plain visit, if the loops
over bodies may take two passes for each of `ps` and two more.  By induction on the size. -/
theorem tame_visit (hps : Expr.Closed ps) {limit : Nat} (hl : 2 * ps.length + 2 ≤ limit)
    (e : Expr) (he : e ∈ ps) :
    Tame ps (· ≠ .unknown) (Operand.visit ⟨e, inferWith (settle limit) e⟩) (plainVisit e) := by
  have twin (x : Expr) (_ : x.size < e.size) (hp : Expr.PartOf x e) :
      Operand.Twin ps ⟨x, inferWith (settle limit) x⟩ ⟨x, inferWith plain x⟩ :=
    ⟨rfl, hps.mem_of_partOf he hp, tame_visit hps hl x (hps.mem_of_partOf he hp)⟩
  by_cases hs : e.isShared = true
  · cases e with
    | shared body label =>
      have hb : body ∈ ps := hps _ he _ List.mem_cons_self
      unfold plainVisit
      rw [inferWith_shared, inferWith_shared]
      exact tame_visit_shared (twin body (Expr.size_lt_of_mem_children List.mem_cons_self)
        (.of_child List.mem_cons_self)) (tame_plainVisit hps body hb) hl he
    | _ => nomatch hs
  · refine tame_visit_of_infer rfl he ?_
    show Tame ps _ (inferWith (settle limit) e) (inferWith plain e)
    rw [inferWith_eq, inferWith_eq]
    exact rulesRelate_tame.inferStep (by simpa using hs) _ _ twin
termination_by e.size

/-- A pass over roots is tame if the visits of their components are. -/
theorem tame_passOver {shared shared' : SharedRule} {roots : List Expr}
    (h : ∀ e ∈ roots.flatMap Expr.components,
      Operand.Twin ps ⟨e, inferWith shared e⟩ ⟨e, inferWith shared' e⟩) :
    Tame ps (fun _ => True) (passOver shared roots) (passOver shared' roots) := by
  refine Tame.forM (R := Operand.Twin ps) ?_ fun _ _ ho => Tame.drop ho.visit (Tame.pure trivial)
  unfold rootOperands
  rw [List.forall₂_map_left_iff, List.forall₂_map_right_iff]
  exact List.forall₂_same.mpr h

end OperatorTemplate
