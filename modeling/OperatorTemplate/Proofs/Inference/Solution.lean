import Mathlib.Data.List.Chain
import OperatorTemplate.Proofs.Inference.Judgement
import OperatorTemplate.Proofs.Inference.Least
import OperatorTemplate.Proofs.Inference.Silent
/-!
# Solutions are well typed

A solution of the typing rules is a table that a plain pass leaves unchanged: a statement about
runs. Here it is turned into one about types.  A plain visit is silent on a table exactly if the
types of the table obey the rules of everything that is visited (`silent_plainVisit_iff`).  So the
solutions are the tables in which the components of the roots are well typed
(`unchanged_iff_typed`).

The work is done rule by rule.  A rule `Obeys` a table if it runs silently on it, with an answer
that is known already, exactly where the law of the node holds; for each rule this is read off its
steps (`silent_bind_iff`), given that the visits of the operands are silent where the operands are
well typed (`Judged`).  Two rules need an induction over the operands.  In arithmetic, an agreement
that starts from the type of the node stays there, since it only grows and must not say more in the
end (`of_silent_agree`, `silent_agree`).  In a flux, each input is pinned to what the one before it
answers, which makes a chain (`silent_fluxInputs_iff`).

All rules are steady (`steady_inferWith_plain`), which is what lets silent runs be taken apart.
-/

namespace OperatorTemplate

open Infer

/-! ## Rules are steady -/

namespace Steady

variable {o : Operand}

/-- A visit is steady if the inference of the operand is. -/
theorem visit (h : Steady o.infer) : Steady o.visit :=
  bind h fun _ => bind (write _ _) fun _ => pure _

/-- To write something down for an operand and visit it is steady if the visit is. -/
theorem pin (h : Steady o.visit) (t : FieldType) : Steady (o.pin t) := bind (write _ _) fun _ => h

/-- To add a type to what is known of an expression is steady. -/
theorem unifyKnown (t : FieldType) (e : Expr) : Steady (Infer.unifyKnown t e) :=
  bind (known e) fun _ => lift _

/-- The rules of atoms are steady. -/
theorem atom : (a : Atom) → Steady (Rule.atom a)
  | .constant _ | .parameter _ | .variable _ | .ones _ | .coordinate _ _ | .normal _ _ (some _)
  | .normal _ _ none => unifyKnown _ _
  | .jacobian _ | .forwardMetric _ _ | .inverseMetric _ _ => pure _
  | .kernelNormal _ => throw _

/-- To take one more operand into an agreement is steady if its visit is. -/
theorem add (h : Steady o.visit) (g : Rule.Agreement) : Steady (g.add o) := by
  unfold Rule.Agreement.add
  refine bind h fun t => ?_
  split
  · exact pure _
  · exact bind (lift _) fun _ => pure _

/-- To agree on one operand after the other is steady if their visits are. -/
theorem agree {os : List Operand} (h : ∀ o ∈ os, Steady o.visit) (g : Rule.Agreement) :
    Steady (os.foldlM Rule.Agreement.add g) :=
  foldlM (fun g o ho => add (h o ho) g) g

/-- To write an agreement down for its vectors is steady. -/
theorem conclude (g : Rule.Agreement) :
    Steady (if g.vectors.isEmpty then Pure.pure FieldType.scalar
      else do
        g.vectors.forM fun vector => Infer.write vector g.type
        return g.type) := by
  split
  · exact pure _
  · exact bind (forM fun _ _ => write _ _) fun _ => pure _

/-- The rule of arithmetic is steady over operands with steady visits. -/
theorem arithmetic {os : List Operand} (h : ∀ o ∈ os, Steady o.visit) (e : Expr) :
    Steady (Rule.arithmetic e os) :=
  bind (known e) fun _ => bind (agree h _) fun g => conclude g

/-- To pin one input of a flux is steady if its visit is. -/
theorem fluxInput {domain : FieldType} (h : Steady o.visit) (t : FieldType) :
    Steady (Rule.fluxInput t (.field domain o)) :=
  bind (lift _) fun _ => bind (pin h _) fun _ => pure _

/-- The rule of a flux is steady over steady inputs. -/
theorem flux {inputs : List Rule.FluxInput}
    (h : ∀ i ∈ inputs, ∀ t, Steady (Rule.fluxInput t i)) : Steady (Rule.flux inputs) :=
  bind (foldlM (fun t i hi => h i hi t) _) fun _ => pure _

/-- The rule of an exchange is steady over arguments with steady visits. -/
theorem exchange {os : List Operand} (h : ∀ o ∈ os, Steady o.visit) (rank : Nat) :
    Steady (Rule.exchange rank os) :=
  bind (forM fun o ho => bind (pin (h o ho) _) fun _ => pure _) fun _ => pure _

/-- The plain rule of a common subexpression is steady over a body with a steady visit. -/
theorem shared (h : Steady o.visit) (e : Expr) : Steady (plain e o) :=
  bind (known _) fun _ => bind (write _ _) fun _ => bind h fun _ => known _

/-- The rule of an operator is steady over an operand with a steady visit. -/
theorem application (h : Steady o.visit) (op : Operator) (e : Expr) :
    Steady (Rule.application op e o) := by
  cases op with
  | flux _ | exchange _ _ | external _ => exact throw _
  | elementwiseMax => exact bind (known _) fun _ => bind (lift _) fun _ => pin h _
  | restrict _ =>
    exact bind (known _) fun _ => bind (lift _) fun _ => bind (pin h _) fun _ =>
      bind (known _) fun _ => lift _
  | upsample _ =>
    exact bind (known _) fun _ => bind (pin h _) fun _ => bind (known _) fun _ => lift _
  | mass kind | referenceMass kind => cases kind <;> exact bind (pin h _) fun _ => pure _
  | _ => exact bind (pin h _) fun _ => pure _

end Steady

/-! ## Operands -/

/-- The plain operand of a demand. -/
def Expr.plainOperand (x : Expr) : Operand := ⟨x, inferWith plain x⟩

variable {table : TypeTable} {t : FieldType}

/-- The visit of `x` is steady, and silent on the table exactly if `x` is well typed. -/
structure Judged (table : TypeTable) (x : Expr) : Prop where
  steady : Steady (plainVisit x)
  silent : ∀ t, Silent (plainVisit x) table t ↔ t = x.answer table.get ∧ x.Typed table.get

/-- To write `demand` down for `x` and visit it is silent exactly if `demand` is known of `x`, and
`x` is well typed. -/
theorem Judged.silent_pin_iff {x : Expr} (h : Judged table x) {demand : FieldType} :
    Silent (x.plainOperand.pin demand) table t
      ↔ demand ≤ table.get x ∧ t = x.answer table.get ∧ x.Typed table.get := by
  refine (silent_bind_iff (Steady.write x demand) fun _ => h.steady).trans ?_
  constructor
  · rintro ⟨⟨⟩, hw, hv⟩
    exact ⟨silent_write_iff.mp hw, (h.silent t).mp hv⟩
  · rintro ⟨hw, hv⟩
    exact ⟨(), silent_write_iff.mpr hw, (h.silent t).mpr hv⟩

/-! ## Arithmetic -/

section Arithmetic

variable {xs : List Expr}

/-- To take `x` into the agreement `g` is silent exactly if `x` is well typed; then the agreement
stays as it is if `x` is scalar, and else joins the answer of `x` and lists it. -/
theorem silent_add_iff {x : Expr} (h : Judged table x) {g g' : Rule.Agreement} :
    Silent (g.add x.plainOperand) table g'
      ↔ x.Typed table.get ∧ (x.answer table.get = .scalar ∧ g' = g
        ∨ x.answer table.get ≠ .scalar ∧ ∃ type, FieldType.Joins g.type (x.answer table.get) type
          ∧ g' = ⟨type, g.vectors ++ [x]⟩) := by
  have steady (t : FieldType) : Steady (if t = .scalar then pure g
      else do
        let type ← g.type.unify t (some x)
        return (⟨type, g.vectors ++ [x]⟩ : Rule.Agreement)) := by
    split
    · exact .pure _
    · exact .bind (.lift _) fun _ => .pure _
  refine (silent_bind_iff h.steady steady).trans ?_
  constructor
  · rintro ⟨t, hv, hn⟩
    obtain ⟨rfl, typed⟩ := (h.silent t).mp hv
    refine ⟨typed, ?_⟩
    -- the operand is scalar and takes no part, or its answer is joined
    split at hn
    next hs => exact .inl ⟨hs, silent_pure_iff.mp hn⟩
    next hs =>
      obtain ⟨type, hu, hp⟩ := (silent_bind_iff (.lift _) fun _ => .pure _).mp hn
      exact .inr ⟨hs, type, silent_unify_iff.mp hu, silent_pure_iff.mp hp⟩
  · rintro ⟨typed, hs⟩
    refine ⟨_, (h.silent _).mpr ⟨rfl, typed⟩, ?_⟩
    rcases hs with ⟨hs, rfl⟩ | ⟨hs, type, joins, rfl⟩
    · rw [if_pos hs]
      exact silent_pure_iff.mpr rfl
    · rw [if_neg hs]
      exact (silent_bind_iff (.lift _) fun _ => .pure _).mpr
        ⟨type, silent_unify_iff.mpr joins, silent_pure_iff.mpr rfl⟩

/-- The operands that are not scalar. -/
def vectorsOf (table : TypeTable) (xs : List Expr) : List Expr :=
  xs.filter fun x => x.answer table.get ≠ .scalar

/-- The vectors among `xs` are those that do not answer that they are scalar. -/
theorem mem_vectorsOf {x : Expr} :
    x ∈ vectorsOf table xs ↔ x ∈ xs ∧ x.answer table.get ≠ .scalar := by
  rw [vectorsOf, List.mem_filter, decide_eq_true_iff]

/-- A scalar operand is no vector. -/
theorem vectorsOf_cons_of_scalar {x : Expr} (h : x.answer table.get = .scalar) :
    vectorsOf table (x :: xs) = vectorsOf table xs :=
  List.filter_cons_of_neg (by simpa using h)

/-- An operand that is not scalar is a vector. -/
theorem vectorsOf_cons_of_vector {x : Expr} (h : x.answer table.get ≠ .scalar) :
    vectorsOf table (x :: xs) = x :: vectorsOf table xs :=
  List.filter_cons_of_pos (by simpa using h)

/-- If the operands `xs` agree silently, from `g` to `g'`, then all are well typed, `g'` says more
than `g` and than each vector answers, and lists the vectors besides.  By induction on the list. -/
theorem of_silent_agree (h : ∀ x ∈ xs, Judged table x) {g g' : Rule.Agreement}
    (hr : Silent ((xs.map Expr.plainOperand).foldlM Rule.Agreement.add g) table g') :
    (∀ x ∈ xs, x.Typed table.get) ∧ g.type ≤ g'.type
      ∧ (∀ x ∈ vectorsOf table xs, x.answer table.get ≤ g'.type)
      ∧ g'.vectors = g.vectors ++ vectorsOf table xs := by
  induction xs generalizing g with
  | nil =>
    obtain rfl := silent_pure_iff.mp hr
    exact ⟨nofun, le_refl _, nofun, (List.append_nil _).symm⟩
  | cons x xs ih =>
    have tail (y : Expr) (hy : y ∈ xs) := h y (List.mem_cons_of_mem x hy)
    rw [List.map_cons, List.foldlM_cons] at hr
    obtain ⟨g₁, hr₁, hr⟩ := (silent_bind_iff (.add (h x List.mem_cons_self).steady g) fun g =>
      .agree (List.forall_mem_map.mpr fun y hy => (tail y hy).steady) g).mp hr
    obtain ⟨typed, hg⟩ := (silent_add_iff (h x List.mem_cons_self)).mp hr₁
    obtain ⟨typeds, le, answers, vectors⟩ := ih tail hr
    refine ⟨List.forall_mem_cons.mpr ⟨typed, typeds⟩, ?_⟩
    -- a scalar leaves the agreement; a vector joins its answer and is listed before the rest
    rcases hg with ⟨hs, rfl⟩ | ⟨hs, type, joins, rfl⟩
    · rw [vectorsOf_cons_of_scalar hs]
      exact ⟨le, answers, vectors⟩
    · rw [vectorsOf_cons_of_vector hs]
      refine ⟨joins.left.trans le, List.forall_mem_cons.mpr ⟨joins.right.trans le, answers⟩, ?_⟩
      rw [vectors, List.append_assoc]
      rfl

/-- If the operands `xs` are well typed, and no vector among them answers more than `g` says, then
they agree silently, and the type stays that of `g`.  By induction on the list. -/
theorem silent_agree (h : ∀ x ∈ xs, Judged table x) (typed : ∀ x ∈ xs, x.Typed table.get)
    (g : Rule.Agreement) (answers : ∀ x ∈ vectorsOf table xs, x.answer table.get ≤ g.type) :
    Silent ((xs.map Expr.plainOperand).foldlM Rule.Agreement.add g) table
      ⟨g.type, g.vectors ++ vectorsOf table xs⟩ := by
  induction xs generalizing g with
  | nil =>
    show Silent (pure g) _ _
    rw [silent_pure_iff, vectorsOf, List.filter_nil, List.append_nil]
  | cons x xs ih =>
    have tail (y : Expr) (hy : y ∈ xs) := h y (List.mem_cons_of_mem x hy)
    obtain ⟨typed, typeds⟩ := List.forall_mem_cons.mp typed
    rw [List.map_cons, List.foldlM_cons]
    refine (silent_bind_iff (.add (h x List.mem_cons_self).steady g) fun g =>
      .agree (List.forall_mem_map.mpr fun y hy => (tail y hy).steady) g).mpr ?_
    -- the answer of a vector is below the type of `g`, so the join is that type again
    by_cases hs : x.answer table.get = .scalar
    · rw [vectorsOf_cons_of_scalar hs] at answers ⊢
      exact ⟨g, (silent_add_iff (h x List.mem_cons_self)).mpr ⟨typed, .inl ⟨hs, rfl⟩⟩,
        ih tail typeds g answers⟩
    · rw [vectorsOf_cons_of_vector hs] at answers ⊢
      obtain ⟨answer, answers⟩ := List.forall_mem_cons.mp answers
      refine ⟨⟨g.type, g.vectors ++ [x]⟩, (silent_add_iff (h x List.mem_cons_self)).mpr
        ⟨typed, .inr ⟨hs, g.type, (FieldType.joins_of_le answer).symm, rfl⟩⟩, ?_⟩
      have rest := ih tail typeds ⟨g.type, g.vectors ++ [x]⟩ answers
      rwa [List.append_assoc] at rest

end Arithmetic

/-! ## Rules -/

/-- A rule runs silently on a table, and its answer is known already, exactly if the law of the node
holds and the operands are well typed. -/
def Obeys (table : TypeTable) (e : Expr) (rule : Infer FieldType) : Prop :=
  ∀ t, Silent rule table t ∧ t ≤ table.get e
    ↔ t = e.answer table.get ∧ e.Fits table.get ∧ ∀ o ∈ e.demands, o.2.Typed table.get

section Rules

variable {e : Expr}

/-- The rule of a node without operands that adds `bound` to what is known of it obeys every table:
it is silent with a known answer exactly if `bound` is known of the node. -/
theorem obeys_unifyKnown {bound : FieldType} (hl : e.law = .leaf bound) (hd : e.demands = []) :
    Obeys table e (unifyKnown bound e) := by
  intro t
  have silent : Silent (unifyKnown bound e) table t ↔ FieldType.Joins bound (table.get e) t := by
    refine (silent_bind_iff (.known e) fun _ => .lift _).trans ?_
    constructor
    · rintro ⟨k, hk, hu⟩
      obtain rfl := silent_known_iff.mp hk
      exact silent_unify_iff.mp hu
    · intro joins
      exact ⟨_, silent_known_iff.mpr rfl, silent_unify_iff.mpr joins⟩
  -- the join of `bound` with the type of the node is known exactly if it is the type of the node
  rw [silent, Expr.answer_eq, hl, hd]
  constructor
  · rintro ⟨joins, le⟩
    refine ⟨le_antisymm le joins.right, ⟨by rw [hd]; exact nofun, ?_⟩, nofun⟩
    rw [hl]
    exact joins.left.trans le
  · rintro ⟨rfl, fits, -⟩
    have bounded := fits.law
    rw [hl] at bounded
    exact ⟨FieldType.joins_of_le bounded, le_refl _⟩

/-- The rule of a node whose type is given: it is silent where the operands are as asked, and
answers that type. -/
theorem obeys_given {result : FieldType} (hl : e.law = .given result) {rule : Infer FieldType}
    (hr : ∀ t, Silent rule table t
      ↔ t = result ∧ ∀ o ∈ e.demands, o.1 ≤ table.get o.2 ∧ o.2.Typed table.get) :
    Obeys table e rule := by
  intro t
  rw [hr, Expr.answer_eq, hl]
  constructor
  · rintro ⟨⟨rfl, hd⟩, le⟩
    exact ⟨rfl, ⟨fun o ho => (hd o ho).1, by rw [hl]; exact le⟩, fun o ho => (hd o ho).2⟩
  · rintro ⟨rfl, fits, typed⟩
    have le := fits.law
    rw [hl] at le
    exact ⟨⟨rfl, fun o ho => ⟨fits.demands o ho, typed o ho⟩⟩, le⟩

/-- A rule that fails obeys every table, as its law never holds. -/
theorem obeys_throw {cause : TypeError} (hl : e.law = .illegal) : Obeys table e (throw cause) := by
  intro t
  refine ⟨fun h => absurd h.1 not_silent_throw, fun h => ?_⟩
  have law := h.2.1.law
  rw [hl] at law
  exact law.elim

/-- The rule of arithmetic over `xs` is silent with a known answer `t` exactly if `t` is the type of
the node, or scalar where all operands are; if all operands are well typed; and if the type of the
node is between what each vector answers and what is recorded for it. -/
theorem silent_arithmetic_iff {xs : List Expr} (h : ∀ x ∈ xs, Judged table x) :
    Silent (Rule.arithmetic e (xs.map Expr.plainOperand)) table t ∧ t ≤ table.get e
      ↔ t = (if ∀ x ∈ xs, x.answer table.get = .scalar then .scalar else table.get e)
        ∧ t ≤ table.get e ∧ (∀ x ∈ xs, x.Typed table.get)
        ∧ ∀ x ∈ vectorsOf table xs, x.answer table.get ≤ table.get e ∧ table.get e ≤ table.get x := by
  have steady : ∀ o ∈ xs.map Expr.plainOperand, Steady o.visit :=
    List.forall_mem_map.mpr fun x hx => (h x hx).steady
  have empty : vectorsOf table xs = [] ↔ ∀ x ∈ xs, x.answer table.get = .scalar := by
    rw [vectorsOf, List.filter_eq_nil_iff]
    simp
  constructor
  · rintro ⟨hr, le⟩
    obtain ⟨k, hk, hr⟩ := (silent_bind_iff (.known e) fun _ =>
      .bind (.agree steady _) .conclude).mp hr
    obtain rfl := silent_known_iff.mp hk
    obtain ⟨g, hg, hr⟩ := (silent_bind_iff (.agree steady _) .conclude).mp hr
    obtain ⟨typed, known, answers, vectors⟩ := of_silent_agree h hg
    rw [List.nil_append] at vectors
    rw [vectors] at hr
    -- no vectors: the answer is `.scalar`; else the agreement is written down for each vector
    split at hr
    next hv =>
      have hv := List.isEmpty_iff.mp hv
      obtain rfl := silent_pure_iff.mp hr
      rw [if_pos (empty.mp hv)]
      refine ⟨rfl, le, typed, ?_⟩
      rw [hv]
      exact nofun
    next hv =>
      obtain ⟨⟨⟩, hw, hr⟩ := (silent_bind_iff (.forM fun _ _ => .write _ _) fun _ => .pure _).mp hr
      obtain rfl := silent_pure_iff.mp hr
      -- the agreement has started from the type of the node, and says no more in the end
      have same : g.type = table.get e := le_antisymm le known
      rw [if_neg fun hs => hv (List.isEmpty_iff.mpr (empty.mpr hs)), same]
      rw [same] at answers
      refine ⟨rfl, le_refl _, typed, fun x hx => ⟨answers x hx, ?_⟩⟩
      rw [← same]
      exact silent_write_iff.mp ((silent_forM_iff fun _ _ => .write _ _).mp hw x hx)
  · -- the agreement stays at the type of the node, which is known of every vector
    rintro ⟨ht, le, typed, vectors⟩
    refine ⟨(silent_bind_iff (.known e) fun _ => .bind (.agree steady _) .conclude).mpr
      ⟨_, silent_known_iff.mpr rfl, (silent_bind_iff (.agree steady _) .conclude).mpr
        ⟨_, silent_agree h typed _ fun x hx => (vectors x hx).1, ?_⟩⟩, le⟩
    rw [List.nil_append]
    split at ht
    next hs =>
      rw [if_pos (List.isEmpty_iff.mpr (empty.mpr hs)), silent_pure_iff]
      exact ht
    next hs =>
      rw [if_neg fun hv => hs (empty.mp (List.isEmpty_iff.mp hv))]
      refine (silent_bind_iff (.forM fun _ _ => .write _ _) fun _ => .pure _).mpr
        ⟨⟨⟩, (silent_forM_iff fun _ _ => .write _ _).mpr fun x hx => ?_, silent_pure_iff.mpr ht⟩
      exact silent_write_iff.mpr (vectors x hx).2

/-- The rule of arithmetic over `xs` obeys every table in which the visits of `xs` are judged. -/
theorem obeys_arithmetic {xs : List Expr} (hl : e.law = .arithmetic)
    (hd : e.demands = xs.map (.unknown, ·)) (h : ∀ x ∈ xs, Judged table x) :
    Obeys table e (Rule.arithmetic e (xs.map Expr.plainOperand)) := by
  intro t
  have readings : e.readings table.get = xs.map fun x => ⟨table.get x, x.answer table.get⟩ := by
    rw [Expr.readings, hd, List.map_map]
    rfl
  have scalar : (∀ o ∈ e.readings table.get, o.answered = .scalar)
      ↔ ∀ x ∈ xs, x.answer table.get = .scalar := by
    rw [readings, List.forall_mem_map]
  have answer : e.answer table.get
      = if ∀ x ∈ xs, x.answer table.get = .scalar then .scalar else table.get e := by
    rw [Expr.answer_eq, hl, Law.answer]
    exact if_congr scalar rfl rfl
  -- what is left is the law of arithmetic, spelled out over `xs`
  rw [silent_arithmetic_iff h, answer, hd, List.forall_mem_map]
  refine and_congr_right fun ht => ?_
  constructor
  · rintro ⟨le, typed, vectors⟩
    refine ⟨⟨?_, ?_⟩, typed⟩
    · rw [hd]
      exact List.forall_mem_map.mpr fun _ _ => FieldType.unknown_le _
    · rw [hl]
      refine ⟨fun hs => ?_, ?_⟩
      · rw [if_pos (scalar.mp hs)] at ht
        exact ht ▸ le
      · rw [readings]
        exact List.forall_mem_map.mpr fun x hx hs => vectors x (mem_vectorsOf.mpr ⟨hx, hs⟩)
  · rintro ⟨fits, typed⟩
    have law := fits.law
    rw [hl] at law
    obtain ⟨scalars, vectors⟩ := law
    refine ⟨?_, typed, fun x hx => ?_⟩
    · split at ht
      next hs => exact ht ▸ scalars (scalar.mpr hs)
      · exact le_of_eq ht
    · rw [readings, List.forall_mem_map] at vectors
      exact vectors x (mem_vectorsOf.mp hx).1 (mem_vectorsOf.mp hx).2

/-- The inputs of a flux, as they are demanded. -/
def fluxInputsOf (os : List (FieldType × Expr)) : List Rule.FluxInput :=
  os.map fun o => .field o.1 o.2.plainOperand

/-- To pin an input `x` of a flux to `domain` and `shared` is silent exactly if both are known of
`x` and `x` is well typed; it returns what `x` answers of its representation. -/
theorem silent_fluxInput_iff {domain shared r : FieldType} {x : Expr} (h : Judged table x) :
    Silent (Rule.fluxInput shared (.field domain x.plainOperand)) table r
      ↔ (domain ≤ table.get x ∧ shared ≤ table.get x ∧ x.Typed table.get)
        ∧ r = (x.answer table.get).representationPart := by
  have pinned (t : FieldType) : Steady (x.plainOperand.pin t) := .pin h.steady t
  constructor
  · intro hr
    obtain ⟨t, hu, hr⟩ := (silent_bind_iff (.lift _) fun t =>
      .bind (pinned t) fun _ => .pure _).mp hr
    obtain ⟨u, hp, hr⟩ := (silent_bind_iff (pinned t) fun _ => .pure _).mp hr
    obtain ⟨le, rfl, typed⟩ := h.silent_pin_iff.mp hp
    have joins := silent_unify_iff.mp hu
    exact ⟨⟨joins.left.trans le, joins.right.trans le, typed⟩, silent_pure_iff.mp hr⟩
  · rintro ⟨⟨hd, hs, typed⟩, rfl⟩
    have joins := FieldType.joins_join hd hs
    exact (silent_bind_iff (.lift _) fun t => .bind (pinned t) fun _ => .pure _).mpr
      ⟨_, silent_unify_iff.mpr joins, (silent_bind_iff (pinned _) fun _ => .pure _).mpr
        ⟨_, h.silent_pin_iff.mpr ⟨joins.least _ hd hs, rfl, typed⟩, silent_pure_iff.mpr rfl⟩⟩

/-- The inputs of a flux are silent exactly if each is as asked and well typed, if the first says
what is `shared`, and if each says what the one before it answers of its representation.  By
induction on the list. -/
theorem silent_fluxInputs_iff {os : List (FieldType × Expr)} (h : ∀ o ∈ os, Judged table o.2)
    {shared : FieldType} :
    (∃ r, Silent ((fluxInputsOf os).foldlM Rule.fluxInput shared) table r)
      ↔ (∀ o ∈ os, o.1 ≤ table.get o.2 ∧ o.2.Typed table.get)
        ∧ (∀ o ∈ os.head?, shared ≤ table.get o.2)
        ∧ (os.map fun o => (⟨table.get o.2, o.2.answer table.get⟩ : Reading)).IsChain fun o o' =>
            o.answered.representationPart ≤ o'.recorded := by
  induction os generalizing shared with
  | nil => exact ⟨fun _ => ⟨nofun, nofun, .nil⟩, fun _ => ⟨_, silent_pure_iff.mpr rfl⟩⟩
  | cons o os ih =>
    have head := h o List.mem_cons_self
    have tail (y) (hy : y ∈ os) := h y (List.mem_cons_of_mem o hy)
    have steady (t : FieldType) : Steady ((fluxInputsOf os).foldlM Rule.fluxInput t) := by
      refine .foldlM (fun t => List.forall_mem_map.mpr fun y hy => ?_) t
      exact .fluxInput (tail y hy).steady t
    -- what the head answers is asked of the next input, if there is one
    have chain : ((o :: os).map fun o => (⟨table.get o.2, o.2.answer table.get⟩ : Reading)).IsChain
          (fun o o' => o.answered.representationPart ≤ o'.recorded)
        ↔ (∀ y ∈ os.head?, (o.2.answer table.get).representationPart ≤ table.get y.2)
          ∧ (os.map fun o => (⟨table.get o.2, o.2.answer table.get⟩ : Reading)).IsChain fun o o' =>
            o.answered.representationPart ≤ o'.recorded := by
      rw [List.map_cons, List.isChain_cons]
      cases os <;> simp
    rw [List.forall_mem_cons, chain]
    constructor
    · -- the first input, and the rest from what the first one answers
      rintro ⟨r, hr⟩
      obtain ⟨u, hi, hr⟩ := (silent_bind_iff (.fluxInput head.steady shared) steady).mp hr
      obtain ⟨⟨hd, hs, typed⟩, rfl⟩ := (silent_fluxInput_iff head).mp hi
      obtain ⟨rest, first, chain⟩ := (ih tail).mp ⟨r, hr⟩
      refine ⟨⟨⟨hd, typed⟩, rest⟩, ?_, first, chain⟩
      rintro _ ⟨⟩
      exact hs
    · rintro ⟨⟨⟨hd, typed⟩, rest⟩, hs, first, chain⟩
      obtain ⟨r, hr⟩ := (ih tail).mpr ⟨rest, first, chain⟩
      exact ⟨r, (silent_bind_iff (.fluxInput head.steady shared) steady).mpr
        ⟨_, (silent_fluxInput_iff head).mpr ⟨⟨hd, hs o rfl, typed⟩, rfl⟩, hr⟩⟩

/-- The rule of a flux obeys every table in which the visits of its inputs are judged. -/
theorem obeys_flux (hl : e.law = .flux) (h : ∀ o ∈ e.demands, Judged table o.2) :
    Obeys table e (Rule.flux (fluxInputsOf e.demands)) := by
  intro t
  have steady (t : FieldType) : Steady ((fluxInputsOf e.demands).foldlM Rule.fluxInput t) := by
    refine .foldlM (fun t => List.forall_mem_map.mpr fun y hy => ?_) t
    exact .fluxInput (h y hy).steady t
  have silent : Silent (Rule.flux (fluxInputsOf e.demands)) table t
      ↔ (∃ r, Silent ((fluxInputsOf e.demands).foldlM Rule.fluxInput .unknown) table r)
        ∧ t = .volume .nodal := by
    refine (silent_bind_iff (steady _) fun _ => .pure _).trans ?_
    simp only [silent_pure_iff, exists_and_right]
  rw [silent, silent_fluxInputs_iff h, Expr.answer_eq, hl]
  constructor
  · rintro ⟨⟨⟨hd, -, chain⟩, rfl⟩, le⟩
    refine ⟨rfl, ⟨fun o ho => (hd o ho).1, ?_⟩, fun o ho => (hd o ho).2⟩
    rw [hl]
    exact ⟨le, chain⟩
  · rintro ⟨rfl, fits, typed⟩
    have law := fits.law
    rw [hl] at law
    exact ⟨⟨⟨fun o ho => ⟨fits.demands o ho, typed o ho⟩, fun _ _ => FieldType.unknown_le _, law.2⟩,
      rfl⟩, law.1⟩

/-- The rule of an exchange obeys every table in which the visits of its arguments are judged: each
argument is pinned to the nodal type on the volume. -/
theorem obeys_exchange {index rank : Nat} {xs : List Expr} (h : ∀ x ∈ xs, Judged table x) :
    Obeys table (.exchange index rank xs) (Rule.exchange rank (xs.map Expr.plainOperand)) := by
  refine obeys_given rfl fun t => ?_
  have pinned (x : Expr) (hx : x ∈ xs) :
      Steady (do let _ ← x.plainOperand.pin (.volume .nodal)) :=
    .bind (.pin (h x hx).steady _) fun _ => .pure _
  have silent (x : Expr) (hx : x ∈ xs) :
      Silent (do let _ ← x.plainOperand.pin (.volume .nodal)) table ⟨⟩
        ↔ .volume .nodal ≤ table.get x ∧ x.Typed table.get := by
    refine (silent_bind_iff (.pin (h x hx).steady _) fun _ => .pure _).trans ?_
    constructor
    · rintro ⟨u, hp, -⟩
      obtain ⟨le, -, typed⟩ := (h x hx).silent_pin_iff.mp hp
      exact ⟨le, typed⟩
    · rintro ⟨le, typed⟩
      exact ⟨_, (h x hx).silent_pin_iff.mpr ⟨le, rfl, typed⟩, silent_pure_iff.mpr rfl⟩
  have steady : Steady ((xs.map Expr.plainOperand).forM fun argument => do
      let _ ← argument.pin (.volume .nodal)) := .forM (List.forall_mem_map.mpr pinned)
  refine (silent_bind_iff steady fun _ => .pure _).trans ?_
  rw [show (Expr.exchange index rank xs).demands = xs.map (.volume .nodal, ·) from rfl,
    List.forall_mem_map]
  constructor
  · rintro ⟨⟨⟩, hr, hp⟩
    refine ⟨silent_pure_iff.mp hp, fun x hx => (silent x hx).mp ?_⟩
    exact (silent_forM_iff (List.forall_mem_map.mpr pinned)).mp hr _ (List.mem_map_of_mem hx)
  · rintro ⟨rfl, hd⟩
    refine ⟨⟨⟩, (silent_forM_iff (List.forall_mem_map.mpr pinned)).mpr ?_, silent_pure_iff.mpr rfl⟩
    exact List.forall_mem_map.mpr fun x hx => (silent x hx).mpr (hd x hx)

/-- The rule of a node with one operand `x` obeys the table, if it is silent with a known answer
where the law of the node holds for the reading of `x`. -/
theorem obeys_unary {demand : FieldType} {x : Expr} (hd : e.demands = [(demand, x)])
    {rule : Infer FieldType}
    (hr : ∀ t, Silent rule table t ∧ t ≤ table.get e
      ↔ t = e.law.answer (table.get e) [⟨table.get x, x.answer table.get⟩]
        ∧ demand ≤ table.get x
        ∧ e.law.Holds (table.get e) [⟨table.get x, x.answer table.get⟩] ∧ x.Typed table.get) :
    Obeys table e rule := by
  intro t
  have readings : e.readings table.get = [⟨table.get x, x.answer table.get⟩] := by
    rw [Expr.readings, hd]
    rfl
  rw [hr, ← readings, ← Expr.answer_eq, hd, List.forall_mem_singleton]
  refine and_congr_right fun _ => ?_
  constructor
  · rintro ⟨le, law, typed⟩
    exact ⟨⟨by rw [hd, List.forall_mem_singleton]; exact le, law⟩, typed⟩
  · rintro ⟨⟨le, law⟩, typed⟩
    rw [hd, List.forall_mem_singleton] at le
    exact ⟨le, law, typed⟩

/-- To pin an operand to `demand` and answer `result` is silent exactly if `demand` is known of it
and it is well typed. -/
theorem silent_pin_return_iff {x : Expr} (h : Judged table x) {demand result : FieldType} :
    Silent (do let _ ← x.plainOperand.pin demand; return result) table t
      ↔ t = result ∧ demand ≤ table.get x ∧ x.Typed table.get := by
  refine (silent_bind_iff (.pin h.steady _) fun _ => .pure _).trans ?_
  constructor
  · rintro ⟨u, hp, hr⟩
    obtain ⟨le, -, typed⟩ := h.silent_pin_iff.mp hp
    exact ⟨silent_pure_iff.mp hr, le, typed⟩
  · rintro ⟨rfl, le, typed⟩
    exact ⟨_, h.silent_pin_iff.mpr ⟨le, rfl, typed⟩, silent_pure_iff.mpr rfl⟩

/-- The rule of an operator whose result is given obeys every table in which the visit of its
operand is judged. -/
theorem obeys_pin {op : Operator} {x : Expr} {result : FieldType} (hl : op.law = .given result)
    (hd : (Expr.apply op x).demands = [(op.demand, x)]) (h : Judged table x) :
    Obeys table (.apply op x) (do let _ ← x.plainOperand.pin op.demand; return result) := by
  refine obeys_given (e := .apply op x) hl fun t => ?_
  rw [hd, List.forall_mem_singleton]
  exact silent_pin_return_iff h

/-- The rule of a maximum over elements obeys every such table: operand and node share their type,
on the volume. -/
theorem obeys_maximum {x : Expr} (h : Judged table x) :
    Obeys table (.apply .elementwiseMax x)
      (Rule.application .elementwiseMax (.apply .elementwiseMax x) x.plainOperand) := by
  refine obeys_unary rfl fun t => ?_
  -- the operand is pinned to the join of what is known of the node and the volume
  have silent : Silent (Rule.application .elementwiseMax (.apply .elementwiseMax x) x.plainOperand)
      table t ↔ ∃ u, FieldType.Joins (table.get (.apply .elementwiseMax x)) .onVolume u
        ∧ u ≤ table.get x ∧ t = x.answer table.get ∧ x.Typed table.get := by
    have pinned (u : FieldType) : Steady (x.plainOperand.pin u) := .pin h.steady u
    refine (silent_bind_iff (.known _) fun _ => .bind (.lift _) pinned).trans ?_
    constructor
    · rintro ⟨k, hk, hr⟩
      obtain rfl := silent_known_iff.mp hk
      obtain ⟨u, hu, hp⟩ := (silent_bind_iff (.lift _) pinned).mp hr
      exact ⟨u, silent_unify_iff.mp hu, h.silent_pin_iff.mp hp⟩
    · rintro ⟨u, joins, hp⟩
      exact ⟨_, silent_known_iff.mpr rfl, (silent_bind_iff (.lift _) pinned).mpr
        ⟨u, silent_unify_iff.mpr joins, h.silent_pin_iff.mpr hp⟩⟩
  rw [silent]
  constructor
  · rintro ⟨⟨u, joins, le, rfl, typed⟩, answered⟩
    exact ⟨rfl, joins.right.trans le,
      List.forall_mem_singleton.mpr ⟨joins.left.trans le, answered⟩, typed⟩
  · rintro ⟨rfl, le, law, typed⟩
    obtain ⟨own, answered⟩ := List.forall_mem_singleton.mp law
    have joins := FieldType.joins_join own le
    exact ⟨⟨_, joins, joins.least _ own le, rfl, typed⟩, answered⟩

/-- The rule of a restriction obeys every such table: operand and node share their representation.
-/
theorem obeys_restrict {tag : BoundaryTag} {x : Expr} (h : Judged table x) :
    Obeys table (.apply (.restrict tag) x)
      (Rule.application (.restrict tag) (.apply (.restrict tag) x) x.plainOperand) := by
  refine obeys_unary rfl fun t => ?_
  -- the operand is pinned to the volume, with the representation of the node; the node answers
  -- the boundary, with the representation of the operand
  have silent : Silent (Rule.application (.restrict tag) (.apply (.restrict tag) x) x.plainOperand)
      table t ↔ ∃ u, FieldType.Joins .onVolume
          (table.get (.apply (.restrict tag) x)).representationPart u
        ∧ (u ≤ table.get x ∧ x.Typed table.get)
        ∧ FieldType.Joins (.onBoundary tag) (table.get x).representationPart t := by
    have last : ∀ f : FieldType, Steady (liftM ((FieldType.onBoundary tag).unify f.representationPart
      (some (.apply (.restrict tag) x))) : Infer FieldType) := fun _ => .lift _
    have pinned (u : FieldType) : Steady (x.plainOperand.pin u) := .pin h.steady u
    have tail (u : FieldType) : Steady (do
        let _ ← x.plainOperand.pin u
        (FieldType.onBoundary tag).unify (← known x).representationPart
          (some (.apply (.restrict tag) x))) :=
      .bind (pinned u) fun _ => .bind (.known _) last
    refine (silent_bind_iff (.known _) fun _ => .bind (.lift _) tail).trans ?_
    constructor
    · rintro ⟨k, hk, hr⟩
      obtain rfl := silent_known_iff.mp hk
      obtain ⟨u, hu, hr⟩ := (silent_bind_iff (.lift _) tail).mp hr
      obtain ⟨v, hp, hr⟩ := (silent_bind_iff (pinned u) fun _ => .bind (.known _) last).mp hr
      obtain ⟨k, hk, hr⟩ := (silent_bind_iff (.known _) last).mp hr
      obtain rfl := silent_known_iff.mp hk
      obtain ⟨le, -, typed⟩ := h.silent_pin_iff.mp hp
      exact ⟨u, silent_unify_iff.mp hu, ⟨le, typed⟩, silent_unify_iff.mp hr⟩
    · rintro ⟨u, joins, ⟨le, typed⟩, result⟩
      exact ⟨_, silent_known_iff.mpr rfl, (silent_bind_iff (.lift _) tail).mpr
        ⟨u, silent_unify_iff.mpr joins, (silent_bind_iff (pinned u) fun _ =>
          .bind (.known _) last).mpr ⟨_, h.silent_pin_iff.mpr ⟨le, rfl, typed⟩,
            (silent_bind_iff (.known _) last).mpr
              ⟨_, silent_known_iff.mpr rfl, silent_unify_iff.mpr result⟩⟩⟩⟩
  rw [silent]
  constructor
  · rintro ⟨⟨u, joins, ⟨le, typed⟩, result⟩, known⟩
    exact ⟨result.join_eq.symm, joins.left.trans le, ⟨result.left.trans known,
      List.forall_mem_singleton.mpr ⟨joins.right.trans le, result.right.trans known⟩⟩, typed⟩
  · rintro ⟨rfl, le, ⟨boundary, law⟩, typed⟩
    obtain ⟨own, operand⟩ := List.forall_mem_singleton.mp law
    have joins := FieldType.joins_join le own
    have result := FieldType.joins_join boundary operand
    exact ⟨⟨_, joins, ⟨joins.least _ le own, typed⟩, result⟩, result.least _ boundary operand⟩

/-- The rule of an interpolation to a grid obeys every such table: operand and node share their
domain. -/
theorem obeys_upsample {grid : QuadratureTag} {x : Expr} (h : Judged table x) :
    Obeys table (.apply (.upsample grid) x)
      (Rule.application (.upsample grid) (.apply (.upsample grid) x) x.plainOperand) := by
  refine obeys_unary rfl fun t => ?_
  -- the operand is pinned to the domain of the node; the node answers the grid, with the domain
  -- of the operand
  have silent : Silent (Rule.application (.upsample grid) (.apply (.upsample grid) x) x.plainOperand)
      table t ↔ ((table.get (.apply (.upsample grid) x)).domainPart ≤ table.get x
          ∧ x.Typed table.get)
        ∧ FieldType.Joins (.represented (.quadrature grid)) (table.get x).domainPart t := by
    have last : ∀ f : FieldType, Steady (liftM ((FieldType.represented (.quadrature grid)).unify f.domainPart
      (some (.apply (.upsample grid) x))) : Infer FieldType) := fun _ => .lift _
    have pinned (u : FieldType) : Steady (x.plainOperand.pin u) := .pin h.steady u
    refine (silent_bind_iff (.known _) fun k => .bind (pinned _) fun _ =>
      .bind (.known _) last).trans ?_
    constructor
    · rintro ⟨k, hk, hr⟩
      obtain rfl := silent_known_iff.mp hk
      obtain ⟨v, hp, hr⟩ := (silent_bind_iff (pinned _) fun _ => .bind (.known _) last).mp hr
      obtain ⟨k, hk, hr⟩ := (silent_bind_iff (.known _) last).mp hr
      obtain rfl := silent_known_iff.mp hk
      obtain ⟨le, -, typed⟩ := h.silent_pin_iff.mp hp
      exact ⟨⟨le, typed⟩, silent_unify_iff.mp hr⟩
    · rintro ⟨⟨le, typed⟩, result⟩
      exact ⟨_, silent_known_iff.mpr rfl, (silent_bind_iff (pinned _) fun _ =>
        .bind (.known _) last).mpr ⟨_, h.silent_pin_iff.mpr ⟨le, rfl, typed⟩,
          (silent_bind_iff (.known _) last).mpr
            ⟨_, silent_known_iff.mpr rfl, silent_unify_iff.mpr result⟩⟩⟩
  rw [silent]
  constructor
  · rintro ⟨⟨⟨le, typed⟩, result⟩, known⟩
    exact ⟨result.join_eq.symm, FieldType.unknown_le _, ⟨result.left.trans known,
      List.forall_mem_singleton.mpr ⟨le, result.right.trans known⟩⟩, typed⟩
  · rintro ⟨rfl, -, ⟨grid, law⟩, typed⟩
    obtain ⟨own, operand⟩ := List.forall_mem_singleton.mp law
    have result := FieldType.joins_join grid operand
    exact ⟨⟨⟨own, typed⟩, result⟩, result.least _ grid operand⟩

/-- The plain rule of a common subexpression obeys every table in which the visit of its body is
judged: body and node share their type. -/
theorem obeys_plain {body : Expr} {label : Option String} (h : Judged table body) :
    Obeys table (.shared body label) (plain (.shared body label) body.plainOperand) := by
  refine obeys_unary rfl fun t => ?_
  -- the type of the node is written for the body, which is visited; the answer is its type then
  have silent : Silent (plain (.shared body label) body.plainOperand) table t
      ↔ table.get (.shared body label) ≤ table.get body ∧ body.Typed table.get
        ∧ t = table.get body := by
    refine (silent_bind_iff (.known _) fun _ => .bind (.write _ _) fun _ =>
      .bind h.steady fun _ => .known _).trans ?_
    constructor
    · rintro ⟨k, hk, hr⟩
      obtain rfl := silent_known_iff.mp hk
      obtain ⟨⟨⟩, hw, hr⟩ := (silent_bind_iff (.write _ _) fun _ =>
        .bind h.steady fun _ => .known _).mp hr
      obtain ⟨u, hv, hr⟩ := (silent_bind_iff h.steady fun _ => .known _).mp hr
      exact ⟨silent_write_iff.mp hw, ((h.silent u).mp hv).2, silent_known_iff.mp hr⟩
    · rintro ⟨hw, typed, ht⟩
      exact ⟨_, silent_known_iff.mpr rfl, (silent_bind_iff (.write _ _) fun _ =>
        .bind h.steady fun _ => .known _).mpr ⟨(), silent_write_iff.mpr hw,
          (silent_bind_iff h.steady fun _ => .known _).mpr
            ⟨_, (h.silent _).mpr ⟨rfl, typed⟩, silent_known_iff.mpr ht⟩⟩⟩
  rw [silent]
  constructor
  · rintro ⟨⟨le, typed, rfl⟩, known⟩
    -- what is known of the node is known of the body, and conversely, as the answer is known
    have same := le_antisymm known le
    exact ⟨same, FieldType.unknown_le _, List.forall_mem_singleton.mpr same, typed⟩
  · rintro ⟨rfl, -, law, typed⟩
    have same : table.get body = table.get (.shared body label) := law _ List.mem_cons_self
    exact ⟨⟨le_of_eq same.symm, typed, same.symm⟩, le_refl _⟩

end Rules

/-! ## All nodes -/

/-- The children as operands of a plain rule. -/
theorem childOperands_plain (e : Expr) :
    childOperands (e := e) (fun x _ => inferWith plain x) = e.children.map Expr.plainOperand :=
  List.attach_map_val (f := Expr.plainOperand)

/-- The components of `x` as inputs of a flux, in a plain rule. -/
theorem componentInputs_plain {e : Expr} (domain : FieldType) (x : Expr) (h : x.size < e.size) :
    componentInputs (e := e) (fun x _ => inferWith plain x) domain x h
      = fluxInputsOf (x.demandAll domain) := by
  unfold componentInputs componentOperands fluxInputsOf Expr.demandAll
  rw [List.map_map]
  refine Eq.trans ?_ (List.map_map).symm
  exact List.attach_map_val (f := fun x : Expr => Rule.FluxInput.field domain x.plainOperand)

/-- Demands in two lists make inputs in two lists. -/
theorem fluxInputsOf_append (os os' : List (FieldType × Expr)) :
    fluxInputsOf (os ++ os') = fluxInputsOf os ++ fluxInputsOf os' := List.map_append

/-- The inputs that a flux reads of a pair, in a plain rule. -/
theorem pairInputs_plain {e : Expr} : (x : Expr) → x.isPair = true → (h : x.size < e.size) →
    pairInputs (e := e) (fun x _ => inferWith plain x) x h = fluxInputsOf x.pairDemands
  | .pair interior boundary tag, _, h => by
    rw [pairInputs, componentInputs_plain, componentInputs_plain, Expr.pairDemands,
      fluxInputsOf_append]

/-- The inputs that a flux reads of a field, in a plain rule. -/
theorem fluxInputs_plain {e : Expr} (x : Expr) (h : x.size < e.size) :
    fluxInputs (e := e) (fun x _ => inferWith plain x) x h = fluxInputsOf x.fluxDemands := by
  cases x with
  | pair interior boundary tag => exact pairInputs_plain (.pair interior boundary tag) rfl h
  | _ => exact componentInputs_plain .onInteriorFaces _ h

/-- The inputs of a flux over a whole domain, in a plain rule, if all that stands where pairs have
to stand is a pair. -/
theorem domainInputs_plain {interiors boundaries : List Expr}
    (hb : boundaries.all Expr.isPair = true) :
    interiors.attach.flatMap (fun x =>
        componentInputs (e := .domainFlux interiors boundaries) (fun x _ => inferWith plain x)
          .onInteriorFaces x.1 (Expr.size_lt_of_mem_children (List.mem_append_left _ x.2)))
      ++ boundaries.attach.flatMap (fun x =>
        pairInputs (e := .domainFlux interiors boundaries) (fun x _ => inferWith plain x) x.1
          (Expr.size_lt_of_mem_children (List.mem_append_right _ x.2)))
      = fluxInputsOf (Expr.domainFlux interiors boundaries).demands := by
  rw [List.flatMap_subtype (g := fun x : Expr => fluxInputsOf (x.demandAll .onInteriorFaces))
      fun x _ => componentInputs_plain .onInteriorFaces x _,
    List.flatMap_subtype (g := fun x : Expr => fluxInputsOf x.pairDemands)
      fun x hx => pairInputs_plain x (List.all_eq_true.mp hb x hx) _,
    List.unattach_attach, List.unattach_attach, Expr.demands, fluxInputsOf_append]
  unfold fluxInputsOf
  rw [List.map_flatMap, List.map_flatMap]

/-- A flux over something that is no pair where a pair has to stand fails. -/
theorem not_silent_of_stray {x : Expr} {inputs : List Rule.FluxInput} (h : .stray x ∈ inputs)
    {shared r : FieldType} {s s' : InferenceState} :
    (inputs.foldlM Rule.fluxInput shared).run.run s ≠ (.ok r, s') := by
  induction inputs generalizing shared s with
  | nil => nomatch h
  | cons i inputs ih =>
    intro hr
    rw [List.foldlM_cons] at hr
    obtain ⟨t, s₁, hi, hr⟩ := run_bind_eq_ok.mp hr
    rcases List.mem_cons.mp h with rfl | h
    · exact run_throw_ne_ok hi
    · exact ih h hr

/-- The rule of a flux over a whole domain obeys the table.  Its law is that of a flux, or it has
none if something stands in the place of a pair that is none. -/
theorem obeys_domainFlux {interiors boundaries : List Expr}
    (h : ∀ o ∈ (Expr.domainFlux interiors boundaries).demands, Judged table o.2) :
    Obeys table (.domainFlux interiors boundaries) (inferWith plain (.domainFlux interiors boundaries))
      := by
  rw [inferWith_eq]
  by_cases hb : boundaries.all Expr.isPair = true
  · have hl : (Expr.domainFlux interiors boundaries).law = .flux := if_pos hb
    show Obeys table _ (Rule.flux _)
    rw [domainInputs_plain hb]
    exact obeys_flux hl h
  · have hl : (Expr.domainFlux interiors boundaries).law = .illegal := if_neg hb
    intro t
    constructor
    · -- a stray among the boundary fields makes the run fail
      rintro ⟨hr, -⟩
      obtain ⟨x, hx, hp⟩ : ∃ x ∈ boundaries, ¬x.isPair = true := by
        simpa [List.all_eq_true] using hb
      obtain ⟨r, s, hr, -⟩ := run_bind_eq_ok.mp hr
      refine absurd hr (not_silent_of_stray (x := x) (List.mem_append_right _ ?_))
      refine List.mem_flatMap.mpr ⟨⟨x, hx⟩, List.mem_attach _ _, ?_⟩
      cases x with
      | pair _ _ _ => exact absurd rfl hp
      | _ => exact List.mem_singleton.mpr rfl
    · rintro ⟨-, fits, -⟩
      have law := fits.law
      rw [hl] at law
      exact law.elim

/-- The rules are steady over operands with steady visits. -/
theorem rulesRelate_steady : RulesRelate (fun o _ => Steady o.visit) fun action _ => Steady action where
  atom := .atom
  subscript _ := .unifyKnown _ _
  arithmetic e _ _ h := by
    refine .arithmetic (fun o ho => ?_) e
    obtain ⟨_, -, steady⟩ := exists_right_of_forall₂ h ho
    exact steady
  application op e _ _ h := .application h op e
  flux h := by
    refine .flux fun i hi t => ?_
    obtain ⟨_, -, related⟩ := exists_right_of_forall₂ h hi
    cases related with
    | field domain steady => exact .fluxInput steady t
    | stray e => exact .throw _
  exchange rank _ _ h := by
    refine .exchange (fun o ho => ?_) rank
    obtain ⟨_, -, steady⟩ := exists_right_of_forall₂ h ho
    exact steady
  unsupported _ := .throw _

/-- The plain rule of every expression is steady.  By induction on the size. -/
theorem steady_inferWith_plain (e : Expr) : Steady (inferWith plain e) := by
  have ih (y : Expr) (_ : y.size < e.size) : Steady (inferWith plain y) := steady_inferWith_plain y
  by_cases hs : e.isShared = true
  · cases e with
    | shared body label =>
      rw [inferWith_shared]
      exact .shared (.visit (ih body (Expr.size_lt_of_mem_children List.mem_cons_self))) _
    | _ => nomatch hs
  · have parts : RelatedParts (fun o _ => Steady o.visit) (e := e)
        (fun x _ => inferWith plain x) fun x _ => inferWith plain x := fun x hx _ => .visit (ih x hx)
    rw [inferWith_eq]
    exact rulesRelate_steady.inferStep (by simpa using hs) plain plain parts
termination_by e.size

/-- The rule of an operator that is not a flux obeys every table in which the visit of its operand
is judged. -/
theorem obeys_application {op : Operator} (hop : ∀ f, op ≠ .flux f) {x : Expr}
    (h : Judged table x) :
    Obeys table (.apply op x) (Rule.application op (.apply op x) x.plainOperand) := by
  cases op with
  | flux f => exact absurd rfl (hop f)
  | exchange _ _ | external _ => exact obeys_throw rfl
  | elementwiseMax => exact obeys_maximum h
  | restrict _ => exact obeys_restrict h
  | upsample _ => exact obeys_upsample h
  | mass kind | referenceMass kind => cases kind <;> exact obeys_pin rfl rfl h
  | _ => exact obeys_pin rfl rfl h

/-- The rules of atoms obey every table. -/
theorem obeys_atom : (a : Atom) → Obeys table (.atom a) (Rule.atom a)
  | .constant _ | .parameter _ | .variable _ | .ones _ | .coordinate _ _ | .normal _ _ (some _)
  | .normal _ _ none => obeys_unifyKnown rfl rfl
  | .jacobian _ | .forwardMetric _ _ | .inverseMetric _ _ => obeys_given rfl fun _ =>
    silent_pure_iff.trans ⟨fun h => ⟨h, nofun⟩, fun h => h.1⟩
  | .kernelNormal _ => obeys_throw rfl

/-- The plain rule of a node obeys every table in which the visits of what it demands are judged. -/
theorem obeys_inferWith {e : Expr} (ih : ∀ o ∈ e.demands, Judged table o.2) :
    Obeys table e (inferWith plain e) := by
  have children (hd : e.demands = e.children.map (.unknown, ·)) : ∀ x ∈ e.children, Judged table x :=
    fun x hx => ih (.unknown, x) (hd ▸ List.mem_map_of_mem hx)
  cases e with
  | domainFlux _ _ => exact obeys_domainFlux ih
  | atom a =>
    rw [inferWith_eq]
    exact obeys_atom a
  | subscript _ _ =>
    rw [inferWith_eq]
    exact obeys_unifyKnown rfl rfl
  | sum _ | product _ | quotient _ _ | power _ _ | conditional _ _ _ | ifPositive _ _ _
  | comparison _ _ _ | call _ _ =>
    rw [inferWith_eq]
    show Obeys table _ (Rule.arithmetic _ (childOperands fun x _ => inferWith plain x))
    rw [childOperands_plain]
    exact obeys_arithmetic rfl rfl (children rfl)
  | shared body label =>
    rw [inferWith_shared]
    exact obeys_plain (children rfl body List.mem_cons_self)
  | apply op field =>
    rw [inferWith_eq]
    -- a flux reads the inputs of its field; any other operator visits the field itself
    by_cases hop : ∃ f, op = .flux f
    · obtain ⟨f, rfl⟩ := hop
      have inputs := fluxInputs_plain (e := .apply (.flux f) field) field
        (Expr.size_lt_of_mem_children List.mem_cons_self)
      exact (congrArg (fun inputs => Obeys table (.apply (.flux f) field) (Rule.flux inputs))
        inputs).mpr (obeys_flux rfl ih)
    · have hop (f : Flux) : op ≠ .flux f := fun hf => hop ⟨f, hf⟩
      rw [inferStep_apply hop]
      refine obeys_application hop ?_
      cases op with
      | flux f => exact absurd rfl (hop f)
      | _ => exact ih (_, field) List.mem_cons_self
  | pair _ _ _ | array _ =>
    rw [inferWith_eq]
    exact obeys_throw rfl
  | exchange index rank arguments =>
    rw [inferWith_eq]
    show Obeys table _ (Rule.exchange rank (childOperands fun x _ => inferWith plain x))
    rw [childOperands_plain]
    exact obeys_exchange fun x hx => ih (.volume .nodal, x) (List.mem_map_of_mem hx)

/-- A plain visit of `e` is steady, and silent exactly if `e` is well typed.  By induction on the
size. -/
theorem judged (e : Expr) : Judged table e := by
  have ih (o) (ho : o ∈ e.demands) : Judged table o.2 :=
    have := Expr.size_lt_of_mem_demands ho
    judged o.2
  have obeys := obeys_inferWith ih
  refine ⟨.visit (steady_inferWith_plain e), fun t => ?_⟩
  refine (silent_bind_iff (steady_inferWith_plain e) fun _ =>
    .bind (.write _ _) fun _ => .pure _).trans ?_
  -- the visit runs the rule and writes its answer down, which is silent if the answer is known
  rw [Expr.typed_iff, ← obeys t]
  constructor
  · rintro ⟨u, hr, hw⟩
    obtain ⟨⟨⟩, hw, hp⟩ := (silent_bind_iff (.write _ _) fun _ => .pure _).mp hw
    obtain rfl := silent_pure_iff.mp hp
    exact ⟨hr, silent_write_iff.mp hw⟩
  · rintro ⟨hr, le⟩
    exact ⟨t, hr, (silent_bind_iff (.write _ _) fun _ => .pure _).mpr
      ⟨(), silent_write_iff.mpr le, silent_pure_iff.mpr rfl⟩⟩
termination_by e.size

/-! ## Solutions -/

/-- A table solves the typing rules of roots exactly if their components are well typed in it. -/
theorem unchanged_iff_typed {roots : List Expr} {D : TypeTable} :
    D.Unchanged roots ↔ ∀ e ∈ roots.flatMap Expr.components, e.Typed D.get := by
  have steady : ∀ o ∈ rootOperands plain roots, Steady (do let _ ← o.visit) :=
    List.forall_mem_map.mpr fun e _ => .bind (@judged D e).steady fun _ => .pure _
  have silent (e : Expr) : Silent (do let _ ← plainVisit e) D ⟨⟩ ↔ e.Typed D.get := by
    have judged := @judged D e
    refine (silent_bind_iff judged.steady fun _ => .pure _).trans ?_
    constructor
    · rintro ⟨t, hv, -⟩
      exact ((judged.silent t).mp hv).2
    · intro typed
      exact ⟨_, (judged.silent _).mpr ⟨rfl, typed⟩, silent_pure_iff.mpr rfl⟩
  have pass : Silent (passOver plain roots) D ⟨⟩
      ↔ ∀ e ∈ roots.flatMap Expr.components, e.Typed D.get :=
    (silent_forM_iff steady).trans (List.forall_mem_map.trans
      (forall_congr' fun e => forall_congr' fun _ => silent e))
  rw [← pass]
  constructor
  · intro h
    -- a pass that changes no entry writes nothing, and a steady action without writes keeps the
    -- state
    obtain ⟨after, hr, hw⟩ := h.exists_run
    have state : Steady (passOver plain roots) := .forM steady
    have state := state ⟨D, .empty⟩
    rw [hr] at state
    rcases state with rfl | lt
    · exact hr
    · exact absurd lt (by rw [hw]; exact Nat.lt_irrefl _)
  · intro h
    exact ⟨_, h, fun _ => rfl⟩

end OperatorTemplate
