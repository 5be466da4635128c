import OperatorTemplate.Proofs.Boundary.PureTranslation
import OperatorTemplate.Proofs.Expr.Parts
/-!
# What a translation looks at

The translation of a boundary expression looks inside arithmetic and inside common subexpressions
that cost nothing (`Expr.IsTransparent`); what it meets that way is *inlined* (`Expr.Inlined`).  The
inlined expressions that it cannot compute from face data are read as inputs: `e.Reads c` if
something inlined in `e` gives the input `c` (`Expr.Reads`).  Both notions say nothing of lists or
positions.

A run *gathers* what `R` says if, whenever it succeeds, the inputs listed afterwards are those
listed before and those in `R` (`Gathers`).  The crux is the memory of common subexpressions: one
that was met before is not translated again and lists nothing.  So the invariant of a run is that
what the remembered expressions read is listed already (`TranslationState.Recalls`).  By induction
on `e`, its translation gathers what `e` reads (`gathers_expr`).

So the translation of a pair lists what its boundary components read, beside the interior
components, and nothing else (`mem_volume_iff`, `mem_boundary_iff`); the interior components come
first, and what is listed after them was not among them (`exists_moved_of_translatePair`).
-/

namespace OperatorTemplate

namespace Expr

/-! ## Inlined expressions -/

/-- A translation looks inside. -/
def IsTransparent : Expr → Prop
  | .sum _ | .product _ | .quotient _ _ | .power _ _ | .conditional _ _ _ | .ifPositive _ _ _
  | .comparison _ _ _ | .call _ _ => True
  | .shared body _ => body.cost = .ok false
  | _ => False

/-- The input that a translation lists for an expression it does not look into. -/
def input? : Expr → Option (Side × Expr)
  | .apply (.restrict _) field => some (.interior, field)
  | .apply (.exchange index rank) field => some (.exterior, .apply (.exchange index rank) field)
  | .apply (.upsample grid) field => some (.exterior, .apply (.upsample grid) field)
  | .apply (.upsampleBoundary grid tag) field =>
    some (.exterior, .apply (.upsampleBoundary grid tag) field)
  | .atom (.variable name) => some (.exterior, .atom (.variable name))
  | .subscript aggregate index => some (.exterior, .subscript aggregate index)
  | .exchange index rank arguments => some (.exterior, .exchange index rank arguments)
  | .shared body label =>
    match body.cost with
    | .ok true => some (.exterior, .shared body label)
    | _ => none
  | _ => none

/-- `x` is met when `e` is translated. -/
inductive Inlined (x : Expr) : Expr → Prop
  | self : Inlined x x
  | operand {c e : Expr} (ht : e.IsTransparent) (hc : c ∈ e.children) (h : Inlined x c) : Inlined x e

/-- The translation of `e` lists `c` as an input. -/
def Reads (e : Expr) (c : Side × Expr) : Prop := ∃ x, Inlined x e ∧ x.input? = some c

/-- What is met in something that is met in `e` is met in `e`. -/
theorem Inlined.trans {x y e : Expr} (hx : Inlined x y) (hy : Inlined y e) : Inlined x e := by
  induction hy with
  | self => exact hx
  | operand ht hc _ ih => exact .operand ht hc ih

theorem Inlined.of_child {c e : Expr} (ht : e.IsTransparent) (hc : c ∈ e.children) : Inlined c e :=
  .operand ht hc .self

variable {e : Expr}

/-- What a translation looks into is no input. -/
theorem input?_eq_none_of_isTransparent (ht : e.IsTransparent) : e.input? = none := by
  cases e with
  | shared body label =>
    change body.cost = .ok false at ht
    rw [input?, ht]
  | sum _ | product _ | quotient _ _ | power _ _ | conditional _ _ _ | ifPositive _ _ _
  | comparison _ _ _ | call _ _ => rfl
  | _ => exact ht.elim

/-- A volume input is the operand of a restriction. -/
theorem exists_restrict_of_input? {x : Expr} (h : e.input? = some (.interior, x)) :
    ∃ tag, e = .apply (.restrict tag) x := by
  unfold input? at h
  split at h
  · cases h
    exact ⟨_, rfl⟩
  · nomatch h
  · nomatch h
  · nomatch h
  · nomatch h
  · nomatch h
  · nomatch h
  · split at h <;> nomatch h
  · nomatch h

/-- A boundary input stands for itself. -/
theorem eq_of_input? {x : Expr} (h : e.input? = some (.exterior, x)) : e = x := by
  unfold input? at h
  split at h
  · nomatch h
  · cases h
    rfl
  · cases h
    rfl
  · cases h
    rfl
  · cases h
    rfl
  · cases h
    rfl
  · cases h
    rfl
  · split at h
    · cases h
      rfl
    · nomatch h
  · nomatch h

/-- What a translation looks into reads what its operands read. -/
theorem reads_iff_of_isTransparent (ht : e.IsTransparent) (c : Side × Expr) :
    e.Reads c ↔ ∃ x ∈ e.children, x.Reads c := by
  constructor
  · rintro ⟨x, hx, hc⟩
    cases hx with
    | self => exact nomatch (input?_eq_none_of_isTransparent ht).symm.trans hc
    | operand _ hx h => exact ⟨_, hx, x, h, hc⟩
  · rintro ⟨y, hy, x, hx, hc⟩
    exact ⟨x, .operand ht hy hx, hc⟩

/-- Anything else reads itself, as the input that it gives, or nothing. -/
theorem reads_iff_of_not_isTransparent (ht : ¬e.IsTransparent) (c : Side × Expr) :
    e.Reads c ↔ e.input? = some c := by
  constructor
  · rintro ⟨x, hx, hc⟩
    cases hx with
    | self => exact hc
    | operand ht' _ _ => exact absurd ht' ht
  · exact fun hc => ⟨e, .self, hc⟩

/-! ## Inlined expressions have kernels -/

variable {tag : BoundaryTag} {l : KernelOver Expr}

/-- Where several expressions have kernels, each has one. -/
theorem exists_kernel_of_kernels {es : List Expr} {ls : List (KernelOver Expr)}
    (h : kernels tag es = .ok ls) {c : Expr} (hc : c ∈ es) : ∃ l, c.kernel tag = .ok l := by
  obtain ⟨l, -, hl⟩ := exists_right_of_forall₂ (forall₂_of_kernels h) hc
  exact ⟨l, hl⟩

/-- What a translation looks inside of is translated through its operands: where it has a kernel, so
has each of them. -/
theorem exists_kernel_of_child (ht : e.IsTransparent) (h : e.kernel tag = .ok l) {c : Expr}
    (hc : c ∈ e.children) : ∃ l, c.kernel tag = .ok l := by
  cases e with
  | sum es | product es | call _ es =>
    obtain ⟨ls, hls, -⟩ := bind_eq_ok.mp h
    exact exists_kernel_of_kernels hls hc
  | quotient a b | power a b | comparison a _ b =>
    obtain ⟨la, ha, h⟩ := bind_eq_ok.mp h
    obtain ⟨lb, hb, -⟩ := bind_eq_ok.mp h
    simp only [children, List.mem_cons, List.not_mem_nil, or_false] at hc
    rcases hc with rfl | rfl
    · exact ⟨la, ha⟩
    · exact ⟨lb, hb⟩
  | conditional z a b | ifPositive z a b =>
    obtain ⟨lz, hz, h⟩ := bind_eq_ok.mp h
    obtain ⟨la, ha, h⟩ := bind_eq_ok.mp h
    obtain ⟨lb, hb, -⟩ := bind_eq_ok.mp h
    simp only [children, List.mem_cons, List.not_mem_nil, or_false] at hc
    rcases hc with rfl | rfl | rfl
    · exact ⟨lz, hz⟩
    · exact ⟨la, ha⟩
    · exact ⟨lb, hb⟩
  | shared body label =>
    -- the kernel of a common subexpression that costs nothing is that of its body
    change body.cost = .ok false at ht
    obtain rfl := List.mem_singleton.mp hc
    rw [kernel, ht] at h
    exact ⟨l, h⟩
  | _ => exact ht.elim

/-- Where `e` has a kernel, so has all that is inlined in it. -/
theorem Inlined.exists_kernel {x : Expr} (h : Inlined x e) {l : KernelOver Expr}
    (hl : e.kernel tag = .ok l) : ∃ l, x.kernel tag = .ok l := by
  induction h generalizing l with
  | self => exact ⟨l, hl⟩
  | operand ht hc _ ih =>
    obtain ⟨l', hl'⟩ := exists_kernel_of_child ht hl hc
    exact ih hl'

/-- The atoms that a kernel can name: literals, parameters and normals. -/
def IsFaceAtom (e : Expr) : Prop :=
  (∃ value, e = .atom (.constant value)) ∨ (∃ name, e = .atom (.parameter name))
    ∨ ∃ tag axis grid, e = .atom (.normal tag axis grid)

/-- An expression with a kernel is looked into, listed as an input, or an atom that a kernel can
name. -/
theorem isTransparent_or_of_kernel (h : e.kernel tag = .ok l) :
    e.IsTransparent ∨ (∃ c, e.input? = some c) ∨ e.IsFaceAtom := by
  cases e with
  | atom a =>
    cases a with
    | constant value => exact .inr (.inr (.inl ⟨value, rfl⟩))
    | parameter name => exact .inr (.inr (.inr (.inl ⟨name, rfl⟩)))
    | normal tag axis grid => exact .inr (.inr (.inr (.inr ⟨tag, axis, grid, rfl⟩)))
    | «variable» name => exact .inr (.inl ⟨_, rfl⟩)
    | _ => nomatch h
  | subscript _ _ | exchange _ _ _ => exact .inr (.inl ⟨_, rfl⟩)
  | apply op field =>
    cases op with
    | restrict _ | exchange _ _ | upsample _ | upsampleBoundary _ _ => exact .inr (.inl ⟨_, rfl⟩)
    | _ => nomatch h
  | shared body label =>
    obtain ⟨cost, hcost, -⟩ := bind_eq_ok.mp h
    cases cost with
    | false => exact .inl hcost
    | true =>
      refine .inr (.inl ⟨(.exterior, .shared body label), ?_⟩)
      rw [input?, hcost]
  | pair _ _ _ | array _ | domainFlux _ _ => nomatch h
  | _ => exact .inl trivial

end Expr

/-! ## Gathering -/

namespace TranslationState

/-- An expression is listed as an input. -/
def Lists (s : TranslationState) (c : Side × Expr) : Prop :=
  match c.1 with
  | .interior => c.2 ∈ s.volume
  | .exterior => c.2 ∈ s.boundary

/-- The costs are right, and what the kernels in memory read is listed. -/
structure Recalls (s : TranslationState) : Prop where
  costs : s.costs.Valid
  kernels : ∀ e k, s.kernels.get? e = some k → ∀ c, e.Reads c → s.Lists c

end TranslationState

/-- Volume inputs are listed at the end, and only if they were not listed. -/
def TranslationState.ListsFresh (s s' : TranslationState) : Prop :=
  ∃ moved, s'.volume = s.volume ++ moved ∧ ∀ x ∈ moved, x ∉ s.volume

namespace TranslationState.ListsFresh

variable {s s' s'' : TranslationState}

theorem refl (s : TranslationState) : s.ListsFresh s := ⟨[], (List.append_nil _).symm, nofun⟩

theorem of_volume_eq (h : s'.volume = s.volume) : s.ListsFresh s' :=
  ⟨[], h.trans (List.append_nil _).symm, nofun⟩

/-- Fresh inputs at the end of fresh inputs are fresh: what the second run lists was in neither
list. -/
theorem trans (h : s.ListsFresh s') (h' : s'.ListsFresh s'') : s.ListsFresh s'' := by
  obtain ⟨moved, hv, hm⟩ := h
  obtain ⟨moved', hv', hm'⟩ := h'
  refine ⟨moved ++ moved', by rw [hv', hv, List.append_assoc], fun x hx => ?_⟩
  rcases List.mem_append.mp hx with hx | hx
  · exact hm x hx
  · exact fun hs => hm' x hx (hv ▸ List.mem_append_left _ hs)

end TranslationState.ListsFresh

/-- What a successful run does that lists `R`, beside what was listed. -/
structure Gathered (s s' : TranslationState) (R : Side × Expr → Prop) : Prop where
  recalls : s'.Recalls
  lists : ∀ c, s'.Lists c ↔ s.Lists c ∨ R c
  fresh : s.ListsFresh s'

/-- A successful run lists what `R` says. -/
def Gathers {α : Type} (action : Translate α) (R : Side × Expr → Prop) : Prop :=
  ∀ s a s', TranslationState.Recalls s → action.run.run s = (.ok a, s') → Gathered s s' R

namespace Gathers

variable {α β : Type} {R Q : Side × Expr → Prop}

/-- What an action gathers may be said in other words. -/
theorem congr {action : Translate α} (h : Gathers action R) (hRQ : ∀ c, Q c ↔ R c) :
    Gathers action Q := by
  intro s a s' hs hr
  obtain ⟨recalls, lists, fresh⟩ := h s a s' hs hr
  exact ⟨recalls, fun c => by rw [lists, hRQ], fresh⟩

theorem pure (a : α) : Gathers (Pure.pure a) fun _ => False := by
  intro s b s' hs hr
  obtain ⟨-, rfl⟩ := run_pure_eq_ok.mp hr
  exact ⟨hs, fun c => (or_false _).symm.to_iff, .refl _⟩

theorem throw (cause : RewriteError) : Gathers (MonadExcept.throw cause : Translate α) R :=
  fun _ _ _ _ hr => absurd hr run_throw_ne_ok

/-- A sequence gathers what its two actions gather. -/
theorem bind {action : Translate α} {next : α → Translate β} (ha : Gathers action R)
    (hn : ∀ a, Gathers (next a) Q) : Gathers (action >>= next) fun c => R c ∨ Q c := by
  intro s b s' hs hr
  obtain ⟨a, s₁, hr₁, hr₂⟩ := run_bind_eq_ok.mp hr
  obtain ⟨recalls, lists, fresh⟩ := ha s a s₁ hs hr₁
  obtain ⟨recalls', lists', fresh'⟩ := hn a s₁ b s' recalls hr₂
  exact ⟨recalls', fun c => by rw [lists', lists, or_assoc], fresh.trans fresh'⟩

/-- An action that lists nothing, before one that lists `R`. -/
theorem after {action : Translate α} {next : α → Translate β}
    (ha : Gathers action fun _ => False) (hn : ∀ a, Gathers (next a) R) :
    Gathers (action >>= next) R :=
  (ha.bind hn).congr fun _ => (false_or _).symm.to_iff

/-- An action that lists `R`, before one that lists nothing. -/
theorem before {action : Translate α} {next : α → Translate β}
    (ha : Gathers action R) (hn : ∀ a, Gathers (next a) fun _ => False) :
    Gathers (action >>= next) R :=
  (ha.bind hn).congr fun _ => (or_false _).symm.to_iff

end Gathers

/-- After `e` was registered, what was listed before and `e` are listed. -/
theorem mem_register {x e : Expr} {inputs : List Expr} :
    x ∈ (register e inputs).2 ↔ x ∈ inputs ∨ x = e := by
  refine ⟨mem_or_eq_of_mem_register, ?_⟩
  rintro (h | rfl)
  · exact (inputs_extend_register e inputs).subset h
  · exact List.mem_of_getElem? (getElem?_register x inputs)

/-- A registration adds at the end what was not listed: `e`, or nothing. -/
theorem exists_register_eq (e : Expr) (inputs : List Expr) :
    ∃ moved, (register e inputs).2 = inputs ++ moved ∧ ∀ x ∈ moved, x ∉ inputs := by
  unfold register
  split
  next h => exact ⟨[], (List.append_nil _).symm, nofun⟩
  next h =>
    refine ⟨[e], rfl, fun x hx => ?_⟩
    obtain rfl := List.mem_singleton.mp hx
    exact List.idxOf?_eq_none_iff.mp h

namespace Translate

variable {tag : BoundaryTag} {e : Expr}

/-- Listing more keeps what is recalled: the memory is the same, and what it asks for is still
listed. -/
theorem recalls_of_lists {s s' : TranslationState} (hs : s.Recalls) (hc : s'.costs = s.costs)
    (hk : s'.kernels = s.kernels) (h : ∀ c, s.Lists c → s'.Lists c) : s'.Recalls := by
  refine ⟨hc ▸ hs.costs, fun x k hx c hr => h c (hs.kernels x k ?_ c hr)⟩
  rw [← hk]
  exact hx

/-- A volume input is gathered on the interior side, and nothing else is. -/
theorem gathers_volumeInput (e : Expr) : Gathers (volumeInput e) (· = (.interior, e)) := by
  intro s k s' hs hr
  -- one list grows by `e`, the other is the same
  have lists (c : Side × Expr) :
      TranslationState.Lists { s with volume := (register e s.volume).2 } c
        ↔ s.Lists c ∨ c = (.interior, e) := by
    obtain ⟨side, x⟩ := c
    cases side with
    | interior =>
      rw [Prod.mk.injEq, and_iff_right rfl]
      exact mem_register
    | exterior => exact (or_iff_left nofun).symm
  cases hr
  exact ⟨recalls_of_lists hs rfl rfl fun c hc => (lists c).mpr (.inl hc), lists,
    exists_register_eq e s.volume⟩

/-- A boundary input is gathered on the exterior side, and nothing else is. -/
theorem gathers_boundaryInput (e : Expr) : Gathers (boundaryInput e) (· = (.exterior, e)) := by
  intro s k s' hs hr
  have lists (c : Side × Expr) :
      TranslationState.Lists { s with boundary := (register e s.boundary).2 } c
        ↔ s.Lists c ∨ c = (.exterior, e) := by
    obtain ⟨side, x⟩ := c
    cases side with
    | interior => exact (or_iff_left nofun).symm
    | exterior =>
      rw [Prod.mk.injEq, and_iff_right rfl]
      exact mem_register
  cases hr
  exact ⟨recalls_of_lists hs rfl rfl fun c hc => (lists c).mpr (.inl hc), lists,
    .of_volume_eq rfl⟩

/-- An input is what an expression reads that is not looked into. -/
theorem gathers_input {action : Translate Kernel} {c : Side × Expr} (ht : ¬e.IsTransparent)
    (hi : e.input? = some c) (h : Gathers action (· = c)) : Gathers action e.Reads :=
  h.congr fun c' => by
    rw [Expr.reads_iff_of_not_isTransparent ht, hi, Option.some.injEq]
    exact eq_comm

/-- What is named reads nothing. -/
theorem gathers_named {action : Translate Kernel} (ht : ¬e.IsTransparent) (hi : e.input? = none)
    (h : Gathers action fun _ => False) : Gathers action e.Reads :=
  h.congr fun c' => by
    rw [Expr.reads_iff_of_not_isTransparent ht, hi]
    exact ⟨nofun, False.elim⟩

theorem gathers_checkTag (carrier : TagCarrier) (found : BoundaryTag) :
    Gathers (checkTag tag carrier found) fun _ => False := by
  unfold checkTag
  split
  · exact Gathers.pure _
  · exact Gathers.throw _

/-- The translation of an application gathers the one input that it is. -/
theorem gathers_application (op : Operator) (field : Expr) :
    Gathers (application tag op field) (Expr.apply op field).Reads := by
  unfold application
  cases op with
  | restrict _ =>
    exact .after (gathers_checkTag _ _) fun _ => gathers_input id rfl (gathers_volumeInput field)
  | exchange _ _ | upsampleBoundary _ _ =>
    exact .after (gathers_checkTag _ _) fun _ => gathers_input id rfl (gathers_boundaryInput _)
  | upsample _ =>
    dsimp only
    cases evidentTag? field with
    | some _ =>
      exact .after (gathers_checkTag _ _) fun _ => gathers_input id rfl (gathers_boundaryInput _)
    | none => exact gathers_input id rfl (gathers_boundaryInput _)
  | _ => exact Gathers.throw _

theorem gathers_atom : (a : Atom) → Gathers (atom tag a) (Expr.atom a).Reads
  | .variable _ => gathers_input id rfl (gathers_boundaryInput _)
  | .normal _ _ _ =>
    gathers_named id rfl (.after (gathers_checkTag _ _) fun _ => Gathers.pure _)
  | .constant _ | .parameter _ => gathers_named id rfl (Gathers.pure _)
  | .kernelNormal _ | .coordinate _ _ | .ones _ | .jacobian _ | .forwardMetric _ _
  | .inverseMetric _ _ => Gathers.throw _

/-- A question about costs lists nothing, and its answer is the cost. -/
theorem gathers_isExpensive {next : Bool → Translate Kernel} {R : Side × Expr → Prop}
    (h : ∀ cost, e.cost = .ok cost → Gathers (next cost) R) :
    Gathers (isExpensive e >>= next) R := by
  intro s k s' hs hr
  obtain ⟨cost, s₁, hr₁, hr₂⟩ := run_bind_eq_ok.mp hr
  obtain ⟨answer, costs⟩ := answers_isExpensive e s.costs hs.costs
  have hcost : (e.isExpensive.run.run s.costs).1 = .ok cost := congrArg Prod.fst hr₁
  have state : { s with costs := (e.isExpensive.run.run s.costs).2 } = s₁ := congrArg Prod.snd hr₁
  have recalls : s₁.Recalls := state ▸ ⟨costs, hs.kernels⟩
  obtain ⟨recalls', lists, fresh⟩ := h cost (answer.symm.trans hcost) s₁ k s' recalls hr₂
  subst state
  exact ⟨recalls', lists, fresh⟩

/-- A common subexpression that was met before has its inputs listed, and one that is new lists
them. -/
theorem gathers_once {translation : Translate Kernel} (h : Gathers translation e.Reads) :
    Gathers (once e translation) e.Reads := by
  intro s k s' hs hr
  cases hm : s.kernels.get? e with
  | some found =>
    -- nothing is listed, and nothing need be: `Recalls` has it listed already
    cases (run_once_of_some translation hm).symm.trans hr
    exact ⟨hs, fun c => (or_iff_left_of_imp (hs.kernels e k hm c)).symm, .refl _⟩
  | none =>
    obtain ⟨kernel, s₁, hr₁, hr₂⟩ :=
      run_bind_eq_ok.mp ((run_once_of_none translation hm).symm.trans hr)
    obtain ⟨recalls, lists, fresh⟩ := h s kernel s₁ hs hr₁
    cases hr₂
    refine ⟨⟨recalls.costs, fun x k' hx c hc => ?_⟩, lists, fresh⟩
    -- the renewed memory holds `e`, whose inputs were just listed, and what it held before
    rcases Table.get?_insert_cases hx with ⟨rfl, -⟩ | ⟨-, hx⟩
    · exact (lists c).mpr (.inr hc)
    · exact recalls.kernels x k' hx c hc

/-- A node that is looked into gathers what it reads, if its operands, read one after the other,
gather `R` and `R` is what they read together. -/
theorem gathers_node {action : Translate Kernel} {R : Side × Expr → Prop} (ht : e.IsTransparent)
    (h : Gathers action R) (hR : ∀ c, R c ↔ ∃ x ∈ e.children, x.Reads c) :
    Gathers action e.Reads :=
  h.congr fun c => (Expr.reads_iff_of_isTransparent ht c).trans (hR c).symm

mutual
/-- The translation of an expression `e` gathers what `e` reads. -/
theorem gathers_expr : (e : Expr) → Gathers (expr tag e) e.Reads
  | .atom a => gathers_atom a
  | .subscript _ _ | .exchange _ _ _ => gathers_input id rfl (gathers_boundaryInput _)
  | .apply op field => gathers_application op field
  | .shared body label =>
    gathers_once (gathers_isExpensive fun cost hcost => by
      -- an expensive body makes the subexpression an input; else it is looked into
      cases cost with
      | true =>
        refine gathers_input (fun ht => nomatch hcost.symm.trans ht) ?_ (gathers_boundaryInput _)
        rw [Expr.input?, hcost]
      | false =>
        exact gathers_node hcost (gathers_expr body) fun c => by simp [Expr.children])
  | .sum es | .product es | .call _ es =>
    gathers_node trivial ((gathers_all es).before fun _ => Gathers.pure _) fun _ => Iff.rfl
  | .quotient a b | .power a b | .comparison a _ b =>
    gathers_node trivial ((gathers_expr a).bind fun _ => (gathers_expr b).before fun _ =>
      Gathers.pure _) fun c => by simp [Expr.children]
  | .conditional c a b | .ifPositive c a b =>
    gathers_node trivial ((gathers_expr c).bind fun _ => (gathers_expr a).bind fun _ =>
      (gathers_expr b).before fun _ => Gathers.pure _) fun c => by simp [Expr.children]
  | .pair _ _ _ | .array _ | .domainFlux _ _ => Gathers.throw _

/-- The same for several expressions. -/
theorem gathers_all : (es : List Expr) → Gathers (all tag es) fun c => ∃ e ∈ es, e.Reads c
  | [] => (Gathers.pure _).congr fun c => by simp
  | e :: es =>
    ((gathers_expr e).bind fun _ => (gathers_all es).before fun _ => Gathers.pure _).congr
      fun c => by simp
end

end Translate

/-! ## Pairs -/

variable {interior boundary : Expr} {tag : BoundaryTag} {ks : List Kernel}

/-- A pair that is translated has what its boundary components read listed beside its interior
components. -/
theorem gathered_translatePair (h : (translatePair .empty interior boundary tag).1 = .ok ks) :
    Gathered ⟨.empty, interior.components, [], .empty⟩ (translatePair .empty interior boundary tag).2
      fun c => ∃ e ∈ boundary.components, e.Reads c :=
  Translate.gathers_all boundary.components _ ks _
    ⟨CostMemory.valid_empty, nofun⟩ (Prod.ext h rfl)

/-- An input `c` of a pair that is translated is an interior component, or is read by a boundary
component. -/
theorem lists_translatePair (h : (translatePair .empty interior boundary tag).1 = .ok ks)
    (c : Side × Expr) :
    (translatePair .empty interior boundary tag).2.Lists c
      ↔ (c.1 = .interior ∧ c.2 ∈ interior.components) ∨ ∃ e ∈ boundary.components, e.Reads c := by
  refine ((gathered_translatePair h).lists c).trans (or_congr_left ?_)
  obtain ⟨side, x⟩ := c
  cases side with
  | interior => exact (and_iff_right rfl).symm
  | exterior => exact ⟨nofun, nofun⟩

/-- The volume inputs of a pair are its interior components and what restrictions that are inlined
in a boundary component restrict. -/
theorem mem_volume_iff (h : (translatePair .empty interior boundary tag).1 = .ok ks) {x : Expr} :
    x ∈ (translatePair .empty interior boundary tag).2.volume
      ↔ x ∈ interior.components
        ∨ ∃ e ∈ boundary.components, ∃ tag', Expr.Inlined (.apply (.restrict tag') x) e := by
  refine (lists_translatePair h (.interior, x)).trans (or_congr (and_iff_right rfl) ?_)
  refine exists_congr fun e => and_congr_right fun _ => ?_
  constructor
  · rintro ⟨y, hy, hi⟩
    obtain ⟨tag', rfl⟩ := Expr.exists_restrict_of_input? hi
    exact ⟨tag', hy⟩
  · rintro ⟨tag', hy⟩
    exact ⟨_, hy, rfl⟩

/-- The volume inputs start with the interior components; the others, `moved`, are not among these,
and are restricted. -/
theorem exists_moved_of_translatePair
    (h : (translatePair .empty interior boundary tag).1 = .ok ks) :
    ∃ moved, (translatePair .empty interior boundary tag).2.volume = interior.components ++ moved
      ∧ ∀ x ∈ moved, ∃ e ∈ boundary.components, ∃ tag', Expr.Inlined (.apply (.restrict tag') x) e := by
  obtain ⟨moved, hv, hm⟩ := (gathered_translatePair h).fresh
  refine ⟨moved, hv, fun x hx => ?_⟩
  rcases (mem_volume_iff h).mp (hv ▸ List.mem_append_right _ hx) with hc | he
  · exact absurd hc (hm x hx)
  · exact he

/-- The boundary inputs of a pair are what is inlined in a boundary component and stands for itself.
-/
theorem mem_boundary_iff (h : (translatePair .empty interior boundary tag).1 = .ok ks) {x : Expr} :
    x ∈ (translatePair .empty interior boundary tag).2.boundary
      ↔ ∃ e ∈ boundary.components, x.Inlined e ∧ x.input? = some (.exterior, x) := by
  refine (lists_translatePair h (.exterior, x)).trans ((or_iff_right nofun).trans ?_)
  refine exists_congr fun e => and_congr_right fun _ => ?_
  constructor
  · rintro ⟨y, hy, hi⟩
    obtain rfl := Expr.eq_of_input? hi
    exact ⟨hy, hi⟩
  · rintro ⟨hx, hi⟩
    exact ⟨x, hx, hi⟩

/-- Where the translation of a pair succeeds, all that is inlined in its boundary components has a
kernel. -/
theorem exists_kernel_of_translatePair (h : (translatePair .empty interior boundary tag).1 = .ok ks)
    {e x : Expr} (he : e ∈ boundary.components) (hx : x.Inlined e) :
    ∃ l, x.kernel tag = .ok l := by
  obtain ⟨ls, sources, -⟩ := exists_kernels_of_translatePair h
  obtain ⟨l, -, hl⟩ := exists_right_of_forall₂ sources he
  exact hx.exists_kernel hl

end OperatorTemplate
