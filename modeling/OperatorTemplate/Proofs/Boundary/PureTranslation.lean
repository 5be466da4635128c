import OperatorTemplate.Proofs.Boundary.MemoFree
import OperatorTemplate.Proofs.Kernel.Fields
/-!
# Translation without lists

`Expr.kernel` translates a boundary expression into a kernel that reads its fields by name: where
the translation of a pair lists an input and reads it by position, `Expr.kernel` reads the
expression itself.  It keeps no state.

A kernel `k` that reads by position *names* a kernel `l` that reads by name if `k`, read through the
lists of inputs, is `l` (`TranslationState.Names`).  The lists only grow at their ends (`Extends`),
so what a kernel names never changes (`Names.extend`).  A state is valid if its costs are right and
every kernel that it remembers for `e` names `e.kernel` (`Valid`).

The two translations say the same (`follows_expr`).  From a valid state the translation fails
exactly when `Expr.kernel` does, with the same error; else its kernel names the one that
`Expr.kernel` gives; and the state it ends in is valid and has longer lists.  These three are one
relation, `Follows`, which is carried through sequences (`Follows.bind`) and common subexpressions
(`follows_once`).

So a translation that is given one expression after the other, and goes on after failures, answers
each of them as `Expr.kernel` does, whatever came before it and whatever comes after it
(`agree_inTurn`).
-/

namespace OperatorTemplate

/-! ## The translation -/

namespace Expr

/-- A tag inside a boundary field has to be the tag of the pair. -/
def checkTag (expected : BoundaryTag) (carrier : TagCarrier) (found : BoundaryTag) :
    Except RewriteError Unit :=
  if found = expected then .ok () else .error (.tagMismatch carrier found expected)

/-- A tag that passes the check is the one that was expected. -/
theorem eq_of_checkTag {carrier : TagCarrier} {expected found : BoundaryTag}
    (h : checkTag expected carrier found = .ok ()) : found = expected := by
  unfold checkTag at h
  split at h
  next he => exact he
  next => nomatch h

/-- The kernel that reads an expression on the boundary. -/
def exterior (e : Expr) : KernelOver Expr := .component .exterior e

/-- The kernel of an application. -/
def kernelOfApplication (tag : BoundaryTag) (op : Operator) (field : Expr) :
    Except RewriteError (KernelOver Expr) :=
  match op with
  | .restrict found => do
    checkTag tag .restriction found
    return .component .interior field
  | .exchange _ rank => do
    checkTag tag .exchange (.rank rank)
    return exterior (.apply op field)
  | .upsampleBoundary _ found => do
    checkTag tag .boundaryUpsampler found
    return exterior (.apply op field)
  | .upsample _ => do
    match Translate.evidentTag? field with
    | some found => checkTag tag .upsampler found
    | none => pure ()
    return exterior (.apply op field)
  | _ => throw (.illegalOperator op (.apply op field))

/-- The kernel of an atom. -/
def kernelOfAtom (tag : BoundaryTag) (a : Atom) : Except RewriteError (KernelOver Expr) :=
  match a with
  | .constant value => return .constant value
  | .parameter name => return .parameter name
  | .variable _ => return exterior (.atom a)
  | .normal found axis _ => do
    checkTag tag .normal found
    return .normal axis
  | .kernelNormal _ => throw (.bareNormal (.atom a))
  | .coordinate _ _ | .ones _ | .jacobian _ | .forwardMetric _ _ | .inverseMetric _ _ =>
    throw (.unsupportedExpression (.atom a))

mutual
/-- The kernel that computes an expression of a boundary field, its fields read by name. -/
def kernel (tag : BoundaryTag) : Expr → Except RewriteError (KernelOver Expr)
  | .atom a => kernelOfAtom tag a
  | .subscript aggregate index => return exterior (.subscript aggregate index)
  | .exchange index rank arguments => return exterior (.exchange index rank arguments)
  | .apply op field => kernelOfApplication tag op field
  | .shared body label => do
    if ← body.cost then return exterior (.shared body label) else kernel tag body
  | .sum es => return .sumOf (← kernels tag es)
  | .product es => return .productOf (← kernels tag es)
  | .quotient a b => return .quotientOf (← kernel tag a) (← kernel tag b)
  | .power a b => return .power (← kernel tag a) (← kernel tag b)
  | .comparison a r b => return .comparison (← kernel tag a) r (← kernel tag b)
  | .conditional c a b =>
    return .conditionalOf (← kernel tag c) (← kernel tag a) (← kernel tag b)
  | .ifPositive c a b =>
    return .conditionalOf (.comparison (← kernel tag c) .gt .zero) (← kernel tag a)
      (← kernel tag b)
  | .call f es => return .call f (← kernels tag es)
  | .pair a b t => throw (.unsupportedExpression (.pair a b t))
  | .array es => throw (.unsupportedExpression (.array es))
  | .domainFlux is bs => throw (.unsupportedExpression (.domainFlux is bs))

/-- The kernels of several expressions, from left to right. -/
def kernels (tag : BoundaryTag) : List Expr → Except RewriteError (List (KernelOver Expr))
  | [] => pure []
  | e :: es => do
    let k ← kernel tag e
    let ks ← kernels tag es
    return k :: ks
end

/-- The kernels of several expressions are the kernel of each, in order. -/
theorem forall₂_of_kernels {tag : BoundaryTag} : {es : List Expr} → {ls : List (KernelOver Expr)} →
    kernels tag es = .ok ls → List.Forall₂ (fun e l => e.kernel tag = .ok l) es ls
  | [], _, h => by
    cases h
    exact .nil
  | e :: es, _, h => by
    obtain ⟨l, hl, h⟩ := bind_eq_ok.mp h
    obtain ⟨ls, hls, h⟩ := bind_eq_ok.mp h
    cases h
    exact .cons hl (forall₂_of_kernels hls)

end Expr

/-! ## What positions name -/

/-- A registration leaves a list as it is, or adds to its end. -/
theorem inputs_extend_register (e : Expr) (inputs : List Expr) : inputs <+: (register e inputs).2 := by
  unfold register
  split
  · exact List.prefix_rfl
  · exact List.prefix_append inputs [e]

/-- At the position that a registration of `e` answers, the list that it leaves has `e`. -/
theorem getElem?_register (e : Expr) (inputs : List Expr) :
    (register e inputs).2[(register e inputs).1]? = some e := by
  unfold register
  split
  next index h =>
    obtain ⟨hlt, he, -⟩ := List.findIdx?_eq_some_iff_getElem.mp h
    rw [List.getElem?_eq_getElem hlt, beq_iff_eq.mp he]
  next =>
    rw [List.getElem?_append_right (Nat.le_refl _), Nat.sub_self]
    rfl

namespace TranslationState

variable {s s' s'' : TranslationState} {tag : BoundaryTag}

/-- The input at a position, on one side. -/
def input? (s : TranslationState) : Side → Nat → Option Expr
  | .interior, index => s.volume[index]?
  | .exterior, index => s.boundary[index]?

/-- The lists of inputs grow at their ends. -/
structure Extends (s s' : TranslationState) : Prop where
  volume : s.volume <+: s'.volume
  boundary : s.boundary <+: s'.boundary

theorem Extends.refl (s : TranslationState) : Extends s s := ⟨List.prefix_rfl, List.prefix_rfl⟩

theorem Extends.trans (h : Extends s s') (h' : Extends s' s'') : Extends s s'' :=
  ⟨h.volume.trans h'.volume, h.boundary.trans h'.boundary⟩

/-- What stands at a position of the shorter lists stands there in the longer ones. -/
theorem Extends.input? (h : Extends s s') {side : Side} {index : Nat} {e : Expr}
    (he : s.input? side index = some e) : s'.input? side index = some e := by
  cases side with
  | interior => exact getElem?_of_prefix h.volume he
  | exterior => exact getElem?_of_prefix h.boundary he

/-- Read through the lists of inputs, `k` is `l`. -/
def Names (s : TranslationState) (k : Kernel) (l : KernelOver Expr) : Prop :=
  k.mapFields s.input? = l.mapFields fun _ e => some e

/-- Each field of a kernel with names is listed: at the position that `k` reads stands an expression
that `l` reads by name. -/
theorem Names.exists_input {k : Kernel} {l : KernelOver Expr} (h : s.Names k l) {c : Side × Nat}
    (hc : c ∈ k.components) : ∃ e, (c.1, e) ∈ l.components ∧ s.input? c.1 c.2 = some e :=
  KernelOver.exists_of_mapFields_eq h hc

/-- What a kernel names it names through longer lists. -/
theorem Names.extend {k : Kernel} {l : KernelOver Expr} (h : s.Names k l) (hs : Extends s s') :
    s'.Names k l := by
  refine Eq.trans (KernelOver.mapFields_congr k fun c hc => ?_) h
  -- only positions that `k` reads matter, and these are listed
  obtain ⟨e, -, he⟩ := h.exists_input hc
  rw [he, hs.input? he]

/-- What a translation remembers is right. -/
structure Valid (tag : BoundaryTag) (s : TranslationState) : Prop where
  costs : s.costs.Valid
  kernels : ∀ e k, s.kernels.get? e = some k → ∃ l, e.kernel tag = .ok l ∧ s.Names k l

/-- At the start nothing is remembered of kernels. -/
theorem valid_start {costs : CostMemory} (h : costs.Valid) (volume : List Expr) :
    Valid tag { costs, volume } :=
  ⟨h, fun _ _ h => (by nomatch h)⟩

end TranslationState

/-! ## Following -/

/-- Two answers that are both errors, the same one, or both successes, which `R` relates. -/
inductive Agree {ε α β : Type} (R : α → β → Prop) : Except ε α → Except ε β → Prop
  | error (cause : ε) : Agree R (.error cause) (.error cause)
  | ok {a : α} {b : β} (h : R a b) : Agree R (.ok a) (.ok b)

/-- Agreement in a stronger relation of successes is agreement in a weaker one. -/
theorem Agree.mono {ε α β : Type} {R Q : α → β → Prop} (hRQ : ∀ a b, R a b → Q a b)
    {x : Except ε α} {y : Except ε β} (h : Agree R x y) : Agree Q x y := by
  cases h with
  | error cause => exact .error cause
  | ok h => exact .ok (hRQ _ _ h)

/-- From `s` the translation agrees with `answer`, extends the lists of inputs and remembers what is
right. -/
structure Follows {α β : Type} (tag : BoundaryTag) (s : TranslationState) (action : Translate α)
    (answer : Except RewriteError β) (R : TranslationState → α → β → Prop) : Prop where
  extend : s.Extends (action.run.run s).2
  valid : (action.run.run s).2.Valid tag
  agree : Agree (R (action.run.run s).2) (action.run.run s).1 answer

namespace Follows

open TranslationState (Extends Names)

variable {α β γ δ : Type} {tag : BoundaryTag} {s : TranslationState}

/-- Returning `a` follows the answer `b` if `R` relates them in the state `s`. -/
theorem pure (h : s.Valid tag) {R : TranslationState → α → β → Prop} {a : α} {b : β}
    (hR : R s a b) : Follows tag s (Pure.pure a) (.ok b) R :=
  ⟨.refl s, h, .ok hR⟩

theorem throw (h : s.Valid tag) {R : TranslationState → α → β → Prop} (cause : RewriteError) :
    Follows tag s (MonadExcept.throw cause) (.error cause) R :=
  ⟨.refl s, h, .error cause⟩

/-- A sequence follows a sequence of answers if the first action follows the first answer and, for
related successes `a` and `b`, the rest follows from any valid state with longer lists. -/
theorem bind {action : Translate α} {answer : Except RewriteError β}
    {R : TranslationState → α → β → Prop} {next : α → Translate γ}
    {answers : β → Except RewriteError δ} {Q : TranslationState → γ → δ → Prop}
    (ha : Follows tag s action answer R)
    (hn : ∀ a b s', s.Extends s' → s'.Valid tag → answer = .ok b → R s' a b →
      Follows tag s' (next a) (answers b) Q) :
    Follows tag s (action >>= next) (answer >>= answers) Q := by
  obtain ⟨hs, hv, hr⟩ := ha
  suffices h : ∀ r, action.run.run s = r → Follows tag s (action >>= next) (answer >>= answers) Q from
    h _ rfl
  rintro ⟨result, s'⟩ hrun
  have run : (action >>= next).run.run s
      = match result with
        | .ok a => (next a).run.run s'
        | .error cause => (.error cause, s') := by
    simp only [ExceptT.run_bind, StateT.run_bind, hrun]
    cases result <;> rfl
  rw [hrun] at hs hv hr
  -- both sides fail with the same error, or both go on
  cases hr with
  | error cause => exact ⟨by rw [run]; exact hs, by rw [run]; exact hv, by rw [run]; exact .error cause⟩
  | ok h =>
    obtain ⟨hs', hv', hr'⟩ := hn _ _ s' hs hv rfl h
    exact ⟨by rw [run]; exact hs.trans hs', by rw [run]; exact hv', by rw [run]; exact hr'⟩

end Follows

namespace Translate

open TranslationState (Extends Names)

variable {tag : BoundaryTag} {s : TranslationState}

/-! ## Leaves -/

/-- To list a volume input follows reading it by name: the position that is answered has it. -/
theorem follows_volumeInput (h : s.Valid tag) (e : Expr) :
    Follows tag s (volumeInput e) (.ok (.component .interior e)) Names := by
  have grown : s.Extends { s with volume := (register e s.volume).2 } :=
    ⟨inputs_extend_register e s.volume, List.prefix_rfl⟩
  refine ⟨grown, ⟨h.costs, fun x k hx => ?_⟩, .ok ?_⟩
  · obtain ⟨l, hl, hk⟩ := h.kernels x k hx
    exact ⟨l, hl, hk.extend grown⟩
  · exact congrArg (KernelOver.component .interior) (getElem?_register e s.volume)

theorem follows_boundaryInput (h : s.Valid tag) (e : Expr) :
    Follows tag s (boundaryInput e) (.ok e.exterior) Names := by
  have grown : s.Extends { s with boundary := (register e s.boundary).2 } :=
    ⟨List.prefix_rfl, inputs_extend_register e s.boundary⟩
  refine ⟨grown, ⟨h.costs, fun x k hx => ?_⟩, .ok ?_⟩
  · obtain ⟨l, hl, hk⟩ := h.kernels x k hx
    exact ⟨l, hl, hk.extend grown⟩
  · exact congrArg (KernelOver.component .exterior) (getElem?_register e s.boundary)

/-- A question about costs follows `Expr.cost`, and touches neither lists nor kernels. -/
theorem follows_isExpensive (h : s.Valid tag) (e : Expr) :
    Follows tag s (isExpensive e) e.cost fun _ => Eq := by
  obtain ⟨answer, costs⟩ := answers_isExpensive e s.costs h.costs
  refine ⟨⟨List.prefix_rfl, List.prefix_rfl⟩, ⟨costs, h.kernels⟩, ?_⟩
  show Agree Eq (e.isExpensive.run.run s.costs).1 e.cost
  rw [answer]
  cases e.cost with
  | error cause => exact .error cause
  | ok cost => exact .ok rfl

theorem follows_checkTag (h : s.Valid tag) (carrier : TagCarrier) (found : BoundaryTag) :
    Follows tag s (checkTag tag carrier found) (Expr.checkTag tag carrier found) fun _ => Eq := by
  unfold checkTag Expr.checkTag
  split
  · exact Follows.pure h rfl
  · exact Follows.throw h _

/-- A check before an input does not touch the input. -/
theorem follows_checked {check : Translate Unit} {answer : Except RewriteError Unit}
    {action : Translate Kernel} {l : KernelOver Expr}
    (hc : Follows tag s check answer fun _ => Eq)
    (ha : ∀ s', TranslationState.Valid tag s' → Follows tag s' action (.ok l) Names) :
    Follows tag s (check >>= fun _ => action) (answer >>= fun _ => pure l) Names :=
  Follows.bind hc fun _ _ s' _ hs' _ _ => ha s' hs'

/-- The translation of an application follows `Expr.kernelOfApplication`: the same checks, in the
same order, and then the same input. -/
theorem follows_application (h : s.Valid tag) (op : Operator) (field : Expr) :
    Follows tag s (application tag op field) (Expr.kernelOfApplication tag op field) Names := by
  have boundary (s' : TranslationState) (hs' : s'.Valid tag) :
      Follows tag s' (boundaryInput (.apply op field)) (.ok (Expr.exterior (.apply op field))) Names :=
    follows_boundaryInput hs' _
  unfold application Expr.kernelOfApplication
  cases op with
  | restrict _ =>
    exact follows_checked (follows_checkTag h _ _) fun s' hs' => follows_volumeInput hs' field
  | exchange _ _ | upsampleBoundary _ _ => exact follows_checked (follows_checkTag h _ _) boundary
  | upsample _ =>
    dsimp only at boundary ⊢
    cases evidentTag? field with
    | some found => exact follows_checked (follows_checkTag h _ _) boundary
    | none => exact boundary s h
  | _ => exact Follows.throw h _

theorem follows_atom (h : s.Valid tag) :
    (a : Atom) → Follows tag s (atom tag a) (Expr.kernelOfAtom tag a) Names
  | .variable _ => follows_boundaryInput h _
  | .normal _ _ _ =>
    Follows.bind (follows_checkTag h _ _) fun _ _ _ _ hs' _ _ => Follows.pure hs' rfl
  | .constant _ | .parameter _ => Follows.pure h rfl
  | .kernelNormal _ | .coordinate _ _ | .ones _ | .jacobian _ | .forwardMetric _ _
  | .inverseMetric _ _ => Follows.throw h _

/-- A common subexpression follows `Expr.kernel`, be its kernel remembered or new. -/
theorem follows_once (h : s.Valid tag) {e : Expr} {translation : Translate Kernel}
    (ht : Follows tag s translation (e.kernel tag) Names) :
    Follows tag s (once e translation) (e.kernel tag) Names := by
  cases hm : s.kernels.get? e with
  | some k =>
    -- the remembered kernel has its names, by validity
    obtain ⟨l, hl, hk⟩ := h.kernels e k hm
    have run := run_once_of_some translation hm
    rw [hl]
    exact ⟨by rw [run]; exact .refl s, by rw [run]; exact h, by rw [run]; exact .ok hk⟩
  | none =>
    have renewed : Follows tag s (do
        let kernel ← translation
        modify fun s => { s with kernels := s.kernels.insert e kernel }
        return kernel) (e.kernel tag) Names := by
      rw [← bind_pure (e.kernel tag)]
      refine Follows.bind ht fun k l s' _ hs' hl hk => ?_
      refine ⟨⟨List.prefix_rfl, List.prefix_rfl⟩, ⟨hs'.costs, fun x k' hx => ?_⟩, .ok hk⟩
      -- what is in memory now is the new kernel or was there before
      rcases Table.get?_insert_cases hx with ⟨rfl, rfl⟩ | ⟨-, hx⟩
      · exact ⟨l, hl, hk⟩
      · exact hs'.kernels x k' hx
    have run := run_once_of_none translation hm
    exact ⟨by rw [run]; exact renewed.extend, by rw [run]; exact renewed.valid,
      by rw [run]; exact renewed.agree⟩

/-! ## Nodes -/

/-- Kernels with names, one by one. -/
abbrev AllName (s : TranslationState) : List Kernel → List (KernelOver Expr) → Prop :=
  List.Forall₂ s.Names

/-- Kernels with names, one by one, read through the lists, are their names. -/
theorem names_map {ks : List Kernel} {ls : List (KernelOver Expr)} (h : AllName s ks ls) :
    ks.map (KernelOver.mapFields s.input?) = ls.map (KernelOver.mapFields fun _ e => some e) := by
  induction h with
  | nil => rfl
  | cons h _ ih => rw [List.map_cons, List.map_cons, ih, h]

/-- The folded sum of kernels names the folded sum of what they name, for names do not matter to
folding.  The same holds of the other constructors. -/
theorem names_sumOf {ks : List Kernel} {ls : List (KernelOver Expr)} (h : AllName s ks ls) :
    s.Names (.sumOf ks) (.sumOf ls) := by
  rw [Names, KernelOver.mapFields_sumOf, KernelOver.mapFields_sumOf, names_map h]

theorem names_productOf {ks : List Kernel} {ls : List (KernelOver Expr)} (h : AllName s ks ls) :
    s.Names (.productOf ks) (.productOf ls) := by
  rw [Names, KernelOver.mapFields_productOf, KernelOver.mapFields_productOf, names_map h]

theorem names_call {ks : List Kernel} {ls : List (KernelOver Expr)} (h : AllName s ks ls)
    (f : String) : s.Names (.call f ks) (.call f ls) := by
  rw [Names, KernelOver.mapFields, KernelOver.mapFields, KernelOver.mapFieldsAll_eq_map,
    KernelOver.mapFieldsAll_eq_map, names_map h]

theorem names_quotientOf {a b : Kernel} {x y : KernelOver Expr} (ha : s.Names a x)
    (hb : s.Names b y) : s.Names (.quotientOf a b) (.quotientOf x y) := by
  rw [Names, KernelOver.mapFields_quotientOf, KernelOver.mapFields_quotientOf, ha, hb]

theorem names_power {a b : Kernel} {x y : KernelOver Expr} (ha : s.Names a x)
    (hb : s.Names b y) : s.Names (.power a b) (.power x y) :=
  congrArg₂ KernelOver.power ha hb

theorem names_comparison {a b : Kernel} {x y : KernelOver Expr} (ha : s.Names a x)
    (r : Relation) (hb : s.Names b y) : s.Names (.comparison a r b) (.comparison x r y) :=
  congrArg₂ (KernelOver.comparison · r ·) ha hb

theorem names_conditionalOf {c a b : Kernel} {z x y : KernelOver Expr} (hc : s.Names c z)
    (ha : s.Names a x) (hb : s.Names b y) :
    s.Names (.conditionalOf c a b) (.conditionalOf z x y) := by
  rw [Names, KernelOver.mapFields_conditionalOf, KernelOver.mapFields_conditionalOf, hc, ha, hb]

mutual
/-- From a valid state the translation of an expression follows `Expr.kernel`.  One case for each
constructor; kernels of earlier operands keep their names while later operands are translated. -/
theorem follows_expr {s : TranslationState} (h : s.Valid tag) :
    (e : Expr) → Follows tag s (expr tag e) (e.kernel tag) Names
  | .atom a => follows_atom h a
  | .subscript _ _ | .exchange _ _ _ => follows_boundaryInput h _
  | .apply op field => follows_application h op field
  | .shared body label =>
    follows_once h (Follows.bind (follows_isExpensive h body) fun cost _ s' _ hs' _ hcost => by
      subst hcost
      -- an expensive body makes the subexpression an input; else the body is translated
      cases cost with
      | true => exact follows_boundaryInput hs' _
      | false => exact follows_expr hs' body)
  | .sum es =>
    Follows.bind (follows_all h es) fun _ _ _ _ hs' _ hks => Follows.pure hs' (names_sumOf hks)
  | .product es =>
    Follows.bind (follows_all h es) fun _ _ _ _ hs' _ hks => Follows.pure hs' (names_productOf hks)
  | .call f es =>
    Follows.bind (follows_all h es) fun _ _ _ _ hs' _ hks => Follows.pure hs' (names_call hks f)
  | .quotient a b =>
    Follows.bind (follows_expr h a) fun _ _ _ _ h₁ _ ha =>
      Follows.bind (follows_expr h₁ b) fun _ _ _ e₂ h₂ _ hb =>
        Follows.pure h₂ (names_quotientOf (ha.extend e₂) hb)
  | .power a b =>
    Follows.bind (follows_expr h a) fun _ _ _ _ h₁ _ ha =>
      Follows.bind (follows_expr h₁ b) fun _ _ _ e₂ h₂ _ hb =>
        Follows.pure h₂ (names_power (ha.extend e₂) hb)
  | .comparison a r b =>
    Follows.bind (follows_expr h a) fun _ _ _ _ h₁ _ ha =>
      Follows.bind (follows_expr h₁ b) fun _ _ _ e₂ h₂ _ hb =>
        Follows.pure h₂ (names_comparison (ha.extend e₂) r hb)
  | .conditional c a b =>
    Follows.bind (follows_expr h c) fun _ _ _ _ h₁ _ hc =>
      Follows.bind (follows_expr h₁ a) fun _ _ _ e₂ h₂ _ ha =>
        Follows.bind (follows_expr h₂ b) fun _ _ _ e₃ h₃ _ hb =>
          Follows.pure h₃ (names_conditionalOf (hc.extend (e₂.trans e₃)) (ha.extend e₃) hb)
  | .ifPositive c a b =>
    Follows.bind (follows_expr h c) fun _ _ _ _ h₁ _ hc =>
      Follows.bind (follows_expr h₁ a) fun _ _ _ e₂ h₂ _ ha =>
        Follows.bind (follows_expr h₂ b) fun _ _ _ e₃ h₃ _ hb =>
          Follows.pure h₃ (names_conditionalOf
            (names_comparison (hc.extend (e₂.trans e₃)) .gt rfl) (ha.extend e₃) hb)
  | .pair _ _ _ | .array _ | .domainFlux _ _ => Follows.throw h _

/-- The same for several expressions. -/
theorem follows_all {s : TranslationState} (h : s.Valid tag) :
    (es : List Expr) → Follows tag s (all tag es) (Expr.kernels tag es) AllName
  | [] => Follows.pure h .nil
  | e :: es =>
    Follows.bind (follows_expr h e) fun _ _ _ _ h₁ _ hk =>
      Follows.bind (follows_all h₁ es) fun _ _ _ e₂ h₂ _ hks =>
        Follows.pure h₂ (.cons (hk.extend e₂) hks)
end

end Translate

/-! ## Pairs -/

/-- The translation of a pair from any valid memory of costs: it agrees with the kernels by name,
and its volume inputs start with the interior components. -/
theorem follows_translatePair {costs : CostMemory} (h : costs.Valid) (interior boundary : Expr)
    (tag : BoundaryTag) :
    Agree (Translate.AllName (translatePair costs interior boundary tag).2)
        (translatePair costs interior boundary tag).1 (Expr.kernels tag boundary.components)
      ∧ interior.components <+: (translatePair costs interior boundary tag).2.volume := by
  have start : TranslationState.Valid tag { costs, volume := interior.components } :=
    TranslationState.valid_start h _
  have follows := Translate.follows_all start boundary.components
  exact ⟨follows.agree, follows.extend.volume⟩

/-- A pair that is translated has a kernel by name for each boundary component, and the kernels by
position name these. -/
theorem exists_kernels_of_translatePair {interior boundary : Expr} {tag : BoundaryTag}
    {ks : List Kernel} (h : (translatePair .empty interior boundary tag).1 = .ok ks) :
    ∃ ls, List.Forall₂ (fun e l => e.kernel tag = .ok l) boundary.components ls
      ∧ Translate.AllName (translatePair .empty interior boundary tag).2 ks ls := by
  have agree := (follows_translatePair CostMemory.valid_empty interior boundary tag).1
  rw [h] at agree
  generalize hls : Expr.kernels tag boundary.components = answer at agree
  cases agree with
  | ok names => exact ⟨_, Expr.forall₂_of_kernels hls, names⟩

/-! ## Expressions in turn -/

namespace CostMemory

/-- What is remembered of costs once some expressions have been asked about, in order.  A question
that fails leaves what was learnt on the way. -/
def afterAsking (asked : List Expr) : CostMemory :=
  asked.foldl (fun costs e => (e.isExpensive.run.run costs).2) .empty

/-- Whatever was asked, the costs that are remembered are right. -/
theorem valid_afterAsking (asked : List Expr) : (afterAsking asked).Valid := by
  suffices run : ∀ costs : CostMemory, costs.Valid →
      (asked.foldl (fun costs e => (e.isExpensive.run.run costs).2) costs).Valid from
    run .empty valid_empty
  induction asked with
  | nil => exact fun _ h => h
  | cons e asked ih => exact fun costs h => ih _ (answers_isExpensive e costs h).2

end CostMemory

namespace Translate

variable {tag : BoundaryTag}

/-- Translates expressions one after the other with what was gathered so far, and goes on after
failures. -/
def inTurn (tag : BoundaryTag) (es : List Expr) :
    StateM TranslationState (List (Except RewriteError Kernel)) :=
  es.mapM fun e => (expr tag e).run

/-- Expressions in turn end where the later ones end, started from where the first ended. -/
theorem run_inTurn_cons (e : Expr) (es : List Expr) (s : TranslationState) :
    ((inTurn tag (e :: es)).run s).2 = ((inTurn tag es).run ((expr tag e).run.run s).2).2 := by
  rw [inTurn, List.mapM_cons]
  rfl

/-- The answer for the first expression comes before those for the later ones, which start from
where the first ended. -/
theorem answered_inTurn_cons (e : Expr) (es : List Expr) (s : TranslationState) :
    ((inTurn tag (e :: es)).run s).1
      = ((expr tag e).run.run s).1 :: ((inTurn tag es).run ((expr tag e).run.run s).2).1 := by
  rw [inTurn, List.mapM_cons]
  rfl

/-- Expressions in turn make the lists of inputs grow, and from a valid state they end in a valid
one. -/
theorem run_inTurn : (es : List Expr) → {s : TranslationState} → s.Valid tag →
    s.Extends ((inTurn tag es).run s).2 ∧ ((inTurn tag es).run s).2.Valid tag
  | [], s, hs => ⟨.refl s, hs⟩
  | e :: es, s, hs => by
    have first := follows_expr hs e
    obtain ⟨grown, valid⟩ := run_inTurn es first.valid
    rw [run_inTurn_cons]
    exact ⟨first.extend.trans grown, valid⟩

/-- Whatever volume inputs a translation starts with, whatever was asked about costs, and whatever
expressions, successes and failures, come before `e` and after it: `e` is answered as `Expr.kernel`
answers it, with the same error or with a kernel that has its names in the lists of inputs at the
end. -/
theorem agree_inTurn (tag : BoundaryTag) (asked volume earlier later : List Expr) (e : Expr) :
    let before := ((inTurn tag earlier).run { costs := .afterAsking asked, volume }).2
    let answer := (expr tag e).run.run before
    let after := ((inTurn tag later).run answer.2).2
    Agree after.Names answer.1 (e.kernel tag) := by
  intro before answer after
  have start : TranslationState.Valid tag { costs := .afterAsking asked, volume } :=
    TranslationState.valid_start (CostMemory.valid_afterAsking asked) volume
  have follows := follows_expr (run_inTurn earlier start).2 e
  have grown : answer.2.Extends after := (run_inTurn later follows.valid).1
  exact follows.agree.mono fun _ _ names => names.extend grown

end Translate

end OperatorTemplate
