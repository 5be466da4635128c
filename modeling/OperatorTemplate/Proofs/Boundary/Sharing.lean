import OperatorTemplate.Proofs.Boundary.Arithmetic
import OperatorTemplate.Proofs.Boundary.FaceTypes
/-!
# Common subexpressions in a translation

A common subexpression is evaluated once, whatever it holds; that is why its cost does not count in
what stands above it.  The translation relies on this in two ways.

An expression that applies a costly operator becomes a boundary input of its own only where it
stands below arithmetic alone (`Inlined.unshared`).  The crux is that a translation stops where the
cost does: it looks into a common subexpression if the body is cheap, and the body of one that holds
the operator below arithmetic is not (`Unshared.cost`), however deep common subexpressions are
nested.

And all translations of a common subexpression within one run give the same kernel.  It is in memory
from the first one on (`stable_remembered`).  What the memory holds is closed: if the kernel of an
expression is there, so are the kernels of all common subexpressions inlined in it (`Closed`).  A
run keeps this, and in the end covers what it has translated (`covers_expr`).  To speak of the
translations on the way, `Visits` gives the states from which a run translates an expression; what
each of them answers is what is in memory when the run is over (`Visits.remembered`).

`Translate.shares_all` puts all of this together for the components of a boundary field.
-/

namespace OperatorTemplate

namespace Expr

variable {e x : Expr}

/-! ## Costly operators -/

/-- An application of a costly operator, or the result of an exchange. -/
inductive IsCostly : Expr → Prop
  | exchange (index rank : Nat) (field : Expr) : IsCostly (.apply (.exchange index rank) field)
  | upsample (grid : QuadratureTag) (field : Expr) : IsCostly (.apply (.upsample grid) field)
  | upsampleInteriorFaces (grid : QuadratureTag) (field : Expr) :
    IsCostly (.apply (.upsampleInteriorFaces grid) field)
  | upsampleBoundary (grid : QuadratureTag) (tag : BoundaryTag) (field : Expr) :
    IsCostly (.apply (.upsampleBoundary grid tag) field)
  | exchanged (index rank : Nat) (arguments : List Expr) : IsCostly (.exchange index rank arguments)

/-- A costly operator makes an expression expensive, whatever it is applied to. -/
theorem IsCostly.cost (h : x.IsCostly) : x.cost = .ok true := by
  rw [cost_eq]
  cases h <;> rfl

/-- `x` stands in `e` below arithmetic alone, and so in no common subexpression. -/
inductive Unshared (x : Expr) : Expr → Prop
  | self : Unshared x x
  | operand {c e : Expr} (he : e.IsArithmetic) (hc : c ∈ e.children) (h : Unshared x c) :
    Unshared x e

/-- The cost of arithmetic is that of its operands. -/
theorem isCompound_of_isArithmetic (h : e.IsArithmetic) : e.IsCompound := by
  cases h <;> trivial

/-- If the cost of the list `es`, started from `cost`, is `result`, then `result` is expensive as
soon as `cost` is, or one of `es`. -/
theorem costAfter_of_expensive {es : List Expr} {cost result : Bool}
    (h : costAfter cost es = .ok result) :
    (cost = true → result = true) ∧ ∀ x ∈ es, ∃ c, x.cost = .ok c ∧ (c = true → result = true) := by
  induction es generalizing cost with
  | nil =>
    cases h
    exact ⟨id, nofun⟩
  | cons e es ih =>
    obtain ⟨c, hc, h⟩ := costAfter_cons.mp h
    obtain ⟨first, rest⟩ := ih h
    refine ⟨fun hcost => first (by simp [hcost]), ?_⟩
    intro x hx
    rcases List.mem_cons.mp hx with rfl | hx
    · exact ⟨c, hc, fun hct => first (by simp [hct])⟩
    · exact rest x hx

/-- If `x` is expensive and stands in `e` below arithmetic alone, then `e` is expensive. -/
theorem Unshared.cost (h : Unshared x e) (hx : x.cost = .ok true) {result : Bool}
    (he : e.cost = .ok result) : result = true := by
  induction h generalizing result with
  | self => exact Except.ok.inj (he.symm.trans hx)
  | operand ha hc _ ih =>
    rw [cost_of_isCompound (isCompound_of_isArithmetic ha)] at he
    obtain ⟨cost, hcost, raised⟩ := (costAfter_of_expensive he).2 _ hc
    exact raised (ih hcost)

/-- If `x` is expensive and inlined in `e`, it stands there below arithmetic alone. -/
theorem Inlined.unshared (h : Inlined x e) (hx : x.cost = .ok true) : Unshared x e := by
  induction h with
  | self => exact .self
  | operand ht hc _ ih =>
    -- the node above is arithmetic, or a common subexpression with a cheap body; but the body is
    -- not cheap
    rcases isTransparent_iff.mp ht with ha | ⟨body, label, rfl, cheap⟩
    · exact .operand ha hc ih
    · obtain rfl := List.mem_singleton.mp hc
      nomatch ih.cost hx cheap

end Expr

namespace TranslationState

variable {s s' : TranslationState} {e x : Expr}

/-! ## What is remembered -/

/-- The kernel of a common subexpression is in memory. -/
def Remembers (s : TranslationState) (e : Expr) : Prop := ∃ k, s.kernels.get? e = some k

/-- The kernels of all common subexpressions that are inlined in `e` are in memory. -/
def Covers (s : TranslationState) (e : Expr) : Prop :=
  ∀ body label, Expr.Inlined (.shared body label) e → s.Remembers (.shared body label)

/-- Whatever is in memory is there with the common subexpressions inlined in it, and what is
remembered about costs is true. -/
structure Closed (s : TranslationState) : Prop where
  costs : s.costs.Valid
  kernels : ∀ e, s.Remembers e → s.Covers e

/-- What is covered stays covered when more is remembered. -/
theorem Covers.mono (h : s.Covers e) (hs : ∀ x, s.Remembers x → s'.Remembers x) : s'.Covers e :=
  fun body label hx => hs _ (h body label hx)

/-- A state that has remembered the kernel of `e` remembers `e` and what it remembered before. -/
theorem remembers_insert (s : TranslationState) (e : Expr) (k : Kernel) :
    TranslationState.Remembers { s with kernels := s.kernels.insert e k } x
      ↔ x = e ∨ s.Remembers x := by
  by_cases hxe : x = e
  · subst hxe
    exact ⟨fun _ => .inl rfl, fun _ => ⟨k, Table.get?_insert_self _ _ _⟩⟩
  · have same : (s.kernels.insert e k).get? x = s.kernels.get? x := Table.get?_insert_of_ne _ hxe _
    refine ⟨fun ⟨k', hk⟩ => .inr ⟨k', same.symm.trans hk⟩, ?_⟩
    rintro (h | ⟨k', hk⟩)
    · exact absurd h hxe
    · exact ⟨k', same.trans hk⟩

/-- The kernel of `e` may be remembered once what is inlined in `e` is. -/
theorem Closed.insert (h : s.Closed) (k : Kernel)
    (he : TranslationState.Covers { s with kernels := s.kernels.insert e k } e) :
    TranslationState.Closed { s with kernels := s.kernels.insert e k } := by
  refine ⟨h.costs, fun x hx => ?_⟩
  rcases (remembers_insert s e k).mp hx with rfl | hx
  · exact he
  · exact (h.kernels x hx).mono fun _ hy => (remembers_insert s e k).mpr (.inr hy)

end TranslationState

namespace Translate

open TranslationState (Remembers Covers Closed)

variable {tag : BoundaryTag} {e x c : Expr} {k : Kernel} {s s' t : TranslationState}

/-- The kernel `k` of `x` stays in memory, whatever is listed, asked about costs, or remembered: the
memory is written for expressions that are not in it. -/
theorem stable_remembered (x : Expr) (k : Kernel) :
    Stable (fun _ => True) fun s => s.kernels.get? x = some k where
  volume _ _ _ h := h
  boundary _ _ _ h := h
  costs _ _ h := h
  once := by
    intro e translation ht s hs
    cases hm : s.kernels.get? e with
    | some found =>
      rw [run_once_of_some translation hm]
      exact hs
    | none =>
      -- `x` is in memory and `e` is not
      have hne : x ≠ e := by
        rintro rfl
        nomatch hs.symm.trans hm
      rw [run_once_of_none translation hm]
      refine Keeps.bind ht (fun kernel => Keeps.bind (Keeps.modify ?_) fun _ => Keeps.pure _) s hs
      intro s hs
      exact (Table.get?_insert_of_ne _ hne _).trans hs

/-- A kernel that is in memory before several expressions are translated is there afterwards. -/
theorem kept_after_all {es : List Expr} {ks : List Kernel} (hk : s.kernels.get? x = some k)
    (h : (all tag es).run.run s = (.ok ks, s')) : s'.kernels.get? x = some k := by
  have kept : ((all tag es).run.run s).2.kernels.get? x = some k :=
    keeps_all (stable_remembered x k) (fun _ _ _ _ => trivial) es (fun _ _ => trivial) s hk
  rw [h] at kept
  exact kept

/-- A successful translation of `e` through the memory leaves its kernel there. -/
theorem remembered_of_once {translation : Translate Kernel}
    (h : (once e translation).run.run s = (.ok k, s')) : s'.kernels.get? e = some k := by
  cases hm : s.kernels.get? e with
  | some found =>
    cases (run_once_of_some translation hm).symm.trans h
    exact hm
  | none =>
    obtain ⟨kernel, s₁, -, hr⟩ := run_bind_eq_ok.mp ((run_once_of_none translation hm).symm.trans h)
    cases hr
    exact Table.get?_insert_self _ _ _

/-! ## What is inlined is remembered -/

/-- Listing an input changes nothing in memory. -/
theorem listable_closed : Listable (fun _ => True) Closed where
  volume _ _ _ h := ⟨h.costs, h.kernels⟩
  boundary _ _ _ h := ⟨h.costs, h.kernels⟩

/-- What is not looked into holds no common subexpressions, but is perhaps one. -/
theorem covers_of_not_isTransparent (ht : ¬e.IsTransparent)
    (he : ∀ body label, e = .shared body label → s.Remembers e) : s.Covers e := by
  intro body label hx
  cases hx with
  | self => exact he body label rfl
  | operand ht' _ _ => exact absurd ht' ht

/-- If the translation of each of the expressions `es` covers it, then all of them are covered when
all have been translated. -/
theorem covers_all_of {es : List Expr} {ks : List Kernel}
    (ih : ∀ e ∈ es, ∀ s k s', Closed s → (expr tag e).run.run s = (.ok k, s') →
      s'.Closed ∧ s'.Covers e)
    (hs : s.Closed) (h : (all tag es).run.run s = (.ok ks, s')) :
    s'.Closed ∧ ∀ e ∈ es, s'.Covers e := by
  induction es generalizing s ks with
  | nil =>
    obtain ⟨-, rfl⟩ := run_pure_eq_ok.mp h
    exact ⟨hs, nofun⟩
  | cons e es ihs =>
    obtain ⟨k, s₁, h₁, h⟩ := run_bind_eq_ok.mp h
    obtain ⟨ks, s₂, h₂, h⟩ := run_bind_eq_ok.mp h
    obtain ⟨-, rfl⟩ := run_pure_eq_ok.mp h
    obtain ⟨closed, covers⟩ := ih e List.mem_cons_self s k s₁ hs h₁
    obtain ⟨closed', rest⟩ := ihs (fun x hx => ih x (List.mem_cons_of_mem e hx)) closed h₂
    refine ⟨closed', ?_⟩
    intro x hx
    rcases List.mem_cons.mp hx with rfl | hx
    · exact covers.mono fun y ⟨k, hk⟩ => ⟨k, kept_after_all hk h₂⟩
    · exact rest x hx

/-- A successful translation of a common subexpression covers it, if that of its body does. -/
theorem covers_shared {body : Expr} {label : Option String}
    (ih : ∀ s k s', Closed s → (expr tag body).run.run s = (.ok k, s') → s'.Closed ∧ s'.Covers body)
    (hs : s.Closed) (h : (expr tag (.shared body label)).run.run s = (.ok k, s')) :
    s'.Closed ∧ s'.Covers (.shared body label) := by
  cases hm : s.kernels.get? (.shared body label) with
  | some found =>
    -- its kernel was in memory, and so was what is inlined
    cases (run_once_of_some _ hm).symm.trans h
    exact ⟨hs, hs.kernels _ ⟨k, hm⟩⟩
  | none =>
    obtain ⟨kernel, s₁, h₁, h⟩ := run_bind_eq_ok.mp ((run_once_of_none _ hm).symm.trans h)
    cases h
    obtain ⟨cost, s₂, h₂, h₁⟩ := run_bind_eq_ok.mp h₁
    obtain ⟨answer, valid⟩ := answers_isExpensive body s.costs hs.costs
    have hcost : body.cost = .ok cost := answer.symm.trans (congrArg Prod.fst h₂)
    have state : { s with costs := (body.isExpensive.run.run s.costs).2 } = s₂ :=
      congrArg Prod.snd h₂
    have closed₂ : s₂.Closed := state ▸ ⟨valid, hs.kernels⟩
    have own := (TranslationState.remembers_insert s₁ (.shared body label) k).mpr (.inl rfl)
    cases cost with
    | true =>
      -- an input, which is not looked into
      have dear : ¬(Expr.shared body label).IsTransparent := by
        intro ht
        cases hcost.symm.trans ht
      have covers := covers_of_not_isTransparent dear fun _ _ _ => own
      have closed₁ : ((boundaryInput (.shared body label)).run.run s₂).2.Closed :=
        keeps_boundaryInput listable_closed trivial s₂ closed₂
      rw [show (boundaryInput (.shared body label)).run.run s₂ = (.ok k, s₁) from h₁] at closed₁
      exact ⟨closed₁.insert k covers, covers⟩
    | false =>
      -- a cheap body: what is inlined is the common subexpression itself, or inlined in the body
      obtain ⟨closed₁, covers₁⟩ := ih s₂ k s₁ closed₂ h₁
      have covers : Covers { s₁ with kernels := s₁.kernels.insert (.shared body label) k }
          (.shared body label) := by
        intro body' label' hx
        cases hx with
        | self => exact own
        | operand _ hc hx =>
          obtain rfl := List.mem_singleton.mp hc
          exact (TranslationState.remembers_insert s₁ _ k).mpr (.inr (covers₁ body' label' hx))
      exact ⟨closed₁.insert k covers, covers⟩

/-- A successful translation of `e` keeps the memory closed, and leaves there the kernels of the
common subexpressions inlined in `e`.  By induction on the size of `e`. -/
theorem covers_expr (e : Expr) (s : TranslationState) (k : Kernel) (s' : TranslationState)
    (hs : s.Closed) (h : (expr tag e).run.run s = (.ok k, s')) : s'.Closed ∧ s'.Covers e := by
  have ih (c : Expr) (_ : c.size < e.size) := covers_expr c
  -- nothing is looked into, and the node is no common subexpression
  have leaf (hk : Keeps Closed (expr tag e)) (ht : ¬e.IsTransparent)
      (hsh : ∀ body label, e ≠ .shared body label) : s'.Closed ∧ s'.Covers e := by
    have closed := hk s hs
    rw [h] at closed
    exact ⟨closed, covers_of_not_isTransparent ht fun body label he => absurd he (hsh body label)⟩
  by_cases ha : e.IsArithmetic
  · rw [expr_of_isArithmetic ha] at h
    obtain ⟨ks, s₁, h₁, h⟩ := run_bind_eq_ok.mp h
    obtain ⟨-, rfl⟩ := run_pure_eq_ok.mp h
    obtain ⟨closed, covers⟩ :=
      covers_all_of (fun c hc => ih c (Expr.size_lt_of_mem_children hc)) hs h₁
    refine ⟨closed, ?_⟩
    intro body label hx
    cases hx with
    | self => nomatch ha
    | operand _ hc hx => exact covers _ hc body label hx
  cases e with
  | shared body label =>
    exact covers_shared (ih body (Expr.size_lt_of_mem_children List.mem_cons_self)) hs h
  | atom a => exact leaf (keeps_atom listable_closed a trivial) id nofun
  | subscript _ _ | exchange _ _ _ =>
    exact leaf (keeps_boundaryInput listable_closed trivial) id nofun
  | apply op field =>
    exact leaf (keeps_application listable_closed (fun _ _ _ _ => trivial) trivial) id nofun
  | pair _ _ _ | array _ | domainFlux _ _ => exact absurd h run_throw_ne_ok
  | _ => exact absurd (by constructor) ha
termination_by e.size

/-! ## Translations within a translation -/

/-- The translation of an expression from one state translates `x` from `t` on its way. -/
inductive Visits (tag : BoundaryTag) (x : Expr) (t : TranslationState) :
    Expr → TranslationState → Prop
  | self : Visits tag x t x t
  | operand {e c : Expr} {s s' : TranslationState} {before after : List Expr} {ks : List Kernel}
    (he : e.IsArithmetic) (hc : e.children = before ++ c :: after)
    (hr : (all tag before).run.run s = (.ok ks, s')) (h : Visits tag x t c s') : Visits tag x t e s
  | body {body : Expr} {label : Option String} {s s' : TranslationState}
    (hm : s.kernels.get? (.shared body label) = none)
    (hr : (isExpensive body).run.run s = (.ok false, s')) (h : Visits tag x t body s') :
    Visits tag x t (.shared body label) s

/-- The translation of several expressions `es` translates `x` from `t` on its way: it has
translated those before `c`, and visits `x` in `c`. -/
def VisitsAll (tag : BoundaryTag) (x : Expr) (t : TranslationState) (es : List Expr)
    (s : TranslationState) : Prop :=
  ∃ before c after ks s', es = before ++ c :: after
    ∧ (all tag before).run.run s = (.ok ks, s') ∧ Visits tag x t c s'

/-- What is translated on the way is no larger than the whole. -/
theorem Visits.size_le (h : Visits tag x t e s) : x.size ≤ e.size := by
  induction h with
  | self => exact Nat.le_refl _
  | @operand e c _ _ _ _ _ _ hc _ _ ih =>
    have := Expr.size_lt_of_mem_children (e := e) (c := c) (by simp [hc])
    omega
  | @body body label _ _ _ _ _ ih =>
    have := Expr.size_lt_of_mem_children (e := .shared body label) (c := body) List.mem_cons_self
    omega

/-- A successful translation of `before ++ c :: after` translates `c` from the state `s₁` that
`before` leads to, and then `after`. -/
theorem exists_run_of_all {es before after : List Expr} {ks bs : List Kernel}
    {s₁ : TranslationState} (h : (all tag es).run.run s = (.ok ks, s')) (hes : es = before ++ c :: after)
    (hb : (all tag before).run.run s = (.ok bs, s₁)) :
    ∃ k s₂ as, (expr tag c).run.run s₁ = (.ok k, s₂) ∧ (all tag after).run.run s₂ = (.ok as, s') := by
  rw [hes, all_append] at h
  obtain ⟨_, _, h₁, h⟩ := run_bind_eq_ok.mp h
  cases h₁.symm.trans hb
  obtain ⟨_, s₃, h, hp⟩ := run_bind_eq_ok.mp h
  obtain ⟨-, rfl⟩ := run_pure_eq_ok.mp hp
  obtain ⟨k, s₂, h₂, h⟩ := run_bind_eq_ok.mp h
  obtain ⟨as, s₃, h₃, h⟩ := run_bind_eq_ok.mp h
  obtain ⟨-, rfl⟩ := run_pure_eq_ok.mp h
  exact ⟨k, s₂, as, h₂, h₃⟩

/-- Let a run translate a common subexpression from `t` on its way.  That translation succeeds, and
its kernel is in memory when the run is over. -/
theorem Visits.remembered {body : Expr} {label : Option String}
    (h : Visits tag (.shared body label) t e s) (hr : (expr tag e).run.run s = (.ok k, s')) :
    ∃ found, ((expr tag (.shared body label)).run.run t).1 = .ok found
      ∧ s'.kernels.get? (.shared body label) = some found := by
  induction h generalizing k s' with
  | self => exact ⟨k, congrArg Prod.fst hr, remembered_of_once hr⟩
  | operand he hc hb _ ih =>
    -- the operands behind it leave it in memory
    rw [expr_of_isArithmetic he] at hr
    obtain ⟨ks, s₃, hr, hp⟩ := run_bind_eq_ok.mp hr
    obtain ⟨-, rfl⟩ := run_pure_eq_ok.mp hp
    obtain ⟨k', s₂, as, hc, ha⟩ := exists_run_of_all hr hc hb
    obtain ⟨found, answer, hf⟩ := ih hc
    exact ⟨found, answer, kept_after_all hf ha⟩
  | @body body' label' s s₁ hm hcost hx ih =>
    obtain ⟨kernel, s₂, h₂, h⟩ := run_bind_eq_ok.mp ((run_once_of_none _ hm).symm.trans hr)
    cases h
    obtain ⟨cost, s₃, h₃, h₂⟩ := run_bind_eq_ok.mp h₂
    cases h₃.symm.trans hcost
    obtain ⟨found, answer, hf⟩ := ih h₂
    -- the kernel that is remembered last is that of a larger expression
    have hne : Expr.shared body label ≠ .shared body' label' := by
      intro heq
      have small := hx.size_le
      have := Expr.size_lt_of_mem_children (e := .shared body' label') (c := body') List.mem_cons_self
      rw [heq] at small
      omega
    exact ⟨found, answer, (Table.get?_insert_of_ne _ hne _).trans hf⟩

/-- The same for the translation of several expressions. -/
theorem VisitsAll.remembered {body : Expr} {label : Option String} {es : List Expr}
    {ks : List Kernel} (h : VisitsAll tag (.shared body label) t es s)
    (hr : (all tag es).run.run s = (.ok ks, s')) :
    ∃ found, ((expr tag (.shared body label)).run.run t).1 = .ok found
      ∧ s'.kernels.get? (.shared body label) = some found := by
  obtain ⟨before, c, after, bs, s₁, hes, hb, hx⟩ := h
  obtain ⟨k, s₂, as, hc, ha⟩ := exists_run_of_all hr hes hb
  obtain ⟨found, answer, hf⟩ := hx.remembered hc
  exact ⟨found, answer, kept_after_all hf ha⟩

/-- The kernel that is remembered for a common subexpression of an expensive body reads it as one
boundary input. -/
theorem exterior_of_remembered {body : Expr} {label : Option String} (hs : s.Valid tag)
    (hk : s.kernels.get? (.shared body label) = some k) (hc : body.cost = .ok true) :
    ∃ index, k = .component .exterior index ∧ s.boundary[index]? = some (.shared body label) := by
  obtain ⟨l, hl, names⟩ := hs.kernels _ k hk
  rw [Expr.kernel, hc] at hl
  cases hl
  -- the only kernels that name an exterior component are exterior components
  cases k with
  | component side index =>
    obtain ⟨hside, hname⟩ := KernelOver.component.inj names
    subst hside
    exact ⟨index, rfl, hname⟩
  | _ => cases names

/-- **Common subexpressions are translated once.**  If the components of a boundary field are
translated, whatever the volume inputs start with and whatever was asked about costs:

* what applies a costly operator is a boundary input only if it stands in a component below
  arithmetic alone;
* each common subexpression that is inlined has one kernel in the end, which all its translations on
  the way have given; if its body is expensive, this kernel reads it as one boundary input. -/
theorem shares_all {asked seeds components : List Expr} {ks : List Kernel}
    (h : (all tag components).run.run { costs := .afterAsking asked, volume := seeds } = (.ok ks, s')) :
    (∀ x ∈ s'.boundary, x.IsCostly → ∃ c ∈ components, x.Unshared c)
    ∧ (∀ body label, (∃ c ∈ components, Expr.Inlined (.shared body label) c) →
        ∃ k, s'.kernels.get? (.shared body label) = some k)
    ∧ ∀ body label k, s'.kernels.get? (.shared body label) = some k →
        (∀ t, VisitsAll tag (.shared body label) t components
            { costs := .afterAsking asked, volume := seeds } →
          ((expr tag (.shared body label)).run.run t).1 = .ok k)
        ∧ (body.cost = .ok true →
            ∃ index, k = .component .exterior index
              ∧ s'.boundary[index]? = some (.shared body label)) := by
  have costs : (CostMemory.afterAsking asked).Valid := CostMemory.valid_afterAsking asked
  have start : TranslationState.Valid tag { costs := .afterAsking asked, volume := seeds } :=
    TranslationState.valid_start costs seeds
  have valid : s'.Valid tag := by
    have follows := follows_all start components
    rw [← show ((all tag components).run.run _).2 = s' from congrArg Prod.snd h]
    exact follows.valid
  refine ⟨?_, ?_, ?_⟩
  · intro x hx costly
    have recalls : TranslationState.Recalls { costs := .afterAsking asked, volume := seeds } :=
      ⟨costs, nofun⟩
    have gathered := gathers_all components _ ks s' recalls h
    -- a listed exterior input is inlined in a component, and what is inlined is unshared if it
    -- costs
    rcases (gathered.lists (.exterior, x)).mp hx with listed | ⟨c, hc, y, hy, hi⟩
    · nomatch listed
    · obtain rfl := Expr.eq_of_input? hi
      exact ⟨c, hc, hy.unshared costly.cost⟩
  · -- the memory is closed under what is inlined, and covers the components
    rintro body label ⟨c, hc, hx⟩
    have closed : TranslationState.Closed { costs := .afterAsking asked, volume := seeds } :=
      ⟨costs, fun _ remembered => nomatch remembered.choose_spec⟩
    exact (covers_all_of (fun e _ => covers_expr e) closed h).2 c hc body label hx
  · intro body label k hk
    refine ⟨?_, exterior_of_remembered valid hk⟩
    intro t hv
    -- whenever the run meets the common subexpression, it answers the kernel that is remembered
    -- in the end
    obtain ⟨found, answer, hf⟩ := hv.remembered h
    rw [answer, Option.some.inj (hf.symm.trans hk)]

/-- An upsampler in a common subexpression that stands alone and in a cheap one: the inner one is one
boundary input wherever it is met, and the upsampler is none. -/
theorem shares_all_nested :
    let g : Expr := .atom (.variable "g")
    let inner : Expr := .shared (.apply (.upsample ⟨"q"⟩) g) none
    let outer : Expr := .shared (.sum [inner, g]) none
    let components : List Expr := [.product [outer, inner], .sum [inner, outer]]
    let run := (all (.named "wall") components).run.run
      { costs := .afterAsking [outer], volume := [.atom (.variable "u")] }
    let kernel : Kernel := .sum [.component .exterior 0, .component .exterior 1]
    run.1 = .ok [.product [kernel, .component .exterior 0], .sum [.component .exterior 0, kernel]]
      ∧ run.2.boundary = [inner, g]
      ∧ (∀ x ∈ run.2.boundary, x.IsCostly → ∃ c ∈ components, x.Unshared c)
      ∧ ∃ k, run.2.kernels.get? inner = some k
        ∧ ∃ index, k = .component .exterior index ∧ run.2.boundary[index]? = some inner := by
  intro g inner outer components run kernel
  have translated : run.1
      = .ok [.product [kernel, .component .exterior 0], .sum [.component .exterior 0, kernel]] := by
    decide +kernel
  have ran : run = (.ok [.product [kernel, .component .exterior 0],
      .sum [.component .exterior 0, kernel]], run.2) := Prod.ext translated rfl
  obtain ⟨unshared, remembered, answers⟩ := shares_all ran
  have inlined : Expr.Inlined inner (.product [outer, inner]) :=
    .operand trivial (.tail _ List.mem_cons_self) .self
  obtain ⟨k, hk⟩ := remembered _ _ ⟨_, List.mem_cons_self, inlined⟩
  have expensive : (Expr.apply (.upsample ⟨"q"⟩) g).cost = .ok true :=
    (Expr.IsCostly.upsample _ _).cost
  exact ⟨translated, by decide +kernel, unshared, k, hk, (answers _ _ k hk).2 expensive⟩

end Translate

end OperatorTemplate
