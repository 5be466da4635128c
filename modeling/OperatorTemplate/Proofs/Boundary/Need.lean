import OperatorTemplate.Proofs.Boundary.Arithmetic
import OperatorTemplate.Proofs.Boundary.Exposure
import OperatorTemplate.Proofs.Boundary.Registration
/-!
# Which inputs a rewritten kernel needs

A translation lists an input when it meets it, before it is known what becomes of the node above.
If that node folds to a literal zero, or if the kernel of the flux does not read the boundary
component, the input is listed and nothing reads it.  Nothing takes it out of the list again.

So there are two notions.  What an expression *reads* (`Expr.Reads`) is listed; what it *uses*
(`Expr.Uses`) is in its kernel (`mem_components_kernel_iff`).  They differ in one thing: what is
used is met beneath nothing that vanishes (`Expr.Vanishes`).  That a kernel is a literal zero
exactly if the expression vanishes (`isZero_kernel_iff`) is the crux: it turns a question about the
folding constructors into one about the expression.  Both follow the expression, by induction on its
size, with one case for arithmetic, one for cheap common subexpressions, one for inputs and one for
atoms.

The same two steps lead from the boundary components to the kernel of the flux, by the substitution.
`FluxRewriting.isZero_kernel` says when a flux collapses, and `FluxRewriting.mem_components_iff`
which inputs its new kernel reads.

For every flux on a pair that a rewriter accepts, all of this together says which inputs its new
pair holds and which of them its new kernel reads (`Rewrite.root_inputs`).  There are fluxes the new
pair of which holds inputs that the new kernel does not need (`Rewrite.not_readsAll`).
-/

namespace OperatorTemplate

namespace Expr

variable {e : Expr} {tag : BoundaryTag} {c : Side × Expr}

/-! ## Expressions -/

/-- Nothing is left of an expression when it is translated: the folding constructors make a literal
zero of it. -/
inductive Vanishes : Expr → Prop
  | constant {v : Literal} (h : v.isZero = true) : Vanishes (.atom (.constant v))
  | sum {es : List Expr} (h : ∀ e ∈ es, Vanishes e) : Vanishes (.sum es)
  | product {es : List Expr} {e : Expr} (he : e ∈ es) (h : Vanishes e) : Vanishes (.product es)
  | quotient {a b : Expr} (h : Vanishes a) : Vanishes (.quotient a b)
  | conditional {c a b : Expr} (ha : Vanishes a) (hb : Vanishes b) : Vanishes (.conditional c a b)
  | ifPositive {c a b : Expr} (ha : Vanishes a) (hb : Vanishes b) : Vanishes (.ifPositive c a b)
  | shared {body : Expr} {label : Option String} (hc : body.cost = .ok false) (h : Vanishes body) :
    Vanishes (.shared body label)

/-- The input `c` is met in `e` beneath nothing that vanishes. -/
inductive Uses (c : Side × Expr) : Expr → Prop
  | input {e : Expr} (hi : e.input? = some c) : Uses c e
  | operand {d e : Expr} (ht : e.IsTransparent) (hv : ¬e.Vanishes) (hd : d ∈ e.children)
    (h : Uses c d) : Uses c e

/-- What `e` uses it reads, since `Reads` asks less: it does not matter what vanishes above. -/
theorem Uses.reads (h : Uses c e) : e.Reads c := by
  induction h with
  | input hi => exact ⟨_, .self, hi⟩
  | operand ht _ hd _ ih =>
    obtain ⟨x, hx, hi⟩ := ih
    exact ⟨x, .operand ht hd hx, hi⟩

/-- The kernel of an expression that is listed as the input `c` is that component alone. -/
theorem kernel_of_input? {l : KernelOver Expr} (h : e.kernel tag = .ok l)
    (hi : e.input? = some c) : l = .component c.1 c.2 := by
  -- one case for each kind of input; where tags are checked, the checks have passed
  unfold input? at hi
  split at hi
  · cases hi
    obtain ⟨⟨⟩, -, h⟩ := bind_eq_ok.mp h
    exact (Except.ok.inj h).symm
  · cases hi
    obtain ⟨⟨⟩, -, h⟩ := bind_eq_ok.mp h
    exact (Except.ok.inj h).symm
  next grid field =>
    cases hi
    simp only [kernel, kernelOfApplication] at h
    cases ht : Translate.evidentTag? field with
    | none =>
      rw [ht] at h
      exact (Except.ok.inj h).symm
    | some found =>
      rw [ht] at h
      obtain ⟨⟨⟩, -, h⟩ := bind_eq_ok.mp h
      exact (Except.ok.inj h).symm
  · cases hi
    obtain ⟨⟨⟩, -, h⟩ := bind_eq_ok.mp h
    exact (Except.ok.inj h).symm
  · cases hi
    exact (Except.ok.inj h).symm
  · cases hi
    exact (Except.ok.inj h).symm
  · cases hi
    exact (Except.ok.inj h).symm
  · -- a common subexpression is an input if its body is expensive
    split at hi
    next hc =>
      cases hi
      rw [kernel, hc] at h
      exact (Except.ok.inj h).symm
    · cases hi
  · cases hi

/-- The kernel of a cheap common subexpression is that of its body. -/
theorem kernel_shared {body : Expr} {label : Option String} (hc : body.cost = .ok false) :
    (Expr.shared body label).kernel tag = body.kernel tag := by
  rw [kernel, hc]
  rfl

/-- An atom that a kernel can name reads no component, and is a literal zero exactly if it vanishes.
-/
theorem kernel_of_isFaceAtom {l : KernelOver Expr} (h : e.kernel tag = .ok l)
    (hf : e.IsFaceAtom) : l.components = [] ∧ (l.isZero = true ↔ e.Vanishes) := by
  rcases hf with ⟨value, rfl⟩ | ⟨name, rfl⟩ | ⟨found, axis, grid, rfl⟩
  · cases h
    exact ⟨rfl, .constant, fun | .constant h => h⟩
  · cases h
    exact ⟨rfl, nofun, nofun⟩
  · obtain ⟨⟨⟩, -, h⟩ := bind_eq_ok.mp h
    cases h
    exact ⟨rfl, nofun, nofun⟩

/-- An atom that a kernel can name uses no input. -/
theorem not_uses_of_isFaceAtom (hf : e.IsFaceAtom) : ¬e.Uses c := by
  intro hu
  rcases hf with ⟨value, rfl⟩ | ⟨name, rfl⟩ | ⟨found, axis, grid, rfl⟩ <;> cases hu with
  | input hi => nomatch hi
  | operand ht _ _ _ => exact ht.elim

/-- What is listed as an input does not vanish. -/
theorem not_vanishes_of_input? (hi : e.input? = some c) : ¬e.Vanishes := by
  intro hv
  cases hv with
  | shared hc _ =>
    rw [input?, hc] at hi
    nomatch hi
  | _ => nomatch hi

/-- If the kernels `ls` of the operands of `e` are literal zeros exactly where the operands vanish,
then the kernel that is assembled from them is one exactly if `e` vanishes. -/
theorem isZero_assemble (he : e.IsArithmetic) {ls : List (KernelOver Expr)}
    (zeros : List.Forall₂ (fun d l => l.isZero = true ↔ d.Vanishes) e.children ls) :
    (e.assemble ls).isZero = true ↔ e.Vanishes := by
  cases he with
  | sum es =>
    -- a sum is zero if all its terms are
    rw [assemble, KernelOver.isZero_sumOf]
    constructor
    · intro hz
      refine .sum fun d hd => ?_
      obtain ⟨l, hl, hdl⟩ := exists_right_of_forall₂ zeros hd
      exact hdl.mp (hz l hl)
    · intro hv l hl
      cases hv with
      | sum hv =>
        obtain ⟨d, hd, hdl⟩ := exists_left_of_forall₂ zeros hl
        exact hdl.mpr (hv d hd)
  | product es =>
    -- a product is zero if one of its factors is
    rw [assemble, KernelOver.isZero_productOf]
    constructor
    · rintro ⟨l, hl, hz⟩
      obtain ⟨d, hd, hdl⟩ := exists_left_of_forall₂ zeros hl
      exact .product hd (hdl.mp hz)
    · intro hv
      cases hv with
      | product hd hv =>
        obtain ⟨l, hl, hdl⟩ := exists_right_of_forall₂ zeros hd
        exact ⟨l, hl, hdl.mpr hv⟩
  | quotient a b =>
    rcases zeros with _ | ⟨ha, _ | ⟨-, _ | _⟩⟩
    -- a quotient is zero with its numerator
    rw [assemble, KernelOver.isZero_quotientOf, ha]
    refine ⟨.quotient, fun hv => ?_⟩
    cases hv with
    | quotient hv => exact hv
  | conditional z a b =>
    rcases zeros with _ | ⟨-, _ | ⟨ha, _ | ⟨hb, _ | _⟩⟩⟩
    -- a choice is zero if both its branches are, whatever the condition
    rw [assemble, KernelOver.isZero_conditionalOf, ha, hb]
    refine ⟨fun hv => .conditional hv.1 hv.2, fun hv => ?_⟩
    cases hv with
    | conditional ha hb => exact ⟨ha, hb⟩
  | ifPositive z a b =>
    rcases zeros with _ | ⟨-, _ | ⟨ha, _ | ⟨hb, _ | _⟩⟩⟩
    rw [assemble, KernelOver.isZero_conditionalOf, ha, hb]
    refine ⟨fun hv => .ifPositive hv.1 hv.2, fun hv => ?_⟩
    cases hv with
    | ifPositive ha hb => exact ⟨ha, hb⟩
  | power a b | comparison a _ b =>
    rcases zeros with _ | ⟨-, _ | ⟨-, _ | _⟩⟩
    -- a power, a comparison or a call is never a literal zero
    exact iff_of_false Bool.false_ne_true fun hv => by cases hv
  | call _ es => exact iff_of_false Bool.false_ne_true fun hv => by cases hv

/-- The kernel `l` of `e` is a literal zero exactly if `e` vanishes.  By induction on the size of
`e`. -/
theorem isZero_kernel_iff (e : Expr) {l : KernelOver Expr} (h : e.kernel tag = .ok l) :
    l.isZero = true ↔ e.Vanishes := by
  have operand (d : Expr) (hd : d ∈ e.children) {l : KernelOver Expr} (hl : d.kernel tag = .ok l) :
      l.isZero = true ↔ d.Vanishes := by
    have := size_lt_of_mem_children hd
    exact isZero_kernel_iff d hl
  -- arithmetic or a cheap common subexpression, an input, or an atom
  rcases isTransparent_or_of_kernel h with ht | ⟨c, hi⟩ | hf
  · rcases isTransparent_iff.mp ht with ha | ⟨body, label, rfl, hc⟩
    · rw [kernel_of_isArithmetic ha] at h
      obtain ⟨ls, hls, h⟩ := bind_eq_ok.mp h
      cases h
      have sources := (List.forall₂_and_left _ _).mpr ⟨operand, forall₂_of_kernels hls⟩
      exact isZero_assemble ha (sources.imp fun _ _ source => source.1 source.2)
    · rw [kernel_shared hc] at h
      rw [operand body List.mem_cons_self h]
      exact ⟨.shared hc, fun | .shared _ hv => hv⟩
  · rw [kernel_of_input? h hi]
    exact ⟨nofun, fun hv => absurd hv (not_vanishes_of_input? hi)⟩
  · exact (kernel_of_isFaceAtom h hf).2
termination_by e.size

/-- A node that translation looks inside uses what its children use, unless it vanishes. -/
theorem uses_iff_of_isTransparent (ht : e.IsTransparent) :
    e.Uses c ↔ ¬e.Vanishes ∧ ∃ d ∈ e.children, d.Uses c := by
  constructor
  · intro h
    cases h with
    | input hi => nomatch (input?_eq_none_of_isTransparent ht).symm.trans hi
    | operand _ hv hd h => exact ⟨hv, _, hd, h⟩
  · rintro ⟨hv, d, hd, h⟩
    exact .operand ht hv hd h

/-- The kernel `l` of `e` reads the input `c` exactly if `e` uses it.  By induction on the size of
`e`. -/
theorem mem_components_kernel_iff (e : Expr) {l : KernelOver Expr} (h : e.kernel tag = .ok l) :
    c ∈ l.components ↔ e.Uses c := by
  have operand (d : Expr) (hd : d ∈ e.children) {l : KernelOver Expr} (hl : d.kernel tag = .ok l) :
      c ∈ l.components ↔ d.Uses c := by
    have := size_lt_of_mem_children hd
    exact mem_components_kernel_iff d hl
  have left : l.isZero = false ↔ ¬e.Vanishes := by
    rw [← isZero_kernel_iff e h, Bool.not_eq_true]
  rcases isTransparent_or_of_kernel h with ht | ⟨c', hi⟩ | hf
  · rw [uses_iff_of_isTransparent ht, ← left]
    -- an assembled kernel reads what the operands read, unless it is zero
    rcases isTransparent_iff.mp ht with ha | ⟨body, label, rfl, hc⟩
    · rw [kernel_of_isArithmetic ha] at h
      obtain ⟨ls, hls, h⟩ := bind_eq_ok.mp h
      cases h
      have sources := forall₂_of_kernels hls
      rw [mem_components_assemble ha sources.length_eq.symm]
      refine and_congr_right fun _ => ⟨?_, ?_⟩
      · rintro ⟨l, hl, hc⟩
        obtain ⟨d, hd, hdl⟩ := exists_left_of_forall₂ sources hl
        exact ⟨d, hd, (operand d hd hdl).mp hc⟩
      · rintro ⟨d, hd, hc⟩
        obtain ⟨l, hl, hdl⟩ := exists_right_of_forall₂ sources hd
        exact ⟨l, hl, (operand d hd hdl).mpr hc⟩
    · rw [kernel_shared hc] at h
      -- a cheap common subexpression is as its body is
      have same := operand body List.mem_cons_self h
      constructor
      · exact fun hl => ⟨KernelOver.isZero_of_mem_components hl, body, List.mem_cons_self, same.mp hl⟩
      · rintro ⟨-, d, hd, hu⟩
        obtain rfl := List.mem_singleton.mp hd
        exact same.mpr hu
  · rw [kernel_of_input? h hi]
    constructor
    · intro hc
      -- an input reads itself and nothing else
      obtain rfl := List.mem_singleton.mp hc
      exact .input hi
    · intro hu
      cases hu with
      | input hi' =>
        cases hi.symm.trans hi'
        exact List.mem_cons_self
      | operand ht _ _ _ => nomatch (input?_eq_none_of_isTransparent ht).symm.trans hi
  · rw [(kernel_of_isFaceAtom h hf).1]
    exact ⟨nofun, fun hu => absurd hu (not_uses_of_isFaceAtom hf)⟩
termination_by e.size

/-! ## Boundary components -/

/-- The kernel `k` of `e` is a literal zero if `e` vanishes, and reads by position what `e` uses. -/
structure Renders (s : TranslationState) (e : Expr) (k : Kernel) : Prop where
  isZero : k.isZero = true ↔ e.Vanishes
  used : ∀ side index, (side, index) ∈ k.components →
    ∃ x, e.Uses (side, x) ∧ s.input? side index = some x
  listed : ∀ side x, e.Uses (side, x) →
    ∃ index, (side, index) ∈ k.components ∧ s.input? side index = some x

/-- A kernel `k` that names, by position in the lists of `s`, the kernel `l` of `e` renders `e`. -/
theorem renders_of_names {s : TranslationState} {k : Kernel} {l : KernelOver Expr}
    (he : e.kernel tag = .ok l) (names : s.Names k l) : Renders s e k := by
  have zeros : k.isZero = l.isZero := by
    have := congrArg KernelOver.isZero names
    rwa [KernelOver.isZero_mapFields, KernelOver.isZero_mapFields] at this
  refine ⟨by rw [zeros, isZero_kernel_iff e he], ?_, ?_⟩
  · intro side index hc
    obtain ⟨x, hx, hi⟩ := names.exists_input hc
    exact ⟨x, (mem_components_kernel_iff e he).mp hx, hi⟩
  · intro side x hu
    obtain ⟨index, hc, hi⟩ := KernelOver.exists_of_mapFields_eq names.symm
      ((mem_components_kernel_iff e he).mpr hu)
    exact ⟨index, hc, hi.symm⟩

/-- The kernels `ks` of several expressions `es` render them one by one. -/
theorem forall₂_renders {s : TranslationState} {es : List Expr} {ls : List (KernelOver Expr)}
    {ks : List Kernel} (sources : List.Forall₂ (fun e l => e.kernel tag = .ok l) es ls)
    (names : Translate.AllName s ks ls) : List.Forall₂ (Renders s) es ks := by
  induction sources generalizing ks with
  | nil =>
    cases names
    exact .nil
  | cons he _ ih =>
    cases names with
    | cons named rest => exact .cons (renders_of_names he named) (ih rest)

/-! ## Fluxes -/

variable {f f' : Flux} {interior boundary y : Expr}

/-- The boundary components that vanish, as fields of a kernel: exterior positions at which such a
component stands. -/
def vanishing (boundary : Expr) (c : Side × Nat) : Prop :=
  c.1 = .exterior ∧ ∃ e, boundary.components[c.2]? = some e ∧ e.Vanishes

/-- The kernel of the flux reads, beneath nothing that vanishes, a boundary component that uses the
input `c`. -/
def Needs (f : Flux) (boundary : Expr) (c : Side × Expr) : Prop :=
  ∃ index e, f.kernel.Stands (vanishing boundary) (.exterior, index)
    ∧ boundary.components[index]? = some e ∧ e.Uses c

/-- The kernels that are put for the boundary components render them, over the lists of inputs that
the translation of the pair ends with. -/
theorem FluxRewriting.renders (r : FluxRewriting f interior boundary tag y) :
    List.Forall₂ (Renders (translatePair .empty interior boundary tag).2) boundary.components
      r.kernels := by
  obtain ⟨ls, sources, names⟩ := exists_kernels_of_translatePair r.translated
  exact forall₂_renders sources names

/-- What is put for the field `side`, `index` of the old kernel is a literal zero exactly if this is
a boundary component that vanishes. -/
theorem FluxRewriting.isZero_replacement (r : FluxRewriting f interior boundary tag y) (side : Side)
    (index : Nat) :
    ((KernelOver.component side index).substitute
        (Kernel.boundaryReplacement r.kernels)).isZero = true
      ↔ vanishing boundary (side, index) := by
  cases side with
  | interior =>
    -- interior components stay
    rw [KernelOver.substitute_of_none rfl]
    exact ⟨nofun, fun h => nomatch h.1⟩
  | exterior =>
    rcases getElem?_of_forall₂ r.renders index with ⟨he, hk⟩ | ⟨e, k, he, hk, renders⟩
    · have kept : Kernel.boundaryReplacement r.kernels (.component .exterior index) = none := hk
      rw [KernelOver.substitute_of_none kept]
      refine ⟨nofun, ?_⟩
      rintro ⟨-, e, he', -⟩
      nomatch he.symm.trans he'
    · have replaced : Kernel.boundaryReplacement r.kernels (.component .exterior index) = some k := hk
      rw [KernelOver.substitute_of_some replaced, renders.isZero]
      constructor
      · exact fun hv => ⟨rfl, e, he, hv⟩
      · rintro ⟨-, e', he', hv⟩
        cases he.symm.trans he'
        exact hv

/-- The flux collapses exactly if its kernel vanishes once the boundary components that vanish are
taken for zeros. -/
theorem FluxRewriting.isZero_kernel (r : FluxRewriting f interior boundary tag y) :
    r.kernel.isZero = true ↔ f.kernel.Vanishes (vanishing boundary) := by
  rw [(Kernel.of_substituteBoundary r.substituted).1]
  exact KernelOver.isZero_substitute_iff (Kernel.replacesFields_boundary _) r.isZero_replacement _

/-- Let `x` stand at `position` of the inputs on `side`, and nowhere else.  The new kernel reads
this position exactly if `x` is needed, or if the old kernel reads its own interior component there.
-/
theorem FluxRewriting.mem_components_iff (r : FluxRewriting f interior boundary tag y) {side : Side}
    {position : Nat} {x : Expr}
    (hx : ∀ index, (translatePair .empty interior boundary tag).2.input? side index = some x
      ↔ index = position) :
    (side, position) ∈ r.kernel.components
      ↔ Needs f boundary (side, x)
        ∨ side = .interior ∧ f.kernel.Stands (vanishing boundary) (side, position) := by
  obtain ⟨substituted, bound⟩ := Kernel.of_substituteBoundary r.substituted
  rw [substituted, KernelOver.mem_components_substitute_iff (Kernel.replacesFields_boundary _)
    r.isZero_replacement]
  constructor
  · rintro ⟨⟨side', index⟩, stands, hc⟩
    -- the field of the old kernel that the position comes from: an interior one is kept, an
    -- exterior one is replaced by the kernel of a component that uses `x`
    cases side' with
    | interior =>
      rw [KernelOver.substitute_of_none rfl] at hc
      cases List.mem_singleton.mp hc
      exact .inr ⟨rfl, stands⟩
    | exterior =>
      rcases getElem?_of_forall₂ r.renders index with ⟨-, hk⟩ | ⟨e, k, he, hk, renders⟩
      · have := bound index stands.mem_components
        have := List.getElem?_eq_none_iff.mp hk
        omega
      · have replaced : Kernel.boundaryReplacement r.kernels (.component .exterior index) = some k := hk
        rw [KernelOver.substitute_of_some replaced] at hc
        obtain ⟨x', hu, hx'⟩ := renders.used side position hc
        cases hx'.symm.trans ((hx position).mpr rfl)
        exact .inl ⟨index, e, stands, he, hu⟩
  · rintro (⟨index, e, stands, he, hu⟩ | ⟨rfl, stands⟩)
    · refine ⟨(.exterior, index), stands, ?_⟩
      rcases getElem?_of_forall₂ r.renders index with ⟨he', -⟩ | ⟨e', k, he', hk, renders⟩
      · nomatch he'.symm.trans he
      · cases he'.symm.trans he
        have replaced : Kernel.boundaryReplacement r.kernels (.component .exterior index) = some k := hk
        obtain ⟨position', hc, hi⟩ := renders.listed side x hu
        obtain rfl := (hx position').mp hi
        rw [KernelOver.substitute_of_some replaced]
        exact hc
    · refine ⟨(.interior, position), stands, ?_⟩
      rw [KernelOver.substitute_of_none rfl]
      exact List.mem_cons_self

/-! ## Pairs -/

/-- What the new pair of a flux holds: on one side the interior components and the inputs `moved`
beside them, on the other the inputs `named`, all of them rewritten to `volume` and `boundaries`;
and which of the inputs its new kernel reads.  A position beyond the interior components that the
old kernel reads counts as well. -/
structure PairInputs (f f' : Flux) (interior boundary : Expr) (moved named volume boundaries : List Expr) :
    Prop where
  kind : f'.kind = f.kind
  volume : List.Forall₂ (fun x z => x.rewritten = .ok z) (interior.components ++ moved) volume
  boundaries : List.Forall₂ (fun x z => x.rewritten = .ok z) named boundaries
  mem_moved : ∀ x, x ∈ moved
    ↔ x ∉ interior.components ∧ ∃ c ∈ boundary.components, c.Reads (.interior, x)
  mem_named : ∀ x, x ∈ named ↔ ∃ c ∈ boundary.components, c.Reads (.exterior, x)
  reads_moved : ∀ index x, moved[index]? = some x →
    ((.interior, interior.components.length + index) ∈ f'.kernel.components
      ↔ Needs f boundary (.interior, x)
        ∨ f.kernel.Stands (vanishing boundary) (.interior, interior.components.length + index))
  reads_named : ∀ index x, named[index]? = some x →
    ((.exterior, index) ∈ f'.kernel.components ↔ Needs f boundary (.exterior, x))

/-- A flux that does not collapse becomes a flux on two lists, whose inputs `PairInputs` describes.
-/
theorem FluxRewriting.pairInputs (r : FluxRewriting f interior boundary tag y)
    (hz : ¬r.kernel.isZero = true) :
    y = .apply (.flux ⟨f.kind, r.kernel⟩) (.pair (.array r.volume) (.array r.boundaries) tag)
      ∧ ∃ moved named, PairInputs f ⟨f.kind, r.kernel⟩ interior boundary moved named r.volume
        r.boundaries := by
  have result := r.result
  rw [if_neg hz] at result
  obtain ⟨hy, hv, hb⟩ := result
  -- both lists come from registering, so their inputs stand at one position each
  obtain ⟨⟨vs, volume⟩, ⟨bs, boundaries⟩⟩ := registered_translatePair .empty interior boundary tag
  obtain ⟨moved, listed, nodup, fresh⟩ := growsFrom_registerAll vs interior.components
  obtain ⟨named, listed', nodup', -⟩ := growsFrom_registerAll bs []
  rw [List.nil_append] at listed'
  rw [← volume] at listed
  rw [← boundaries] at listed'
  refine ⟨hy, moved, named, rfl, listed ▸ hv, listed' ▸ hb, ?_, ?_, ?_, ?_⟩
  · intro x
    -- the volume inputs are the interior components and what is read beneath a restriction
    have mem : x ∈ (translatePair .empty interior boundary tag).2.volume ↔ _ :=
      lists_translatePair r.translated (.interior, x)
    rw [listed] at mem
    constructor
    · intro hx
      refine ⟨fresh x hx, ?_⟩
      rcases mem.mp (List.mem_append_right _ hx) with ⟨-, old⟩ | reads
      · exact absurd old (fresh x hx)
      · exact reads
    · rintro ⟨new, reads⟩
      exact (List.mem_append.mp (mem.mpr (.inr reads))).resolve_left new
  · intro x
    -- the boundary inputs are what is read on the boundary
    have mem : x ∈ (translatePair .empty interior boundary tag).2.boundary ↔ _ :=
      lists_translatePair r.translated (.exterior, x)
    rw [listed'] at mem
    exact mem.trans (or_iff_right nofun)
  · intro index x hx
    have place (i : Nat) : (translatePair .empty interior boundary tag).2.input? .interior i = some x
        ↔ i = interior.components.length + index := by
      show (translatePair .empty interior boundary tag).2.volume[i]? = some x ↔ _
      rw [listed]
      exact getElem?_added nodup fresh hx i
    exact (r.mem_components_iff place).trans (or_congr_right (and_iff_right rfl))
  · intro index x hx
    have place (i : Nat) : (translatePair .empty interior boundary tag).2.input? .exterior i = some x
        ↔ i = index := by
      show (translatePair .empty interior boundary tag).2.boundary[i]? = some x ↔ _
      rw [listed', ← Nat.zero_add index]
      exact getElem?_added nodup' (fun _ _ => List.not_mem_nil) hx i
    exact (r.mem_components_iff place).trans (or_iff_left fun h => nomatch h.1)

/-- The kernel `k` reads all boundary inputs, and the volume inputs from position `kept` on. -/
def ReadsAll (k : Kernel) (kept : Nat) (volume boundaries : List Expr) : Prop :=
  (∀ index < boundaries.length, (.exterior, index) ∈ k.components)
    ∧ ∀ index < volume.length, kept ≤ index → (.interior, index) ∈ k.components

/-- The new kernel reads all the inputs that were listed, exactly if each of them is needed, or
stands at a position that the old kernel reads. -/
theorem PairInputs.readsAll_iff {moved named volume boundaries : List Expr}
    (h : PairInputs f f' interior boundary moved named volume boundaries) :
    ReadsAll f'.kernel interior.components.length volume boundaries
      ↔ (∀ x ∈ named, Needs f boundary (.exterior, x))
        ∧ ∀ index x, moved[index]? = some x → Needs f boundary (.interior, x)
          ∨ f.kernel.Stands (vanishing boundary) (.interior, interior.components.length + index) := by
  have volumes : interior.components.length + moved.length = volume.length := by
    rw [← h.volume.length_eq, List.length_append]
  have length : named.length = boundaries.length := h.boundaries.length_eq
  constructor
  · rintro ⟨exteriors, interiors⟩
    refine ⟨fun x hx => ?_, fun index x hx => ?_⟩
    · obtain ⟨index, hlt, rfl⟩ := List.getElem_of_mem hx
      exact (h.reads_named index _ (List.getElem?_eq_getElem hlt)).mp (exteriors index (by omega))
    · have hlt := (List.getElem?_eq_some_iff.mp hx).1
      exact (h.reads_moved index x hx).mp (interiors _ (by omega) (by omega))
  · rintro ⟨exteriors, interiors⟩
    refine ⟨fun index hlt => ?_, fun index hlt hle => ?_⟩
    · have hlt : index < named.length := by omega
      exact (h.reads_named index _ (List.getElem?_eq_getElem hlt)).mpr
        (exteriors _ (List.getElem_mem hlt))
    · obtain ⟨index, rfl⟩ := Nat.exists_eq_add_of_le hle
      have hx := List.getElem?_eq_getElem (l := moved) (i := index) (by omega)
      exact (h.reads_moved index _ hx).mpr (interiors index _ hx)

end Expr

/-! ## Rewriters -/

namespace Rewrite

open OperatorTemplate.Expr

variable {s : RewriteState} {e y interior boundary : Expr} {f : Flux} {tag : BoundaryTag}

/-- **Inputs of rewritten fluxes.**  A flux on a pair that an accepted root has, whatever was
rewritten before, collapses to zero exactly if its kernel vanishes.  Otherwise the new pair holds what
the boundary components read, and the new kernel reads of it what is needed; so all of it, exactly if
all that is read is needed. -/
theorem root_inputs (hs : s.Reachable) (h : ((root e).run.run s).1 = .ok y)
    (hm : Met (.apply (.flux f) (.pair interior boundary tag)) e) :
    ∃ z, (Expr.apply (.flux f) (.pair interior boundary tag)).rewritten = .ok z
      ∧ (f.kernel.Vanishes (vanishing boundary) ∧ z = .zero
        ∨ ¬f.kernel.Vanishes (vanishing boundary)
          ∧ ∃ f' moved named volume boundaries,
            z = .apply (.flux f') (.pair (.array volume) (.array boundaries) tag)
            ∧ PairInputs f f' interior boundary moved named volume boundaries
            ∧ (ReadsAll f'.kernel interior.components.length volume boundaries
              ↔ (∀ x ∈ named, Needs f boundary (.exterior, x))
                ∧ ∀ index x, moved[index]? = some x → Needs f boundary (.interior, x)
                  ∨ f.kernel.Stands (vanishing boundary)
                    (.interior, interior.components.length + index))) := by
  have accepted : e.rewritten = .ok y := (answers_root e s hs.valid).1.symm.trans h
  obtain ⟨z, hz⟩ := hm.exists_rewritten accepted
  obtain ⟨r⟩ := exists_fluxRewriting hz
  refine ⟨z, hz, ?_⟩
  by_cases hzero : r.kernel.isZero = true
  · have result := r.result
    rw [if_pos hzero] at result
    exact .inl ⟨r.isZero_kernel.mp hzero, result⟩
  · obtain ⟨hy, moved, named, inputs⟩ := r.pairInputs hzero
    refine .inr ⟨fun hv => hzero (r.isZero_kernel.mpr hv), ?_⟩
    exact ⟨_, moved, named, r.volume, r.boundaries, hy, inputs, inputs.readsAll_iff⟩

/-- The kernel reads one of two boundary components.  In it a variable stands beside a zero factor,
and a volume field is restricted: the variable and the other component are on the new pair, and the new
kernel reads the volume field alone. -/
theorem root_inputs_product :
    let u : Expr := .atom (.variable "u")
    let v : Expr := .atom (.variable "v")
    let g : Expr := .atom (.variable "g")
    let w : Expr := .atom (.variable "w")
    let wall : BoundaryTag := .named "wall"
    let f : Flux := ⟨.plain, .product [.component .exterior 0, .component .interior 0]⟩
    let f' : Flux := ⟨.plain, .product [.component .interior 1, .component .interior 0]⟩
    let field : Expr := .array [.sum [.product [.zero, g], .apply (.restrict wall) v], w]
    let flux : Expr := .apply (.flux f) (.pair u field wall)
    let flux' : Expr := .apply (.flux f') (.pair (.array [u, v]) (.array [g, w]) wall)
    ((root (.sum [u, flux])).run.run {}).1 = .ok (.sum [u, flux'])
      ∧ ∃ moved named, PairInputs f f' u field moved named [u, v] [g, w] := by
  intro u v g w wall f f' field flux flux'
  have accepted : ((root (.sum [u, flux])).run.run {}).1 = .ok (.sum [u, flux']) := by
    decide +kernel
  have alone : ((root flux).run.run {}).1 = .ok flux' := by decide +kernel
  have met : Met flux (.sum [u, flux]) := .child rfl (.tail _ List.mem_cons_self) .self
  obtain ⟨z, hz, h⟩ := root_inputs .init accepted met
  obtain rfl : flux' = z := by
    have answer := (answers_root flux {} RewriteState.valid_init).1
    exact Except.ok.inj (alone.symm.trans (answer.trans hz))
  rcases h with ⟨-, h⟩ | ⟨-, _, moved, named, _, _, h, inputs, -⟩
  · nomatch h
  · obtain ⟨hflux, hpair⟩ := Expr.apply.inj h
    obtain ⟨hvolume, hboundaries, -⟩ := Expr.pair.inj hpair
    obtain rfl := Operator.flux.inj hflux
    obtain rfl := Expr.array.inj hvolume
    obtain rfl := Expr.array.inj hboundaries
    exact ⟨accepted, moved, named, inputs⟩

/-- Beside a zero factor a variable is not needed.  The new pair holds it all the same, and the new
kernel does not read it. -/
theorem not_readsAll :
    let u : Expr := .atom (.variable "u")
    let g : Expr := .atom (.variable "g")
    let h : Expr := .atom (.variable "h")
    let wall : BoundaryTag := .named "wall"
    let flux : Expr := .apply (.flux ⟨.plain, .component .exterior 0⟩)
      (.pair u (.sum [.product [.zero, g], h]) wall)
    let kernel : Kernel := .component .exterior 1
    ((root flux).run.run {}).1
        = .ok (.apply (.flux ⟨.plain, kernel⟩) (.pair (.array [u]) (.array [g, h]) wall))
      ∧ ¬ReadsAll kernel u.components.length [u] [g, h] := by
  intro u g h wall flux kernel
  refine ⟨by decide +kernel, fun reads => ?_⟩
  exact absurd (reads.1 0 (by decide)) (by decide)

end Rewrite

end OperatorTemplate
