import OperatorTemplate.Proofs.Boundary.Arithmetic
/-!
# What rewriting preserves

An interpretation gives every expression `e` a value `I.denote e`, node by node; what a value is
stays open.  Values have a trace on each part of the boundary and a face value there, functions of
the face. Of an interpretation it is required that a flux on a pair depends on the values of its
kernel at the faces alone, that a flux whose kernel vanishes at every face is zero, and that face
values are taken pointwise through what a kernel can compute (`Interpretation`).

The proof goes in three steps.

* The kernel `l` that stands for a boundary expression `e` computes its face value: at every face
  `x`, the value of `l` is the face value of `I.denote e` (`computes_of_kernel`).  By induction on
  the size of `e`.
* In the kernel of a flux every exterior component is replaced by the kernel of a boundary
  component, and every interior component keeps its place; so at every face the new kernel has on
  the new fields the value that the old one had on the old fields (`value_substituted`).  This is
  the crux.
* So a rewritten flux denotes what the old one did, and with it every expression around it
  (`denote_rewritten`), and every root (`map_denote_rewriteBoundaryFluxes`).

The kernels of the template may read interior components only where their pairs have them
(`Expr.InteriorInRange`): a rewritten pair has more, and what was out of range would come to mean
one of these.
-/

namespace OperatorTemplate

universe u v

variable {K : Type u} [Field K]

/-! ## Interpretations -/

/-- A compositional reading of expressions. -/
structure Interpretation (K : Type u) [Field K] where
  reading : KernelReading K
  /-- What expressions denote. -/
  Value : Type v
  Face : BoundaryTag → Type v
  /-- The components of the outward normal at a face. -/
  normal : (tag : BoundaryTag) → Face tag → Nat → K
  /-- The values of a volume field on the faces of a part of the boundary. -/
  trace : (tag : BoundaryTag) → Value → Face tag → K
  /-- The values of a boundary field. -/
  faceValue : (tag : BoundaryTag) → Value → Face tag → K
  /-- What a node does to the values of its children. -/
  node : Expr.Head → List Value → Value
  /-- The flux on a pair, from the values of its kernel. -/
  flux : FluxKind → (tag : BoundaryTag) → (Face tag → K) → Value
  flux_zero : ∀ kind tag, flux kind tag (fun _ => 0) = node (.atom (.constant (.int 0))) []
  faceValue_constant : ∀ tag x v,
    faceValue tag (node (.atom (.constant v)) []) x = reading.literal v
  faceValue_parameter : ∀ tag x name,
    faceValue tag (node (.atom (.parameter name)) []) x = reading.parameter name
  faceValue_normal : ∀ tag x axis grid,
    faceValue tag (node (.atom (.normal tag axis grid)) []) x = normal tag x axis
  faceValue_sum : ∀ tag x vs,
    faceValue tag (node .sum vs) x = (vs.map (faceValue tag · x)).sum
  faceValue_product : ∀ tag x vs,
    faceValue tag (node .product vs) x = (vs.map (faceValue tag · x)).prod
  faceValue_quotient : ∀ tag x a b,
    faceValue tag (node .quotient [a, b]) x = faceValue tag a x / faceValue tag b x
  faceValue_power : ∀ tag x a b,
    faceValue tag (node .power [a, b]) x = reading.power (faceValue tag a x) (faceValue tag b x)
  faceValue_comparison : ∀ tag x a r b,
    faceValue tag (node (.comparison r) [a, b]) x
      = reading.comparison r (faceValue tag a x) (faceValue tag b x)
  faceValue_conditional : ∀ tag x c a b,
    faceValue tag (node .conditional [c, a, b]) x
      = if reading.holds (faceValue tag c x) then faceValue tag a x else faceValue tag b x
  /-- The condition is that the criterion is greater than zero. -/
  faceValue_ifPositive : ∀ tag x c a b,
    faceValue tag (node .ifPositive [c, a, b]) x
      = if reading.holds (reading.comparison .gt (faceValue tag c x) 0) then faceValue tag a x
        else faceValue tag b x
  faceValue_call : ∀ tag x f vs,
    faceValue tag (node (.call f) vs) x = reading.call f (vs.map (faceValue tag · x))
  faceValue_shared : ∀ tag x label v,
    faceValue tag (node (.shared label) [v]) x = faceValue tag v x
  faceValue_restrict : ∀ tag x v,
    faceValue tag (node (.apply (.restrict tag)) [v]) x = trace tag v x

namespace Interpretation

variable (I : Interpretation.{u, v} K)

/-- What a kernel reads at a face, the values of the fields on both sides given.  Beyond the fields
it reads zeros. -/
def pairFace {tag : BoundaryTag} (volume boundary : List I.Value) (x : I.Face tag) :
    FaceData Nat K where
  field
    | .interior, index => (volume[index]?).elim 0 (I.trace tag · x)
    | .exterior, index => (boundary[index]?).elim 0 (I.faceValue tag · x)
  normal := I.normal tag x

/-- The value of a flux on a pair. -/
def pairFlux (f : Flux) (tag : BoundaryTag) (volume boundary : List I.Value) : I.Value :=
  I.flux f.kind tag fun x => f.kernel.value I.reading (I.pairFace volume boundary x)

/-- The value of a node, from the values of smaller expressions. -/
def denoteStep : (e : Expr) → Expr.Descent I.Value e → I.Value
  | .apply (.flux f) (.pair interior boundary tag), denote =>
    have small {c y : Expr} (hc : c ∈ y.components) (hy : y ∈ [interior, boundary]) :
        c.size < (Expr.apply (.flux f) (.pair interior boundary tag)).size :=
      Nat.lt_of_le_of_lt (Expr.size_le_of_mem_components hc)
        (Nat.lt_trans (Expr.size_lt_of_mem_children (e := .pair interior boundary tag) hy)
          (Expr.size_lt_of_mem_children List.mem_cons_self))
    I.pairFlux f tag
      (interior.components.attach.map fun c => denote c.1 (small c.2 List.mem_cons_self))
      (boundary.components.attach.map fun c =>
        denote c.1 (small c.2 (List.mem_cons_of_mem _ List.mem_cons_self)))
  | e, denote =>
    I.node e.head (e.children.attach.map fun c => denote c.1 (Expr.size_lt_of_attached c))

/-- The value of an expression. -/
def denote (e : Expr) : I.Value := e.recurse I.denoteStep

/-- A flux on a pair denotes what its kernel makes of the values of the interior and boundary
components. -/
theorem denote_pairFlux (f : Flux) (interior boundary : Expr) (tag : BoundaryTag) :
    I.denote (.apply (.flux f) (.pair interior boundary tag))
      = I.pairFlux f tag (interior.components.map I.denote) (boundary.components.map I.denote) := by
  rw [denote, Expr.recurse_eq]
  show I.pairFlux f tag (interior.components.attach.map fun c => I.denote c.1)
    (boundary.components.attach.map fun c => I.denote c.1) = _
  rw [List.attach_map_val, List.attach_map_val]

/-- Any other node denotes what its head makes of the values of its children. -/
theorem denote_of_not_pairFlux {e : Expr} (h : e.isPairFlux = false) :
    I.denote e = I.node e.head (e.children.map I.denote) := by
  rw [denote, Expr.recurse_eq]
  unfold denoteStep
  split
  · nomatch h
  · show I.node _ ((List.attach _).map fun c => I.denote c.1) = _
    rw [List.attach_map_val]

/-! ## Kernels compute face values -/

variable {I} {tag : BoundaryTag}

/-- What a kernel with named fields reads at a face. -/
def namedFace (I : Interpretation.{u, v} K) {tag : BoundaryTag} (x : I.Face tag) :
    FaceData Expr K where
  field
    | .interior, e => I.trace tag (I.denote e) x
    | .exterior, e => I.faceValue tag (I.denote e) x
  normal := I.normal tag x

/-- At every face of the pair's boundary, the kernel has the face value of the expression. -/
def Computes (I : Interpretation.{u, v} K) (tag : BoundaryTag) (e : Expr) (l : KernelOver Expr) :
    Prop :=
  ∀ x : I.Face tag, l.value I.reading (I.namedFace x) = I.faceValue tag (I.denote e) x

/-- The kernel that reads `e` itself on the boundary computes its face value. -/
theorem computes_exterior (e : Expr) : I.Computes tag e e.exterior := fun _ => rfl

/-- The kernel of an application computes its face value: for a restriction it is the trace of what
is restricted, in all other cases the application is read as it is. -/
theorem computes_of_kernelOfApplication : {op : Operator} → {field : Expr} → {l : KernelOver Expr} →
    Expr.kernelOfApplication tag op field = .ok l → I.Computes tag (.apply op field) l
  | .restrict found, field, _, h => by
    obtain ⟨⟨⟩, htag, h⟩ := bind_eq_ok.mp h
    cases h
    intro x
    rw [I.denote_of_not_pairFlux rfl]
    have := Expr.eq_of_checkTag htag
    subst this
    exact (I.faceValue_restrict found x (I.denote field)).symm
  | .exchange _ _, _, _, h | .upsampleBoundary _ _, _, _, h => by
    obtain ⟨⟨⟩, -, h⟩ := bind_eq_ok.mp h
    cases h
    exact computes_exterior _
  | .upsample _, field, _, h => by
    unfold Expr.kernelOfApplication at h
    dsimp only at h
    -- with an evident tag or without one, the application is read as it is
    cases ht : Translate.evidentTag? field with
    | some found =>
      rw [ht] at h
      obtain ⟨⟨⟩, -, h⟩ := bind_eq_ok.mp h
      cases h
      exact computes_exterior _
    | none =>
      rw [ht] at h
      cases h
      exact computes_exterior _

/-- The kernel of an atom computes its face value. -/
theorem computes_of_kernelOfAtom : {a : Atom} → {l : KernelOver Expr} →
    Expr.kernelOfAtom tag a = .ok l → I.Computes tag (.atom a) l
  | .constant v, _, h => by
    cases h
    intro x
    rw [I.denote_of_not_pairFlux rfl]
    exact (I.faceValue_constant tag x v).symm
  | .parameter name, _, h => by
    cases h
    intro x
    rw [I.denote_of_not_pairFlux rfl]
    exact (I.faceValue_parameter tag x name).symm
  | .variable _, _, h => by
    cases h
    exact computes_exterior _
  | .normal found axis grid, _, h => by
    obtain ⟨⟨⟩, htag, h⟩ := bind_eq_ok.mp h
    cases h
    intro x
    rw [I.denote_of_not_pairFlux rfl]
    -- a normal is only accepted for the tag of the pair
    have := Expr.eq_of_checkTag htag
    subst this
    exact (I.faceValue_normal found x axis grid).symm

/-- The kernels of several expressions have their face values, one by one. -/
theorem values_of_computes {es : List Expr} {ls : List (KernelOver Expr)}
    (h : List.Forall₂ (I.Computes tag) es ls) (x : I.Face tag) :
    ls.map (·.value I.reading (I.namedFace x)) = (es.map I.denote).map (I.faceValue tag · x) := by
  induction h with
  | nil => rfl
  | cons first _ ih => rw [List.map_cons, first x, ih, List.map_cons, List.map_cons]

/-- If `ls` compute the face values of the operands of an arithmetic node `e`, then the kernel that is
assembled from them computes the face value of `e`: each folding constructor has the value of the
operation that it is named after, and face values are taken pointwise through that operation. -/
theorem computes_assemble {e : Expr} (he : e.IsArithmetic) {ls : List (KernelOver Expr)}
    (operands : List.Forall₂ (I.Computes tag) e.children ls) : I.Computes tag e (e.assemble ls) := by
  intro x
  cases he with
  | sum es =>
    rw [I.denote_of_not_pairFlux rfl, Expr.assemble, KernelOver.value_sumOf,
      values_of_computes operands x]
    exact (I.faceValue_sum tag x _).symm
  | product es =>
    rw [I.denote_of_not_pairFlux rfl, Expr.assemble, KernelOver.value_productOf,
      values_of_computes operands x]
    exact (I.faceValue_product tag x _).symm
  | call f es =>
    rw [I.denote_of_not_pairFlux rfl, Expr.assemble, KernelOver.value, KernelOver.valueAll_eq_map,
      values_of_computes operands x]
    exact (I.faceValue_call tag x f _).symm
  | quotient a b =>
    rcases operands with _ | ⟨ha, _ | ⟨hb, _ | _⟩⟩
    rw [I.denote_of_not_pairFlux rfl, Expr.assemble, KernelOver.value_quotientOf, ha x, hb x]
    exact (I.faceValue_quotient tag x _ _).symm
  | power a b =>
    rcases operands with _ | ⟨ha, _ | ⟨hb, _ | _⟩⟩
    rw [I.denote_of_not_pairFlux rfl, Expr.assemble, KernelOver.value, ha x, hb x]
    exact (I.faceValue_power tag x _ _).symm
  | comparison a r b =>
    rcases operands with _ | ⟨ha, _ | ⟨hb, _ | _⟩⟩
    rw [I.denote_of_not_pairFlux rfl, Expr.assemble, KernelOver.value, ha x, hb x]
    exact (I.faceValue_comparison tag x _ r _).symm
  | conditional c a b =>
    rcases operands with _ | ⟨hc, _ | ⟨ha, _ | ⟨hb, _ | _⟩⟩⟩
    rw [I.denote_of_not_pairFlux rfl, Expr.assemble, KernelOver.value_conditionalOf, hc x, ha x,
      hb x]
    exact (I.faceValue_conditional tag x _ _ _).symm
  | ifPositive c a b =>
    rcases operands with _ | ⟨hc, _ | ⟨ha, _ | ⟨hb, _ | _⟩⟩⟩
    -- the condition of the kernel compares the criterion with a literal zero
    rw [I.denote_of_not_pairFlux rfl, Expr.assemble, KernelOver.value_conditionalOf,
      KernelOver.value, KernelOver.value_zero, hc x, ha x, hb x]
    exact (I.faceValue_ifPositive tag x _ _ _).symm

/-- The kernel `l` of a boundary expression `e` computes the face value of `e`.  The induction is on
the size of `e`: arithmetic is assembled from its operands, a cheap common subexpression has the kernel
of its body, and everything else is a field or an atom. -/
theorem computes_of_kernel (e : Expr) {l : KernelOver Expr} (h : e.kernel tag = .ok l) :
    I.Computes tag e l := by
  have operand (d : Expr) (hd : d ∈ e.children) {k : KernelOver Expr} (hk : d.kernel tag = .ok k) :
      I.Computes tag d k := by
    have := Expr.size_lt_of_mem_children hd
    exact computes_of_kernel d hk
  by_cases ha : e.IsArithmetic
  · rw [Expr.kernel_of_isArithmetic ha] at h
    obtain ⟨ls, hls, h⟩ := bind_eq_ok.mp h
    cases h
    have sources := (List.forall₂_and_left _ _).mpr ⟨operand, Expr.forall₂_of_kernels hls⟩
    exact computes_assemble ha (sources.imp fun _ _ source => source.1 source.2)
  · cases e with
    | atom _ => exact computes_of_kernelOfAtom h
    | subscript _ _ | exchange _ _ _ =>
      cases h
      exact computes_exterior _
    | apply _ _ => exact computes_of_kernelOfApplication h
    | shared body label =>
      obtain ⟨cost, -, h⟩ := bind_eq_ok.mp h
      cases cost with
      | true =>
        cases h
        exact computes_exterior _
      | false =>
        intro x
        rw [operand body List.mem_cons_self h x,
          I.denote_of_not_pairFlux (e := .shared body label) rfl]
        exact (I.faceValue_shared tag x label (I.denote body)).symm
    | pair _ _ _ | array _ | domainFlux _ _ => nomatch h
    | _ => exact absurd (by constructor) ha
termination_by e.size

end Interpretation

/-! ## Inputs are parts -/

theorem Expr.hereditary_partOf (e : Expr) : Hereditary (PartOf · e) :=
  fun _ hx _ hc => (PartOf.of_child hc).trans hx

/-- The inputs of a pair are parts of it, those that it starts with and those that are listed. -/
theorem allInputs_partOf (costs : CostMemory) (interior boundary : Expr) (tag : BoundaryTag) :
    (translatePair costs interior boundary tag).2.AllInputs
      (Expr.PartOf · (.pair interior boundary tag)) := by
  have part {x y : Expr} (hx : x ∈ y.components) (hy : y ∈ [interior, boundary]) :
      Expr.PartOf x (.pair interior boundary tag) :=
    (Expr.PartOf.of_mem_components hx).trans (.of_child hy)
  exact Translate.keeps_all (Translate.stable_allInputs _) (Expr.hereditary_partOf _) _
    (fun x hx => part hx (List.mem_cons_of_mem _ List.mem_cons_self)) _
    ⟨fun x hx => part hx List.mem_cons_self, fun _ h => nomatch h⟩

/-! ## Rewriting -/

/-- Where a flux meets a pair, its kernel reads interior components that the pair has. -/
def Expr.InteriorInRange (e : Expr) : Prop :=
  ∀ f interior boundary tag, e = .apply (.flux f) (.pair interior boundary tag) →
    ∀ index, (Side.interior, index) ∈ f.kernel.components → index < interior.components.length

namespace Kernel

/-- The replacement of `substituteBoundary`. -/
def boundaryReplacement (replacements : List Kernel) : Kernel → Option Kernel
  | .component .exterior index => replacements[index]?
  | _ => none

/-- Where a substitution of boundary kernels succeeds, it is the substitution of fields by
`boundaryReplacement`, and every exterior position of the kernel has a replacement. -/
theorem of_substituteBoundary {kernel k : Kernel} {replacements : List Kernel}
    (h : kernel.substituteBoundary replacements = .ok k) :
    k = kernel.substitute (boundaryReplacement replacements)
      ∧ ∀ index, (Side.exterior, index) ∈ kernel.components → index < replacements.length := by
  unfold substituteBoundary at h
  split at h
  · nomatch h
  next hnone =>
    cases h
    refine ⟨rfl, fun index hc => ?_⟩
    have := List.find?_eq_none.mp hnone _ hc
    simp at this
    exact this

/-- The replacement by boundary kernels replaces fields alone: any other kernel stays as it is. -/
theorem replacesFields_boundary (replacements : List Kernel) :
    KernelOver.ReplacesFields (boundaryReplacement replacements) := by
  intro k hk
  unfold boundaryReplacement
  split
  · exact absurd rfl (hk _ _)
  · rfl

end Kernel

namespace Interpretation

variable {I : Interpretation.{u, v} K} {tag : BoundaryTag}

/-- The face that shows the fields that have names, and zeros elsewhere. -/
def optionalFace (x : I.Face tag) : FaceData (Option Expr) K where
  field side e := e.elim 0 ((I.namedFace x).field side)
  normal := I.normal tag x

/-- A kernel `k` that names `l` has at the face of the lists of inputs the value that `l` has at the
face of all expressions. -/
theorem value_of_names {s : TranslationState} {k : Kernel} {l : KernelOver Expr} (h : s.Names k l)
    (x : I.Face tag) :
    k.value I.reading (I.pairFace (s.volume.map I.denote) (s.boundary.map I.denote) x)
      = l.value I.reading (I.namedFace x) := by
  -- both faces show the same field at a position that is listed, and zero at others
  have positions : I.pairFace (s.volume.map I.denote) (s.boundary.map I.denote) x
      = ⟨fun side index => (optionalFace x).field side (s.input? side index),
          (optionalFace x).normal⟩ := by
    unfold pairFace
    congr 1
    funext side index
    cases side with
    | interior =>
      show ((s.volume.map I.denote)[index]?).elim 0 (I.trace tag · x)
        = (s.volume[index]?).elim 0 fun e => I.trace tag (I.denote e) x
      rw [List.getElem?_map, Option.elim_map]
      rfl
    | exterior =>
      show ((s.boundary.map I.denote)[index]?).elim 0 (I.faceValue tag · x)
        = (s.boundary[index]?).elim 0 fun e => I.faceValue tag (I.denote e) x
      rw [List.getElem?_map, Option.elim_map]
      rfl
  rw [positions, ← KernelOver.value_mapFields, h, KernelOver.value_mapFields]
  rfl

/-- With the kernels of the boundary components put for them, the kernel of a flux has on the
gathered inputs the value that it had on the components of the pair. -/
theorem value_substituted {f : Flux} {interior boundary y : Expr}
    (r : Expr.FluxRewriting f interior boundary tag y)
    (range : ∀ index, (Side.interior, index) ∈ f.kernel.components →
      index < interior.components.length) (x : I.Face tag) :
    r.kernel.value I.reading
        (I.pairFace ((translatePair .empty interior boundary tag).2.volume.map I.denote)
          ((translatePair .empty interior boundary tag).2.boundary.map I.denote) x)
      = f.kernel.value I.reading
          (I.pairFace (interior.components.map I.denote) (boundary.components.map I.denote) x) := by
  have listed := (follows_translatePair CostMemory.valid_empty interior boundary tag).2
  obtain ⟨ls, sources, names⟩ := exists_kernels_of_translatePair r.translated
  obtain ⟨substituted, bound⟩ := Kernel.of_substituteBoundary r.substituted
  rw [substituted, KernelOver.value_substitute]
  refine KernelOver.valueUnder_of_fields (Kernel.replacesFields_boundary r.kernels) ?_ f.kernel ?_
  · rfl
  rintro ⟨side, index⟩ hc
  cases side with
  | interior =>
    -- an interior field of the pair has kept its position
    have hlt := range index hc
    rw [KernelOver.valueUnder.eq_def]
    show ((List.map I.denote _)[index]?).elim 0 (I.trace tag · x)
      = ((List.map I.denote _)[index]?).elim 0 (I.trace tag · x)
    rw [List.getElem?_map, List.getElem?_map, List.getElem?_eq_getElem hlt,
      getElem?_of_prefix listed (List.getElem?_eq_getElem hlt)]
  | exterior =>
    -- a boundary field is computed by its kernel
    have hlt := bound index hc
    have hlt' : index < ls.length := names.length_eq ▸ hlt
    have hlt'' : index < boundary.components.length := sources.length_eq ▸ hlt'
    rw [KernelOver.valueUnder.eq_def]
    rw [show Kernel.boundaryReplacement r.kernels (.component .exterior index) = r.kernels[index]?
      from rfl, List.getElem?_eq_getElem hlt]
    show _ = ((List.map I.denote _)[index]?).elim 0 (I.faceValue tag · x)
    rw [List.getElem?_map, List.getElem?_eq_getElem hlt'']
    exact (value_of_names (names.get hlt hlt') x).trans
      (computes_of_kernel _ (sources.get hlt'' hlt') x)

/-- Rewriting an expression preserves its value, if all its parts have their interior positions in
range.  By induction on size, for fluxes on pairs and for all other nodes. -/
theorem denote_rewritten (e : Expr) {y : Expr} (range : ∀ x, Expr.PartOf x e → x.InteriorInRange)
    (h : e.rewritten = .ok y) : I.denote y = I.denote e := by
  have ih (x : Expr) {z : Expr} (hx : Expr.PartOf x e) (_ : x.size < e.size)
      (hz : x.rewritten = .ok z) : I.denote z = I.denote x :=
    denote_rewritten x (fun _ hw => range _ (hw.trans hx)) hz
  by_cases hp : e.isPairFlux = true
  · obtain ⟨f, interior, boundary, tag, rfl⟩ := Expr.exists_of_isPairFlux hp
    obtain ⟨r⟩ := Expr.exists_fluxRewriting h
    have values := value_substituted (I := I) r (range _ .self f interior boundary tag rfl)
    have result := r.result
    rw [denote_pairFlux]
    by_cases hz : r.kernel.isZero = true
    · -- the new kernel is a literal zero, so the old one has the value zero at every face
      rw [if_pos hz] at result
      rw [result, pairFlux]
      simp only [← values, KernelOver.value_of_isZero hz]
      rw [I.flux_zero]
      exact I.denote_of_not_pairFlux rfl
    · rw [if_neg hz] at result
      -- else the flux stands on the rewritten inputs, which denote what the inputs did
      obtain ⟨hy, hv, hb⟩ := result
      have parts := allInputs_partOf .empty interior boundary tag
      have small := allInputs_translatePair .empty interior boundary tag
      have below : (Expr.pair interior boundary tag).size
          < (Expr.apply (.flux f) (.pair interior boundary tag)).size :=
        Expr.size_lt_of_mem_children List.mem_cons_self
      have inputs {xs zs : List Expr}
          (hxs : ∀ x ∈ xs, Expr.PartOf x (.pair interior boundary tag)
            ∧ x.size < (Expr.pair interior boundary tag).size)
          (hz : List.Forall₂ (fun x z => x.rewritten = .ok z) xs zs) :
          zs.map I.denote = xs.map I.denote :=
        map_eq_of_forall₂ hz fun x hx z _ hz =>
          ih x ((hxs x hx).1.trans (.of_child List.mem_cons_self))
            (Nat.lt_trans (hxs x hx).2 below) hz
      rw [hy, denote_pairFlux, Expr.components, Expr.components,
        inputs (fun x hx => ⟨parts.1 x hx, small.1 x hx⟩) hv,
        inputs (fun x hx => ⟨parts.2 x hx, small.2 x hx⟩) hb, pairFlux, pairFlux]
      simp only [values]
  · have hp : e.isPairFlux = false := by simpa using hp
    -- any other node has the same head, and children of the same values
    have hy := Expr.not_isPairFlux_of_rewritten hp h
    rw [Expr.rewritten_of_not_pairFlux hp] at h
    obtain ⟨hhead, hchildren⟩ := Expr.rebuilt_of_mapChildrenM h
    rw [I.denote_of_not_pairFlux hp, I.denote_of_not_pairFlux hy, hhead]
    congr 1
    exact map_eq_of_forall₂ hchildren fun c hc d _ hd =>
      ih c (.of_child hc) (Expr.size_lt_of_mem_children hc) hd
termination_by e.size

/-- **Rewriting preserves meaning.**  Where the kernels of the roots read interior components that
their pairs have, every root denotes after the rewriting what it denoted before, under every
interpretation `I`. -/
theorem map_denote_rewriteBoundaryFluxes (I : Interpretation.{u, v} K) {roots roots' : List Expr}
    (range : ∀ x ∈ Expr.parts roots, x.InteriorInRange)
    (h : rewriteBoundaryFluxes roots = .ok roots') :
    roots'.map I.denote = roots.map I.denote := by
  rw [rewriteBoundaryFluxes_eq] at h
  exact map_eq_of_forall₂ (forall₂_of_mapM h) fun e he y _ hy =>
    denote_rewritten e (fun x hx => range x (Expr.mem_parts_iff.mpr ⟨e, he, hx⟩)) hy

/-! ## A small interpretation -/

/-- All integers are read as themselves. -/
def sampleReading : KernelReading ℚ := .withMinusOne (-1)

/-- A value on a mesh with one face: the trace there and the face value. -/
def sampleNode : Expr.Head → List (ℚ × ℚ) → ℚ × ℚ
  | .atom (.constant v), _ => (sampleReading.literal v, sampleReading.literal v)
  | .atom (.parameter name), _ => (sampleReading.parameter name, sampleReading.parameter name)
  | .atom (.variable name), _ => (name.length, name.length + 1)
  | .atom (.normal _ axis _), _ => (0, axis)
  | .sum, vs => ((vs.map (·.1)).sum, (vs.map (·.2)).sum)
  | .product, vs => ((vs.map (·.1)).prod, (vs.map (·.2)).prod)
  | .quotient, [a, b] => (a.1 / b.1, a.2 / b.2)
  | .power, [a, b] => (sampleReading.power a.1 b.1, sampleReading.power a.2 b.2)
  | .comparison r, [a, b] => (sampleReading.comparison r a.1 b.1, sampleReading.comparison r a.2 b.2)
  | .conditional, [c, a, b] =>
    (if sampleReading.holds c.1 then a.1 else b.1, if sampleReading.holds c.2 then a.2 else b.2)
  | .ifPositive, [c, a, b] =>
    (if sampleReading.holds (sampleReading.comparison .gt c.1 0) then a.1 else b.1,
      if sampleReading.holds (sampleReading.comparison .gt c.2 0) then a.2 else b.2)
  | .call f, vs => (sampleReading.call f (vs.map (·.1)), sampleReading.call f (vs.map (·.2)))
  | .shared _, [v] => v
  | .apply (.restrict _), [v] => (0, v.1)
  | _, _ => (0, 0)

/-- An interpretation in which a lifted flux counts twice. -/
def sample : Interpretation.{0, 0} ℚ where
  reading := sampleReading
  Value := ℚ × ℚ
  Face _ := Unit
  normal _ _ axis := axis
  trace _ v _ := v.1
  faceValue _ v _ := v.2
  node := sampleNode
  flux
    | .plain, _, values => (values (), values ())
    | .lifted, _, values => (2 * values (), 2 * values ())
  flux_zero kind _ := by
    cases kind with
    | plain => rfl
    | lifted => simp [sampleNode, sampleReading, KernelReading.withMinusOne]
  faceValue_constant _ _ _ := rfl
  faceValue_parameter _ _ _ := rfl
  faceValue_normal _ _ _ _ := rfl
  faceValue_sum _ _ _ := rfl
  faceValue_product _ _ _ := rfl
  faceValue_quotient _ _ _ _ := rfl
  faceValue_power _ _ _ _ := rfl
  faceValue_comparison _ _ _ _ _ := rfl
  faceValue_conditional _ _ _ _ _ := rfl
  faceValue_ifPositive _ _ _ _ _ := rfl
  faceValue_call _ _ _ _ := rfl
  faceValue_shared _ _ _ _ := rfl
  faceValue_restrict _ _ _ := rfl

/-- The boundary field of this flux is twice the trace of `w`. -/
def sampleFlux : Expr :=
  .apply (.flux ⟨.lifted, .sum [.component .interior 0, .component .exterior 0]⟩)
    (.pair (.atom (.variable "u"))
      (.product [.atom (.constant (.int 2)), .apply (.restrict .all) (.atom (.variable "w"))]) .all)

/-- The sample after rewriting: its kernel computes the boundary field itself and needs no boundary
input. -/
def sampleFluxRewritten : Expr :=
  .apply (.flux ⟨.lifted,
      .sum [.component .interior 0, .product [.constant (.int 2), .component .interior 1]]⟩)
    (.pair (.array [.atom (.variable "u"), .atom (.variable "w")]) (.array []) .all)

/-- The kernel of the sample reads one interior component, of a pair that has one. -/
theorem interiorInRange_sampleFlux (x : Expr) (hx : x ∈ Expr.parts [sampleFlux]) :
    x.InteriorInRange := by
  intro f interior boundary tag he index hindex
  subst he
  obtain ⟨e, he, hp⟩ := Expr.mem_parts_iff.mp hx
  rw [List.mem_singleton] at he
  subst he
  -- below the root there is one application, of a restriction
  rcases hp with _ | ⟨hc, hp⟩
  · simp only [KernelOver.components, KernelOver.componentsAll, List.append_nil, List.cons_append,
      List.nil_append, List.mem_cons, Prod.mk.injEq, reduceCtorEq, true_and, false_and, or_false,
      List.not_mem_nil] at hindex
    subst hindex
    decide
  · obtain rfl := List.mem_singleton.mp hc
    rcases hp with _ | ⟨hc, hp⟩
    simp only [Expr.children, List.mem_cons, List.not_mem_nil, or_false] at hc
    rcases hc with rfl | rfl
    · rcases hp with _ | ⟨hc, -⟩
      nomatch hc
    · rcases hp with _ | ⟨hc, hp⟩
      simp only [Expr.children, List.mem_cons, List.not_mem_nil, or_false] at hc
      rcases hc with rfl | rfl
      · rcases hp with _ | ⟨hc, -⟩
        nomatch hc
      · rcases hp with _ | ⟨hc, hp⟩
        obtain rfl := List.mem_singleton.mp hc
        rcases hp with _ | ⟨hc, -⟩
        nomatch hc

/-- The sample is rewritten to a flux without a boundary input, and denotes the same before and
after. -/
theorem map_denote_sampleFlux :
    rewriteBoundaryFluxes [sampleFlux] = .ok [sampleFluxRewritten]
      ∧ [sampleFluxRewritten].map sample.denote = [sampleFlux].map sample.denote := by
  have rewritten : rewriteBoundaryFluxes [sampleFlux] = .ok [sampleFluxRewritten] := by
    decide +kernel
  exact ⟨rewritten,
    map_denote_rewriteBoundaryFluxes sample interiorInRange_sampleFlux rewritten⟩

end Interpretation

end OperatorTemplate
