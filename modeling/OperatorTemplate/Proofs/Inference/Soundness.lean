import OperatorTemplate.Proofs.Inference.Phases
/-!
# Declarative typing

The typing rules as a relation between the final types of a node and of its operands, one rule per
kind of node (`Expr.HasType`).  Nothing in it is incremental: no type is partial, and no rule knows
what is recorded or in which order operands are visited.

A typing that fits an expression and is final wherever something is visited obeys the relation
(`Typed.hasType`), with one lemma for each group of nodes: what a law says as an inequality becomes
an equation, because of a final type there is nothing more to say (`Final.eq_of_le`).  So inference
is sound for it: where it succeeds, the table extends the hints, and what is visited from the roots
has a final entry by the relation (`infer_sound`).
-/

namespace OperatorTemplate

open FieldType

namespace Expr

/-! ## The relation -/

/-- Data that a user binds. -/
inductive IsUserData : Expr → Prop
  | variable (name : String) : IsUserData (.atom (.variable name))
  | subscript (aggregate : Expr) (index : Nat) : IsUserData (.subscript aggregate index)

/-- Geometric data that live on the volume. -/
inductive IsVolumeGeometry : Atom → Prop
  | jacobian (grid : Option QuadratureTag) : IsVolumeGeometry (.jacobian grid)
  | forwardMetric (i j : Nat) : IsVolumeGeometry (.forwardMetric i j)
  | inverseMetric (i j : Nat) : IsVolumeGeometry (.inverseMetric i j)

end Expr

/-- Interior face values: nodal ones are ordinary volume data. -/
inductive FieldType.IsOnFaces : FieldType → Prop
  | nodal : IsOnFaces (.volume .nodal)
  | quadrature (grid : QuadratureTag) : IsOnFaces (.interiorFaces grid)

/-- A final type above the interior faces is one of interior face values. -/
theorem FieldType.isOnFaces_of_le {t : FieldType} (h : .onInteriorFaces ≤ t)
    (hf : t.isFinal = true) : t.IsOnFaces := by
  cases le_def.mp h with
  | refl => nomatch hf
  | interiorFaces grid => exact .quadrature grid
  | nodalFaces => exact .nodal

/-- Interpolation to a grid keeps the domain; what lives neither on the volume nor on the boundary is
taken to the interior faces. -/
def FieldType.upsampled (grid : QuadratureTag) : FieldType → FieldType
  | .volume _ => .volume (.quadrature grid)
  | .boundary tag _ => .boundary tag (.quadrature grid)
  | _ => .interiorFaces grid

/-- If `t` and `u` are final, `t` is on a grid, and both say the same of their domain, then `t` is
`u` interpolated to the grid. -/
theorem FieldType.eq_upsampled {grid : QuadratureTag} {t u : FieldType}
    (ht : .represented (.quadrature grid) ≤ t) (hf : t.isFinal = true) (hu : u.isFinal = true)
    (down : t.domainPart ≤ u) (up : u.domainPart ≤ t) : t = u.upsampled grid := by
  cases u with
  | volume r => exact eq_volume up ht
  | boundary tag r => exact eq_boundary up ht
  | scalar | interiorFaces _ =>
    -- where `u` has no domain in common with the grid, only the interior faces are left for `t`
    cases le_def.mp ht with
    | refl => nomatch hf
    | representedVolume _ | representedBoundary _ _ => nomatch le_def.mp down
    | representedFaces _ => rfl
  | _ => nomatch hu

namespace Expr

/-- The sides of a pair are interior face values and data on the part of the boundary where they
meet. -/
structure SidesFit (T : Expr → FieldType) (interior boundary : Expr) (tag : BoundaryTag) : Prop where
  interior : ∀ c ∈ interior.components, (T c).IsOnFaces
  boundary : ∀ c ∈ boundary.components, ∃ r, T c = .boundary tag r

/-- `HasType T e t`: where operands have the types `T`, the node `e` has the type `t`. -/
inductive HasType (T : Expr → FieldType) : Expr → FieldType → Prop
  | constant (value : Literal) : HasType T (.atom (.constant value)) .scalar
  | parameter (name : String) : HasType T (.atom (.parameter name)) .scalar
  -- user data are nodal, on the volume or on a part of the boundary
  | volumeData {e : Expr} (he : e.IsUserData) : HasType T e (.volume .nodal)
  | boundaryData {e : Expr} (he : e.IsUserData) (tag : BoundaryTag) :
    HasType T e (.boundary tag .nodal)
  | ones (grid : Option QuadratureTag) : HasType T (.atom (.ones grid)) (.volume (.ofGrid grid))
  | coordinate (axis : Nat) (grid : Option QuadratureTag) :
    HasType T (.atom (.coordinate axis grid)) (.volume (.ofGrid grid))
  | normal (tag : BoundaryTag) (axis : Nat) (grid : QuadratureTag) :
    HasType T (.atom (.normal tag axis (some grid))) (.boundary tag (.quadrature grid))
  | anyNormal (tag : BoundaryTag) (axis : Nat) (r : Representation) :
    HasType T (.atom (.normal tag axis none)) (.boundary tag r)
  | geometry {a : Atom} (ha : IsVolumeGeometry a) (r : Representation) :
    HasType T (.atom a) (.volume r)
  -- arithmetic on scalars is scalar; else the vectors have the type of the result
  | scalars {e : Expr} (he : e.IsArithmetic) (h : ∀ c ∈ e.children, T c = .scalar) :
    HasType T e .scalar
  | vectors {e : Expr} {t : FieldType} (he : e.IsArithmetic) (ht : t ≠ .scalar)
    (hv : ∃ c ∈ e.children, T c ≠ .scalar) (h : ∀ c ∈ e.children, T c ≠ .scalar → T c = t) :
    HasType T e t
  | shared (body : Expr) (label : Option String) : HasType T (.shared body label) (T body)
  | reduce {x : Expr} {r : Representation} (k : Reduction) (hx : T x = .volume r) :
    HasType T (.apply (.reduce k) x) .scalar
  -- nodal data remain nodal
  | derivative {x : Expr} (k : Derivative) (axis : Nat) (hx : T x = .volume .nodal) :
    HasType T (.apply (.derivative k axis) x) (.volume .nodal)
  | referenceDerivative {x : Expr} (k : Derivative) (axis : Nat) (hx : T x = .volume .nodal) :
    HasType T (.apply (.referenceDerivative k axis) x) (.volume .nodal)
  | massInverse {x : Expr} (hx : T x = .volume .nodal) :
    HasType T (.apply (.mass .inverse) x) (.volume .nodal)
  | referenceMassInverse {x : Expr} (hx : T x = .volume .nodal) :
    HasType T (.apply (.referenceMass .inverse) x) (.volume .nodal)
  | elementwise {x : Expr} (k : ElementwiseMap) (hx : T x = .volume .nodal) :
    HasType T (.apply (.elementwise k) x) (.volume .nodal)
  -- integration against test functions leads back to the nodes
  | mass {x : Expr} {r : Representation} (hx : T x = .volume r) :
    HasType T (.apply (.mass .direct) x) (.volume .nodal)
  | referenceMass {x : Expr} {r : Representation} (hx : T x = .volume r) :
    HasType T (.apply (.referenceMass .direct) x) (.volume .nodal)
  | stiffnessTransposed {x : Expr} {r : Representation} (axis : Nat) (hx : T x = .volume r) :
    HasType T (.apply (.stiffnessTransposed axis) x) (.volume .nodal)
  | referenceStiffnessTransposed {x : Expr} {r : Representation} (axis : Nat)
    (hx : T x = .volume r) : HasType T (.apply (.referenceStiffnessTransposed axis) x) (.volume .nodal)
  | referenceQuadratureMass {x : Expr} {grid : QuadratureTag}
    (hx : T x = .volume (.quadrature grid)) :
    HasType T (.apply (.referenceQuadratureMass grid) x) (.volume .nodal)
  | referenceQuadratureStiffnessTransposed {x : Expr} {grid : QuadratureTag} (axis : Nat)
    (hx : T x = .volume (.quadrature grid)) :
    HasType T (.apply (.referenceQuadratureStiffnessTransposed axis grid) x) (.volume .nodal)
  | elementwiseMax {x : Expr} {r : Representation} (hx : T x = .volume r) :
    HasType T (.apply .elementwiseMax x) (.volume r)
  | restrict {x : Expr} {r : Representation} (tag : BoundaryTag) (hx : T x = .volume r) :
    HasType T (.apply (.restrict tag) x) (.boundary tag r)
  -- interpolation keeps the domain; what lives nowhere else is taken to the interior faces
  | upsampleVolume {x : Expr} {r : Representation} (grid : QuadratureTag) (hx : T x = .volume r) :
    HasType T (.apply (.upsample grid) x) (.volume (.quadrature grid))
  | upsampleAnyBoundary {x : Expr} {tag : BoundaryTag} {r : Representation} (grid : QuadratureTag)
    (hx : T x = .boundary tag r) :
    HasType T (.apply (.upsample grid) x) (.boundary tag (.quadrature grid))
  | upsampleOther {x : Expr} (grid : QuadratureTag) (hv : ∀ r, T x ≠ .volume r)
    (hb : ∀ tag r, T x ≠ .boundary tag r) :
    HasType T (.apply (.upsample grid) x) (.interiorFaces grid)
  | upsampleInteriorFaces {x : Expr} (grid : QuadratureTag) (hx : T x = .volume .nodal) :
    HasType T (.apply (.upsampleInteriorFaces grid) x) (.interiorFaces grid)
  | upsampleBoundary {x : Expr} (grid : QuadratureTag) (tag : BoundaryTag)
    (hx : T x = .boundary tag .nodal) :
    HasType T (.apply (.upsampleBoundary grid tag) x) (.boundary tag (.quadrature grid))
  | exchange {arguments : List Expr} (index rank : Nat)
    (h : ∀ x ∈ arguments, T x = .volume .nodal) :
    HasType T (.exchange index rank arguments) (.boundary (.rank rank) .nodal)
  -- fluxes end in nodal volume data
  | fieldFlux {f : Flux} {field : Expr} (hp : field.isPair = false)
    (h : ∀ c ∈ field.components, (T c).IsOnFaces) :
    HasType T (.apply (.flux f) field) (.volume .nodal)
  | pairFlux {f : Flux} {interior boundary : Expr} {tag : BoundaryTag}
    (h : SidesFit T interior boundary tag) :
    HasType T (.apply (.flux f) (.pair interior boundary tag)) (.volume .nodal)
  | domainFlux {interiors boundaries : List Expr}
    (hi : ∀ x ∈ interiors, ∀ c ∈ x.components, (T c).IsOnFaces)
    (hb : ∀ x ∈ boundaries, ∃ interior boundary tag, x = .pair interior boundary tag
      ∧ SidesFit T interior boundary tag) :
    HasType T (.domainFlux interiors boundaries) (.volume .nodal)

/-! ## Typings obey the relation -/

variable {T : Expr → FieldType} {e x : Expr}

/-- The types of all that is visited are final. -/
def Final (T : Expr → FieldType) (e : Expr) : Prop := ∀ x, Visited x e → (T x).isFinal = true

/-- The type of the node is final. -/
theorem Final.self (hf : Final T e) : (T e).isFinal = true := hf e .self

/-- The types of the operands are final. -/
theorem Final.operand (hf : Final T e) {o : FieldType × Expr} (ho : o ∈ e.demands) :
    (T o.2).isFinal = true :=
  hf _ (.operand ho .self)

/-- What a node answers is scalar exactly if the node is. -/
theorem Typed.answer_eq_scalar_iff (h : Typed T e) : answer T e = .scalar ↔ T e = .scalar :=
  eq_scalar_iff_of_le h.answer_le h.answer_ne_unknown

/-- All arithmetic has the same law. -/
theorem law_of_isArithmetic (he : e.IsArithmetic) : e.law = .arithmetic := by
  cases he <;> rfl

/-- Arithmetic visits its children, and asks nothing of them beforehand. -/
theorem demands_of_isArithmetic (he : e.IsArithmetic) : e.demands = e.children.map (.unknown, ·) := by
  cases he <;> rfl

/-- A rule that does not look at its operands answers a final type, or is the rule of geometric data on
the volume and answers that much. -/
theorem given_of_law {t : FieldType} (h : e.law = .given t) :
    (t = .onVolume ∧ ∃ a, e = .atom a ∧ IsVolumeGeometry a) ∨ t.isFinal = true := by
  cases e with
  | atom a =>
    cases a with
    | normal _ _ grid => cases grid <;> nomatch h
    | jacobian grid =>
      cases h
      exact .inl ⟨rfl, _, rfl, .jacobian grid⟩
    | forwardMetric i j =>
      cases h
      exact .inl ⟨rfl, _, rfl, .forwardMetric i j⟩
    | inverseMetric i j =>
      cases h
      exact .inl ⟨rfl, _, rfl, .inverseMetric i j⟩
    | _ => nomatch h
  | apply op _ =>
    cases op with
    | elementwiseMax | restrict _ | upsample _ | flux _ | exchange _ _ | external _ => nomatch h
    | _ =>
      cases h
      exact .inr rfl
  | exchange _ _ _ =>
    cases h
    exact .inr rfl
  | domainFlux interiors boundaries =>
    change (if boundaries.all isPair then Law.flux else Law.illegal) = _ at h
    split at h <;> nomatch h
  | _ => nomatch h

/-- Of a final type there is nothing more to say. -/
theorem Final.eq_of_le (hf : Final T e) {t : FieldType} (h : T e ≤ t) : t = T e :=
  eq_of_isFinal_of_le hf.self h

/-- Arithmetic is scalar if all its operands are; else the vectors among them have its type. -/
theorem Typed.hasType_of_isArithmetic (h : Typed T e) (hf : Final T e) (he : e.IsArithmetic) :
    HasType T e (T e) := by
  have law := h.fits.law
  rw [law_of_isArithmetic he] at law
  obtain ⟨scalars, vectors⟩ := law
  have operand (c : Expr) (hc : c ∈ e.children) : (.unknown, c) ∈ e.demands := by
    rw [demands_of_isArithmetic he]
    exact List.mem_map_of_mem hc
  have vector (c : Expr) (hc : c ∈ e.children) (hv : T c ≠ .scalar) : T c = T e := by
    have ho := operand c hc
    exact hf.eq_of_le (vectors _ (mem_readings.mpr ⟨_, ho, rfl⟩)
      (mt (h.operand ho).answer_eq_scalar_iff.mp hv)).2
  by_cases hs : ∀ c ∈ e.children, T c = .scalar
  · -- the answers are scalar as well
    have : T e = .scalar := by
      refine eq_of_isFinal_of_le rfl (scalars fun r hr => ?_)
      obtain ⟨o, ho, rfl⟩ := mem_readings.mp hr
      refine (h.operand ho).answer_eq_scalar_iff.mpr ?_
      rw [demands_of_isArithmetic he] at ho
      obtain ⟨c, hc, rfl⟩ := List.mem_map.mp ho
      exact hs c hc
    rw [this]
    exact .scalars he hs
  · obtain ⟨c, hc, hv⟩ : ∃ c ∈ e.children, T c ≠ .scalar := by simpa using hs
    have ht : T e ≠ .scalar := vector c hc hv ▸ hv
    exact .vectors he ht ⟨c, hc, hv⟩ vector

/-- User data are nodal, on the volume or on a part of the boundary. -/
theorem Typed.hasType_of_isUserData (h : Typed T e) (hf : Final T e) (he : e.IsUserData) :
    HasType T e (T e) := by
  have nodal : .represented .nodal ≤ T e := by
    cases he <;> exact h.fits.law
  have final := hf.self
  generalize T e = t at nodal final ⊢
  cases le_def.mp nodal with
  | refl => nomatch final
  | representedVolume _ => exact .volumeData he
  | representedBoundary tag _ => exact .boundaryData he tag

/-- Atoms obey the relation. -/
theorem Typed.hasType_atom {a : Atom} (h : Typed T (.atom a)) (hf : Final T (.atom a)) :
    HasType T (.atom a) (T (.atom a)) := by
  have law := h.fits.law
  have final := hf.self
  -- data whose type is known entirely have this type; the others are completed to a final type
  cases a with
  | constant value =>
    rw [eq_of_isFinal_of_le rfl law]
    exact .constant value
  | parameter name =>
    rw [eq_of_isFinal_of_le rfl law]
    exact .parameter name
  | «variable» name => exact h.hasType_of_isUserData hf (.variable name)
  | ones grid =>
    rw [eq_of_isFinal_of_le rfl law]
    exact .ones grid
  | coordinate axis grid =>
    rw [eq_of_isFinal_of_le rfl law]
    exact .coordinate axis grid
  | normal tag axis grid =>
    cases grid with
    | some grid =>
      rw [eq_of_isFinal_of_le rfl law]
      exact .normal tag axis grid
    | none =>
      obtain ⟨r, hr⟩ := exists_boundary_of_le law final
      rw [hr]
      exact .anyNormal tag axis r
  | jacobian grid =>
    obtain ⟨r, hr⟩ := exists_volume_of_le law final
    rw [hr]
    exact .geometry (.jacobian grid) r
  | forwardMetric i j =>
    obtain ⟨r, hr⟩ := exists_volume_of_le law final
    rw [hr]
    exact .geometry (.forwardMetric i j) r
  | inverseMetric i j =>
    obtain ⟨r, hr⟩ := exists_volume_of_le law final
    rw [hr]
    exact .geometry (.inverseMetric i j) r
  | kernelNormal axis => exact law.elim

/-- Interpolation, from the domain that it shares with its operand. -/
theorem hasType_upsample {grid : QuadratureTag} {t : FieldType}
    (ht : .represented (.quadrature grid) ≤ t) (hf : t.isFinal = true) (hx : (T x).isFinal = true)
    (down : t.domainPart ≤ T x) (up : (T x).domainPart ≤ t) :
    HasType T (.apply (.upsample grid) x) t := by
  rw [eq_upsampled ht hf hx down up]
  cases hT : T x with
  | volume r => exact .upsampleVolume grid hT
  | boundary tag r => exact .upsampleAnyBoundary grid hT
  | scalar | interiorFaces _ => exact .upsampleOther grid (by simp [hT]) (by simp [hT])
  | _ =>
    rw [hT] at hx
    nomatch hx

/-- Operators other than fluxes obey the relation: the operand is as it was asked for, and where
this leaves something open, it is final. -/
theorem Typed.hasType_apply {op : Operator} (h : Typed T (.apply op x)) (hf : Final T (.apply op x))
    (hop : ∀ f, op ≠ .flux f) : HasType T (.apply op x) (T (.apply op x)) := by
  have law := h.fits.law
  have operand : (op.demand, x) ∈ (Expr.apply op x).demands := by
    cases op with
    | flux f => exact absurd rfl (hop f)
    | _ => exact List.mem_cons_self
  have demand : op.demand ≤ T x := h.fits.demands _ operand
  have final : (T x).isFinal = true := hf.operand operand
  cases op with
  | flux f => exact absurd rfl (hop f)
  | exchange _ _ | external _ => exact law.elim
  | reduce k =>
    obtain ⟨r, hr⟩ := exists_volume_of_le demand final
    rw [eq_of_isFinal_of_le rfl law]
    exact .reduce k hr
  | derivative k axis =>
    rw [eq_of_isFinal_of_le rfl law]
    exact .derivative k axis (eq_of_isFinal_of_le rfl demand)
  | referenceDerivative k axis =>
    rw [eq_of_isFinal_of_le rfl law]
    exact .referenceDerivative k axis (eq_of_isFinal_of_le rfl demand)
  | elementwise k =>
    rw [eq_of_isFinal_of_le rfl law]
    exact .elementwise k (eq_of_isFinal_of_le rfl demand)
  | mass k =>
    rw [eq_of_isFinal_of_le rfl law]
    cases k with
    | direct =>
      obtain ⟨r, hr⟩ := exists_volume_of_le demand final
      exact .mass hr
    | inverse => exact .massInverse (eq_of_isFinal_of_le rfl demand)
  | referenceMass k =>
    rw [eq_of_isFinal_of_le rfl law]
    cases k with
    | direct =>
      obtain ⟨r, hr⟩ := exists_volume_of_le demand final
      exact .referenceMass hr
    | inverse => exact .referenceMassInverse (eq_of_isFinal_of_le rfl demand)
  | stiffnessTransposed axis =>
    obtain ⟨r, hr⟩ := exists_volume_of_le demand final
    rw [eq_of_isFinal_of_le rfl law]
    exact .stiffnessTransposed axis hr
  | referenceStiffnessTransposed axis =>
    obtain ⟨r, hr⟩ := exists_volume_of_le demand final
    rw [eq_of_isFinal_of_le rfl law]
    exact .referenceStiffnessTransposed axis hr
  | referenceQuadratureMass grid =>
    rw [eq_of_isFinal_of_le rfl law]
    exact .referenceQuadratureMass (eq_of_isFinal_of_le rfl demand)
  | referenceQuadratureStiffnessTransposed axis grid =>
    rw [eq_of_isFinal_of_le rfl law]
    exact .referenceQuadratureStiffnessTransposed axis (eq_of_isFinal_of_le rfl demand)
  | elementwiseMax =>
    -- the operand says no less than the node, which is final
    obtain ⟨r, hr⟩ := exists_volume_of_le demand final
    have same : T x = T (.apply .elementwiseMax x) := hf.eq_of_le (law _ List.mem_cons_self).1
    rw [← same, hr]
    exact .elementwiseMax hr
  | restrict tag =>
    -- the node is above the boundary and above the representation of its operand
    obtain ⟨r, hr⟩ := exists_volume_of_le demand final
    have shared : (T x).representationPart ≤ T (.apply (.restrict tag) x) :=
      (law.2 _ List.mem_cons_self).2
    rw [hr] at shared
    rw [eq_boundary law.1 shared]
    exact .restrict tag hr
  | upsample grid =>
    obtain ⟨own, shared⟩ := law
    obtain ⟨down, up⟩ := shared _ List.mem_cons_self
    exact hasType_upsample own hf.self final down up
  | upsampleInteriorFaces grid =>
    rw [eq_of_isFinal_of_le rfl law]
    exact .upsampleInteriorFaces grid (eq_of_isFinal_of_le rfl demand)
  | upsampleBoundary grid tag =>
    rw [eq_of_isFinal_of_le rfl law]
    exact .upsampleBoundary grid tag (eq_of_isFinal_of_le rfl demand)

/-! ## Fluxes -/

/-- What is asked to live on the interior faces has a type of interior face values. -/
theorem Typed.isOnFaces (h : Typed T e) (hf : Final T e) {c : Expr}
    (hc : (.onInteriorFaces, c) ∈ e.demands) : (T c).IsOnFaces :=
  isOnFaces_of_le (h.fits.demands _ hc) (hf.operand hc)

/-- What is asked to live on the boundary `tag` is boundary data there, in some representation. -/
theorem Typed.exists_boundary (h : Typed T e) (hf : Final T e) {c : Expr} {tag : BoundaryTag}
    (hc : (.onBoundary tag, c) ∈ e.demands) : ∃ r, T c = .boundary tag r :=
  exists_boundary_of_le (h.fits.demands _ hc) (hf.operand hc)

/-- The sides of a pair that a node visits fit. -/
theorem Typed.sidesFit (h : Typed T e) (hf : Final T e) {interior boundary : Expr}
    {tag : BoundaryTag} (hd : ∀ o ∈ pairDemands (.pair interior boundary tag), o ∈ e.demands) :
    SidesFit T interior boundary tag where
  interior _ hc := h.isOnFaces hf (hd _ (List.mem_append_left _ (List.mem_map_of_mem hc)))
  boundary _ hc := h.exists_boundary hf (hd _ (List.mem_append_right _ (List.mem_map_of_mem hc)))

/-- Fluxes on fields and on pairs obey the relation. -/
theorem Typed.hasType_flux {f : Flux} (h : Typed T (.apply (.flux f) x))
    (hf : Final T (.apply (.flux f) x)) :
    HasType T (.apply (.flux f) x) (T (.apply (.flux f) x)) := by
  have law := h.fits.law
  rw [eq_of_isFinal_of_le rfl law.1]
  cases hp : x.isPair with
  | true =>
    cases x with
    | pair interior boundary tag => exact .pairFlux (h.sidesFit hf fun o ho => ho)
    | _ => nomatch hp
  | false =>
    refine .fieldFlux hp fun c hc => h.isOnFaces hf ?_
    show _ ∈ x.fluxDemands
    rw [fluxDemands, hp]
    exact List.mem_map_of_mem hc

/-- Fluxes over a whole domain obey the relation. -/
theorem Typed.hasType_domainFlux {interiors boundaries : List Expr}
    (h : Typed T (.domainFlux interiors boundaries))
    (hf : Final T (.domainFlux interiors boundaries)) :
    HasType T (.domainFlux interiors boundaries) (T (.domainFlux interiors boundaries)) := by
  have law := h.fits.law
  by_cases pairs : boundaries.all isPair = true
  · rw [Expr.law, if_pos pairs] at law
    rw [eq_of_isFinal_of_le rfl law.1]
    refine .domainFlux (fun x hx c hc => h.isOnFaces hf ?_) fun x hx => ?_
    · exact List.mem_append_left _ (List.mem_flatMap.mpr ⟨x, hx, List.mem_map_of_mem hc⟩)
    · have hp : x.isPair = true := List.all_eq_true.mp pairs x hx
      cases x with
      | pair interior boundary tag =>
        exact ⟨interior, boundary, tag, rfl, h.sidesFit hf fun o ho =>
          List.mem_append_right _ (List.mem_flatMap.mpr ⟨_, hx, ho⟩)⟩
      | _ => nomatch hp
  · -- what stands where a pair has to stand has no type
    rw [Expr.law, if_neg pairs] at law
    exact law.elim

/-! ## All of a tree -/

/-- If `e` is well typed in `T`, and `T` is final on what is visited, then `e` has its type in `T`
by the relation. -/
theorem Typed.hasType {e : Expr} (h : Typed T e) (hf : Final T e) : HasType T e (T e) := by
  cases e with
  | atom a => exact h.hasType_atom hf
  | subscript aggregate index => exact h.hasType_of_isUserData hf (.subscript aggregate index)
  | sum terms => exact h.hasType_of_isArithmetic hf (.sum terms)
  | product factors => exact h.hasType_of_isArithmetic hf (.product factors)
  | quotient a b => exact h.hasType_of_isArithmetic hf (.quotient a b)
  | power a b => exact h.hasType_of_isArithmetic hf (.power a b)
  | conditional c a b => exact h.hasType_of_isArithmetic hf (.conditional c a b)
  | ifPositive c a b => exact h.hasType_of_isArithmetic hf (.ifPositive c a b)
  | comparison a relation b => exact h.hasType_of_isArithmetic hf (.comparison a relation b)
  | call function arguments => exact h.hasType_of_isArithmetic hf (.call function arguments)
  | shared body label =>
    -- the law of a common subexpression is that its body has the same type
    have same : T body = T (.shared body label) := h.fits.law _ List.mem_cons_self
    rw [← same]
    exact .shared body label
  | apply op field =>
    cases op with
    | flux f => exact h.hasType_flux hf
    | _ => exact h.hasType_apply hf nofun
  | pair _ _ _ | array _ => exact h.fits.law.elim
  | exchange index rank arguments =>
    rw [eq_of_isFinal_of_le rfl h.fits.law]
    refine .exchange index rank fun x hx => eq_of_isFinal_of_le rfl ?_
    exact h.fits.demands (.volume .nodal, x) (List.mem_map_of_mem hx)
  | domainFlux interiors boundaries => exact h.hasType_domainFlux hf

end Expr

/-! ## Inference -/

/-- If a table grows, each entry is there still, and says no less. -/
theorem TypeTable.Grows.exists_lookup? {table table' : TypeTable} (h : Grows table table') {e : Expr}
    {t : FieldType} (hl : table.lookup? e = some t) : ∃ t', table'.lookup? e = some t' ∧ t ≤ t' := by
  by_cases hu : table'.get e = .unknown
  · exact ⟨t, (h.blank e hu).trans hl, le_refl t⟩
  · refine ⟨_, lookup?_of_get hu, ?_⟩
    rw [← get_of_lookup? hl]
    exact h.le e

namespace Inference

open OperatorTemplate.Expr (Reached HasType)

variable {roots : List Expr} {hints : TypeHints} {i : Inference} {e : Expr}

/-- What is visited by a successful inference is well typed in its table. -/
theorem typed_of_infer (hi : infer roots hints = .ok i) (he : Reached roots e) :
    e.Typed i.table.get := by
  obtain ⟨s₁, table, s₂, phases, hs⟩ := exists_phases hi
  rw [hs]
  exact phases.second.solves.typed he

/-- The entries of a successful inference are final. -/
theorem isFinal_of_infer (hi : infer roots hints = .ok i) {t : FieldType}
    (hl : i.table.lookup? e = some t) : t.isFinal = true := by
  obtain ⟨s₁, table, s₂, phases, hs⟩ := exists_phases hi
  exact phases.final e t (hs ▸ hl)

/-- What is visited by a successful inference has an entry. -/
theorem lookup?_of_infer (hi : infer roots hints = .ok i) (he : Reached roots e) :
    i.table.lookup? e = some (i.table.get e) :=
  TypeTable.lookup?_of_get (typed_of_infer hi he).ne_unknown

/-- What is visited from something visited has a final type. -/
theorem final_of_infer (hi : infer roots hints = .ok i) (he : Reached roots e) :
    e.Final i.table.get :=
  fun _ hx => isFinal_of_infer hi (lookup?_of_infer hi (he.of_visited hx))

/-- Where there is a hint, a successful inference has an entry that says no less. -/
theorem exists_lookup?_of_hint (hi : infer roots hints = .ok i) {t : FieldType}
    (hh : (TypeTable.ofHints hints).lookup? e = some t) :
    ∃ t', i.table.lookup? e = some t' ∧ t ≤ t' := by
  obtain ⟨s₁, table, s₂, phases, hs⟩ := exists_phases hi
  -- the entry grows in the first loop, by the defaults, and in the second loop
  obtain ⟨t₁, h₁, le₁⟩ := phases.first.grows.exists_lookup? hh
  have defaulted : table.lookup? e = some (TypeTable.defaulted e t₁) := by
    rw [phases.defaults, h₁]
    rfl
  obtain ⟨t₂, h₂, le₂⟩ := phases.second.grows.exists_lookup? defaulted
  exact ⟨t₂, hs ▸ h₂, le₁.trans ((TypeTable.le_defaulted e t₁).trans le₂)⟩

/-- A successful inference has final entries for all that it visits, which extend the hints and obey
the typing relation. -/
theorem infer_sound (hi : infer roots hints = .ok i) :
    (∀ e t, (TypeTable.ofHints hints).lookup? e = some t →
      ∃ t', i.table.lookup? e = some t' ∧ t ≤ t') ∧
    ∀ e, Reached roots e →
      ∃ t, i.table.lookup? e = some t ∧ t.isFinal = true ∧ HasType i.table.get e t :=
  ⟨fun _ _ hh => exists_lookup?_of_hint hi hh, fun e he =>
    ⟨i.table.get e, lookup?_of_infer hi he, (final_of_infer hi he).self,
      (typed_of_infer hi he).hasType (final_of_infer hi he)⟩⟩

/-- A stiffness matrix on a grid pulls twice a field, which is hinted to be nodal, up to the grid. -/
theorem infer_sound_upsampled :
    let u : Expr := .atom (.variable "u")
    let twice : Expr := .product [.atom (.constant (.int 2)), u]
    let root : Expr := .apply (.referenceQuadratureStiffnessTransposed 0 ⟨"q"⟩)
      (.apply (.upsample ⟨"q"⟩) twice)
    ∃ i, infer [root] [(u, .represented .nodal)] = .ok i
      ∧ (∃ t, i.table.lookup? u = some t ∧ .represented .nodal ≤ t)
      ∧ ∃ t, i.table.lookup? twice = some t ∧ t.isFinal = true ∧ HasType i.table.get twice t := by
  intro u twice root
  obtain ⟨i, hi⟩ := exists_eq_ok
    (show (infer [root] [(u, .represented .nodal)]).isOk = true by decide +kernel)
  obtain ⟨hinted, typed⟩ := infer_sound hi
  have reached : Reached [root] root := .of_component List.mem_cons_self
  have upsampled := reached.operand List.mem_cons_self
  exact ⟨i, hi, hinted u _ (by decide), typed twice (upsampled.operand List.mem_cons_self)⟩

end Inference

end OperatorTemplate
