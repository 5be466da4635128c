import OperatorTemplate.Proofs.Inference.Raise
import OperatorTemplate.Proofs.Inference.Soundness
/-!
# Agreement in a flux

The arguments of a flux, `fluxArguments`, are visited in order, and each is told of the
representation that the argument before it *answered*.  Most arguments answer the representation
that is recorded for them (`Typed.representationPart_answer`, by recursion on the expression).
Geometric data do not: they answer that they live on the volume, and what the arguments before them
agreed on is forgotten (`answer_eq_of_isGeometric`).

So two arguments in a row agree unless the first of them is geometric (`Typed.agree_or_geometric`),
and a geometric argument is nodal itself: its answer puts it on the volume and the flux puts it on
the interior faces, and the types that say both are nodal (`Typed.eq_nodal_of_isGeometric`).  Hence
the arguments of a flux all agree exactly if no geometric one stands right before one that is not
nodal (`infer_arguments_agree_iff`).  They need not: after the Jacobian determinant, values on a
face grid go together with a nodal field (`not_arguments_agree`).
-/

namespace OperatorTemplate

namespace Expr

/-! ## Arguments -/

/-- The fluxes, on a field or over a whole domain. -/
inductive IsFlux : Expr → Prop
  | apply (f : Flux) (field : Expr) : IsFlux (.apply (.flux f) field)
  | domain (interiors boundaries : List Expr) : IsFlux (.domainFlux interiors boundaries)

/-- The fields that a flux reads of what it is applied to. -/
def sides : Expr → List Expr
  | .pair interior boundary _ => interior.components ++ boundary.components
  | x => x.components

/-- The arguments of a flux, interior ones before those on a boundary. -/
def fluxArguments : Expr → List Expr
  | .apply _ field => field.sides
  | .domainFlux interiors boundaries => interiors.flatMap components ++ boundaries.flatMap sides
  | _ => []

/-- Geometric data on the volume, and their maxima over an element. -/
inductive IsGeometric : Expr → Prop
  | atom {a : Atom} (ha : IsVolumeGeometry a) : IsGeometric (.atom a)
  | maximum {x : Expr} (hx : IsGeometric x) : IsGeometric (.apply .elementwiseMax x)

/-- To ask for one type everywhere is to ask it of each component. -/
theorem map_demandAll (t : FieldType) (x : Expr) : (demandAll t x).map (·.2) = x.components := by
  rw [demandAll, List.map_map]
  exact List.map_id _

/-- A boundary pair asks for the components of its two sides. -/
theorem map_pairDemands {x : Expr} (hp : x.isPair = true) : x.pairDemands.map (·.2) = x.sides := by
  cases x with
  | pair interior boundary tag => rw [pairDemands, List.map_append, map_demandAll, map_demandAll, sides]
  | _ => cases hp

/-- What a flux asks for is what it reads: both sides of a pair, or the components of a field. -/
theorem map_fluxDemands (x : Expr) : x.fluxDemands.map (·.2) = x.sides := by
  unfold fluxDemands
  split
  next hp => exact map_pairDemands hp
  next hp =>
    rw [map_demandAll]
    cases x with
    | pair _ _ _ => exact absurd rfl hp
    | _ => rfl

variable {T : Expr → FieldType} {e x y : Expr}

/-- A flux that fits obeys the law of fluxes, and the operands that it asks for are its arguments.
-/
theorem Fits.flux (h : Fits T e) (he : e.IsFlux) :
    Law.flux.Holds (T e) (e.readings T) ∧ e.demands.map (·.2) = e.fluxArguments := by
  have law := h.law
  cases he with
  | apply f field => exact ⟨law, map_fluxDemands field⟩
  | domain interiors boundaries =>
    -- a flux over a domain is legal only if its boundary fields are all pairs
    by_cases pairs : boundaries.all isPair = true
    · rw [Expr.law, if_pos pairs] at law
      refine ⟨law, ?_⟩
      rw [Expr.demands, List.map_append, List.map_flatMap, List.map_flatMap, fluxArguments]
      congr 1
      · simp only [map_demandAll]
      · refine List.flatMap_congr fun x hx => map_pairDemands (List.all_eq_true.mp pairs x hx)
    · rw [Expr.law, if_neg pairs] at law
      exact law.elim

/-! ## Answers -/

open FieldType

/-- Geometric data answer nothing about their representation. -/
theorem answer_eq_of_isGeometric (hx : x.IsGeometric) : answer T x = .onVolume := by
  induction hx with
  | atom ha =>
    rw [answer_eq]
    cases ha <;> rfl
  | maximum _ ih =>
    rw [answer_eq]
    exact ih

/-- Any other expression with a final type answers the representation that is recorded for it. -/
theorem Typed.representationPart_answer {e : Expr} (h : Typed T e) (hf : Final T e)
    (hg : ¬e.IsGeometric) : (answer T e).representationPart = (T e).representationPart := by
  have law := h.fits.law
  have final := hf.self
  have below := h.answer_le
  rw [answer_eq] at below ⊢
  cases hl : e.law with
  | leaf _ | same => rfl
  | given t =>
    rcases given_of_law hl with ⟨-, a, rfl, ha⟩ | ht
    · exact absurd (.atom ha) hg
    · rw [hl] at below
      rw [eq_of_isFinal_of_le ht below]
      rfl
  | flux =>
    rw [hl] at below
    rw [eq_of_isFinal_of_le rfl below]
    rfl
  | arithmetic =>
    dsimp only [Law.answer]
    split
    next hs =>
      rw [hl] at law
      rw [eq_of_isFinal_of_le rfl (law.1 hs)]
    · rfl
  | maximum =>
    -- the maximum answers as its operand does, whose recorded type is its own
    obtain ⟨x, hx⟩ := eq_of_law_maximum hl
    have operand : (.onVolume, x) ∈ e.demands := hx ▸ List.mem_cons_self
    have reading : e.readings T = [⟨T x, answer T x⟩] := by rw [hx]; rfl
    have := size_lt_of_mem_demands operand
    rw [hl, reading] at law
    have same : T x = T e := hf.eq_of_le (law _ List.mem_cons_self).1
    rw [reading, ← same]
    exact (h.operand operand).representationPart_answer
      (fun y hy => hf y (.operand operand hy)) fun hgeo => hg (hx ▸ .maximum hgeo)
  | restrict tag =>
    -- the answer joins the boundary with the representation that the operand has recorded
    obtain ⟨o, ho⟩ := exists_reading_of_isUnary (T := T) (e := e) (by rw [hl]; rfl)
    rw [hl, ho] at law
    obtain ⟨hb, hops⟩ := law
    obtain ⟨down, up⟩ := hops o List.mem_cons_self
    obtain ⟨r, hr⟩ := exists_boundary_of_le hb final
    rw [hr] at down ⊢
    rw [ho]
    refine representationPart_eq ?_
    show .represented r ≤ FieldType.join _ o.recorded.representationPart
    rw [representationPart_eq down]
    exact (joins_join hb (representationPart_eq down ▸ up)).right
  | upsample grid =>
    -- the grid is in the recorded type, so it is the representation of both
    obtain ⟨o, ho⟩ := exists_reading_of_isUnary (T := T) (e := e) (by rw [hl]; rfl)
    rw [hl, ho] at law
    obtain ⟨hgrid, hops⟩ := law
    rw [ho, representationPart_eq hgrid]
    exact representationPart_eq (joins_join hgrid (hops o List.mem_cons_self).2).left
  | illegal =>
    rw [hl] at law
    exact law.elim
termination_by e.size

/-! ## Arguments in a row -/

/-- An argument of a flux is held on the interior faces or on a part of the boundary. -/
theorem HasType.argument {t : FieldType} (h : HasType T e t) (he : e.IsFlux)
    (hx : x ∈ e.fluxArguments) : (T x).IsOnFaces ∨ ∃ tag r, T x = .boundary tag r := by
  have side {interior boundary : Expr} {tag : BoundaryTag} (h : SidesFit T interior boundary tag)
      (hx : x ∈ (pair interior boundary tag).sides) :
      (T x).IsOnFaces ∨ ∃ tag r, T x = .boundary tag r := by
    rcases List.mem_append.mp hx with hx | hx
    · exact .inl (h.interior x hx)
    · exact .inr ⟨tag, h.boundary x hx⟩
  cases he with
  | apply f field =>
    cases h with
    | scalars ha _ | vectors ha _ _ _ => nomatch ha
    | volumeData hu | boundaryData hu _ => nomatch hu
    | pairFlux hs => exact side hs hx
    | fieldFlux hp hs =>
      refine .inl (hs x ?_)
      cases field with
      | pair _ _ _ => nomatch hp
      | _ => exact hx
  | domain interiors boundaries =>
    cases h with
    | scalars ha _ | vectors ha _ _ _ => nomatch ha
    | volumeData hu | boundaryData hu _ => nomatch hu
    | domainFlux hi hb =>
      rcases List.mem_append.mp hx with hx | hx
      · obtain ⟨y, hy, hx⟩ := List.mem_flatMap.mp hx
        exact .inl (hi y hy x hx)
      · obtain ⟨y, hy, hx⟩ := List.mem_flatMap.mp hx
        obtain ⟨interior, boundary, tag, rfl, hs⟩ := hb y hy
        exact side hs hx

section Arguments

variable (h : Typed T e) (hf : Final T e) (he : e.IsFlux)

include h he

/-- An argument of a flux that fits is an operand that the flux asks for. -/
theorem Typed.operand_of_argument (hx : x ∈ e.fluxArguments) : ∃ o ∈ e.demands, o.2 = x := by
  rw [← (h.fits.flux he).2] at hx
  exact List.mem_map.mp hx

include hf

/-- The arguments of a flux are vectors, and have a representation. -/
theorem Typed.exists_representation_of_argument (hx : x ∈ e.fluxArguments) :
    ∃ r, (T x).representation? = some r := by
  rcases (h.hasType hf).argument he hx with ht | ⟨tag, r, ht⟩
  · generalize T x = t at ht
    cases ht with
    | nodal => exact ⟨_, rfl⟩
    | quadrature grid => exact ⟨_, rfl⟩
  · exact ⟨r, by rw [ht]; rfl⟩

/-- Geometric arguments of a flux are nodal: on the interior faces alone, they live on the volume. -/
theorem Typed.eq_nodal_of_isGeometric (hx : x ∈ e.fluxArguments) (hg : x.IsGeometric) :
    (T x).representation? = some .nodal := by
  obtain ⟨o, ho, rfl⟩ := h.operand_of_argument he hx
  have onVolume : .onVolume ≤ T o.2 := by
    rw [← answer_eq_of_isGeometric (T := T) hg]
    exact (h.operand ho).answer_le
  rcases (h.hasType hf).argument he hx with ht | ⟨tag, r, ht⟩
  · -- of the types on the interior faces, only the nodal volume type lives on the volume
    generalize T o.2 = t at ht onVolume ⊢
    cases ht with
    | nodal => rfl
    | quadrature grid => nomatch le_def.mp onVolume
  · rw [ht] at onVolume
    nomatch le_def.mp onVolume

/-- Two arguments in a row agree, unless the first of them is geometric. -/
theorem Typed.agree_or_geometric : e.fluxArguments.IsChain fun x y =>
    x.IsGeometric ∨ (T x).representation? = (T y).representation? := by
  -- by the law of fluxes, each argument holds the representation that the one before it answered
  obtain ⟨⟨-, chain⟩, arguments⟩ := h.fits.flux he
  rw [readings, List.isChain_map] at chain
  rw [← arguments, List.isChain_map]
  refine chain.imp_of_mem_imp fun o o' ho _ hle => ?_
  by_cases hg : o.2.IsGeometric
  · exact .inl hg
  · have hx : o.2 ∈ e.fluxArguments := arguments ▸ List.mem_map_of_mem ho
    obtain ⟨r, hr⟩ := h.exists_representation_of_argument hf he hx
    have final : Final T o.2 := fun y hy => hf y (.operand ho hy)
    rw [(h.operand ho).representationPart_answer final hg,
      representationPart_eq (representation?_eq_iff.mp hr)] at hle
    exact .inr (hr.trans (representation?_eq_iff.mpr hle).symm)

end Arguments

end Expr

namespace Inference

open OperatorTemplate.Expr FieldType

variable {roots : List Expr} {hints : TypeHints} {i : Inference} {e : Expr}

/-- At a flux that a successful inference visits, every argument has a representation, and all have
the same exactly if no geometric argument stands right before one that is not nodal. -/
theorem infer_arguments_agree_iff (hi : infer roots hints = .ok i) (he : Reached roots e)
    (hflux : e.IsFlux) :
    (∀ x ∈ e.fluxArguments, ∃ r, (i.table.get x).representation? = some r) ∧
    ((∀ x ∈ e.fluxArguments, ∀ y ∈ e.fluxArguments,
        (i.table.get x).representation? = (i.table.get y).representation?)
      ↔ e.fluxArguments.IsChain fun x y =>
        x.IsGeometric → (i.table.get y).representation? = some .nodal) := by
  have typed := typed_of_infer hi he
  have final := final_of_infer hi he
  refine ⟨fun x hx => typed.exists_representation_of_argument final hflux hx, fun h => ?_, fun h => ?_⟩
  · -- if all agree, what stands after a geometric argument is nodal as that one is
    refine (typed.agree_or_geometric final hflux).imp_of_mem_imp fun x y hx hy _ hg => ?_
    rw [h y hy x hx]
    exact typed.eq_nodal_of_isGeometric final hflux hx hg
  · -- in a row all agree: the first is not geometric, or both are nodal
    refine forall_eq_of_isChain ((isChain_and (typed.agree_or_geometric final hflux) h).imp_of_mem_imp
      fun x y hx _ hxy => ?_)
    obtain ⟨hg | same, nodal⟩ := hxy
    · rw [typed.eq_nodal_of_isGeometric final hflux hx hg, nodal hg]
    · exact same

/-- Between two fields the Jacobian determinant does no harm: what users bind is nodal. -/
theorem infer_arguments_agree_jacobian :
    let w : Expr := .atom (.variable "w")
    let u : Expr := .atom (.variable "u")
    let flux : Expr := .apply (.flux ⟨.plain, .component .interior 0⟩)
      (.array [w, .atom (.jacobian none), u])
    ∃ i, infer [flux] [] = .ok i ∧ ∀ x ∈ flux.fluxArguments, ∀ y ∈ flux.fluxArguments,
      (i.table.get x).representation? = (i.table.get y).representation? := by
  intro w u flux
  obtain ⟨i, hi⟩ := exists_eq_ok (show (infer [flux] []).isOk = true by decide +kernel)
  have reached : Reached [flux] flux := .of_component List.mem_cons_self
  have user : Reached [flux] u :=
    reached.operand (o := (.onInteriorFaces, u)) (.tail _ (.tail _ List.mem_cons_self))
  have nodal : (i.table.get u).representation? = some .nodal :=
    representation?_eq_iff.mpr (typed_of_infer hi user).fits.law
  refine ⟨i, hi, (infer_arguments_agree_iff hi reached (.apply _ _)).2.mpr ?_⟩
  have plain : ¬IsGeometric (.atom (.variable "w")) := by
    rintro (⟨⟨⟩⟩ | _)
  exact .cons_cons (fun hg => absurd hg plain) (.cons_cons (fun _ => nodal) (.singleton u))

/-- After the Jacobian determinant, face values on a grid go together with a nodal field; before it
they do not. -/
theorem not_arguments_agree :
    let w : Expr := .atom (.variable "w")
    let jacobian : Expr := .atom (.jacobian none)
    let faces : Expr := .apply (.upsampleInteriorFaces ⟨"q"⟩) (.atom (.variable "u"))
    let flux (arguments : List Expr) : Expr :=
      .apply (.flux ⟨.plain, .component .interior 0⟩) (.array arguments)
    (∃ i, infer [flux [w, jacobian, faces]] [] = .ok i
      ∧ Reached [flux [w, jacobian, faces]] (flux [w, jacobian, faces])
      ∧ (flux [w, jacobian, faces]).fluxArguments = [w, jacobian, faces]
      ∧ (i.table.get w).representation? = some .nodal
      ∧ (i.table.get faces).representation? = some (.quadrature ⟨"q"⟩))
    ∧ (infer [flux [faces, jacobian, w]] []).isOk = false := by
  intro w jacobian faces flux
  refine ⟨?_, by decide +kernel⟩
  obtain ⟨i, hi⟩ := exists_eq_ok
    (show (infer [flux [w, jacobian, faces]] []).isOk = true by decide +kernel)
  have reached : Reached [flux [w, jacobian, faces]] (flux [w, jacobian, faces]) :=
    .of_component List.mem_cons_self
  have first : Reached [flux [w, jacobian, faces]] w := reached.operand List.mem_cons_self
  have last : Reached [flux [w, jacobian, faces]] faces :=
    reached.operand (o := (.onInteriorFaces, faces)) (.tail _ (.tail _ List.mem_cons_self))
  have onFaces : i.table.get faces = .interiorFaces ⟨"q"⟩ :=
    eq_of_isFinal_of_le rfl (typed_of_infer hi last).fits.law
  refine ⟨i, hi, reached, rfl, representation?_eq_iff.mpr (typed_of_infer hi first).fits.law, ?_⟩
  rw [onFaces]
  rfl

end Inference

end OperatorTemplate
