import OperatorTemplate.Proofs.Boundary.Survival
/-!
# Carrying a typing over to the rewritten roots

A final typing `D` of the roots gives each rewritten expression that is visited the type of what it
was rewritten from: this is the typing `F` with `Transports roots roots' D F`.  Where no flux
vanishes and what is restricted inside boundary fields is nodal (`Portable`), the rewritten roots
are solved by `F` (`Portable.push`).

Nodes that are no fluxes on pairs keep their law and their demands, so they fit after the rewriting
exactly if they did before (`Transports.fits_iff`).

Only fluxes on pairs need an argument.  Their inputs are asked to be interior face values or
boundary data, and to agree on their representation, each with the next one in the list (`Follow`).
What moves to the interior side of a pair is nodal volume data (`moved_type`); the components of a
boundary field share a representation `r` (`face_type`), and so do the inputs that come from it
(`input_types`).  With that the list of inputs is a chain: the interior components are one as
before, any two of the new inputs agree, and the last interior component agrees with `r`
(`follow_inputs`, the crux).
-/

namespace OperatorTemplate

open OperatorTemplate.Expr FieldType

variable {roots roots' : List Expr} {D E F G : Expr → FieldType}

/-! ## Nodes that are no fluxes on pairs -/

/-- `G` says of rewritten expressions what `E` says of the expressions. -/
def Transports (roots roots' : List Expr) (E G : Expr → FieldType) : Prop :=
  ∀ e y, Reached roots e → Rewrites e y → Reached roots' y → G y = E e

namespace Transports

variable {e y : Expr}

/-- A rewritten node reads of its operands what the node read of its own, if the operands answer the
same. -/
theorem readings_eq (h : Transports roots roots' E G) (he : Reached roots e) (hr : Rewrites e y)
    (hy : Reached roots' y) (hp : e.isPairFlux = false)
    (answers : ∀ o ∈ e.demands, ∀ z, Rewrites o.2 z → Reached roots' z →
      answer G z = answer E o.2) : readings G y = readings E e :=
  map_eq_of_forall₂ (demands_of_rewritten hp hr) fun o ho o' ho' ⟨_, hr'⟩ => by
    rw [h o.2 o'.2 (he.operand ho) hr' (hy.operand ho'), answers o ho o'.2 hr' (hy.operand ho')]

/-- A rewritten expression answers under `G` what the expression answers under `E`.  By induction on
size. -/
theorem answer_eq (h : Transports roots roots' E G) (hv : NoneVanish roots) {e y : Expr}
    (he : Reached roots e) (hr : Rewrites e y) (hy : Reached roots' y) :
    answer G y = answer E e := by
  by_cases hp : e.isPairFlux = true
  · obtain ⟨f, interior, boundary, tag, rfl⟩ := exists_of_isPairFlux hp
    obtain ⟨i⟩ := exists_fluxInputs hr fun hz => hv _ he rfl (hz ▸ hr)
    rw [Expr.answer_eq, Expr.answer_eq E, i.law]
    rfl
  · have hp : e.isPairFlux = false := by simpa using hp
    rw [Expr.answer_eq, Expr.answer_eq E, law_of_rewritten hp hr, h e y he hr hy,
      h.readings_eq he hr hy hp fun o ho z hz hyz =>
        have := size_lt_of_mem_demands ho
        h.answer_eq hv (he.operand ho) hz hyz]
termination_by e.size

/-- A node that is no flux on a pair fits under `E` exactly if its rewriting fits under `G`. -/
theorem fits_iff (h : Transports roots roots' E G) (hv : NoneVanish roots) (he : Reached roots e)
    (hr : Rewrites e y) (hy : Reached roots' y) (hp : e.isPairFlux = false) :
    Fits G y ↔ Fits E e := by
  have demands := demands_of_rewritten hp hr
  have readings := h.readings_eq he hr hy hp fun o ho z hz hyz =>
    h.answer_eq hv (he.operand ho) hz hyz
  have laws : y.law.Holds (G y) (Expr.readings G y) ↔ e.law.Holds (E e) (Expr.readings E e) := by
    rw [law_of_rewritten hp hr, h e y he hr hy, readings]
  have asked {o o' : FieldType × Expr} (ho : o ∈ e.demands) (ho' : o' ∈ y.demands)
      (hc : Corresponds o o') : o'.1 ≤ G o'.2 ↔ o.1 ≤ E o.2 := by
    rw [hc.1, h o.2 o'.2 (he.operand ho) hc.2 (hy.operand ho')]
  constructor
  · rintro ⟨fits, law⟩
    refine ⟨fun o ho => ?_, laws.mp law⟩
    obtain ⟨o', ho', hc⟩ := exists_right_of_forall₂ demands ho
    exact (asked ho ho' hc).mp (fits o' ho')
  · rintro ⟨fits, law⟩
    refine ⟨fun o' ho' => ?_, laws.mpr law⟩
    obtain ⟨o, ho, hc⟩ := exists_left_of_forall₂ demands ho'
    exact (asked ho ho' hc).mpr (fits o ho)

end Transports

/-! ## Fluxes on pairs -/

/-- Two inputs, one after the other, agree on their representation. -/
def Follow (D : Expr → FieldType) (a b : Expr) : Prop := (answer D a).representationPart ≤ D b

variable {f : Flux} {interior boundary : Expr} {tag : BoundaryTag}

/-- What a flux on a pair reads of the components of its two sides, in order. -/
theorem readings_pairFlux : readings D (.apply (.flux f) (.pair interior boundary tag))
    = (interior.components ++ boundary.components).map fun c => ⟨D c, answer D c⟩ := by
  simp only [readings, demands_pairFlux, demandAll, List.map_append, List.map_map]
  rfl

/-- Where a flux on a pair fits, its components agree on their representation, each with the next.
-/
theorem follow_of_fits (h : Fits D (.apply (.flux f) (.pair interior boundary tag))) :
    (interior.components ++ boundary.components).IsChain (Follow D) := by
  obtain ⟨-, -, chain⟩ := h
  rw [readings_pairFlux, List.isChain_map] at chain
  exact chain

/-- A rewritten flux on a pair reads what its inputs were. -/
theorem Transports.readings_inputs {y : Expr} (hF : Transports roots roots' D F)
    (hv : NoneVanish roots) (i : FluxInputs interior boundary tag y)
    (hφ : Reached roots (.apply (.flux f) (.pair interior boundary tag))) (hy : Reached roots' y) :
    readings F y = (i.volume ++ i.boundaries).map fun x => ⟨D x, answer D x⟩ := by
  have same {x z : Expr} (hx : Reached roots x) (hxz : Rewrites x z) (hz : Reached roots' z) :
      (⟨F z, answer F z⟩ : Reading) = ⟨D x, answer D x⟩ := by
    rw [hF x z hx hxz hz, hF.answer_eq hv hx hxz hz]
  have survives {o : FieldType × Expr} (ho : o ∈ i.volume'.map (.onInteriorFaces, ·)
      ++ i.boundaries'.map (.onBoundary tag, ·)) : Reached roots' o.2 :=
    hy.operand (i.demands ▸ ho)
  rw [readings, i.demands, List.map_append, List.map_append, List.map_map, List.map_map]
  congr 1
  · exact map_eq_of_forall₂ i.volume_rewrites fun x hx z hz hxz =>
      same (i.reached_volume hφ hx) hxz
        (survives (List.mem_append_left _ (List.mem_map_of_mem hz)))
  · exact map_eq_of_forall₂ i.boundaries_rewrites fun x hx z hz hxz =>
      same (i.reached_boundaries hφ hx) hxz
        (survives (List.mem_append_right _ (List.mem_map_of_mem hz)))

/-- A final typing of roots that rewriting may carry over. -/
structure Portable (roots roots' : List Expr) (D : Expr → FieldType) : Prop where
  rewrites : List.Forall₂ Rewrites roots roots'
  none_vanish : NoneVanish roots
  solves : Solves roots D
  final : ∀ e, Reached roots e → (D e).isFinal = true
  /-- What is restricted inside a boundary field is nodal. -/
  restricted : ∀ tag u, OnFace roots (.apply (.restrict tag) u) →
    D (.apply (.restrict tag) u) = .boundary tag .nodal

namespace Portable

variable (h : Portable roots roots' D)

include h

/-- What moves to the interior side of a pair is nodal volume data: its restriction is nodal
boundary data. -/
theorem moved_type {u : Expr} (hx : OnFace roots (.apply (.restrict tag) u)) :
    D u = .volume .nodal := by
  have fits := h.solves _ hx.reached
  have demanded := fits.demands (.onVolume, u) List.mem_cons_self
  have law := (fits.law.2 _ List.mem_cons_self).1
  rw [h.restricted tag u hx] at law
  exact eq_volume demanded law

variable (hφ : Reached roots (.apply (.flux f) (.pair interior boundary tag)))

include hφ

/-- A component of the boundary field is boundary data on the boundary of the pair. -/
theorem component_type {c : Expr} (hc : c ∈ boundary.components) : ∃ r, D c = .boundary tag r := by
  have demanded := (h.solves _ hφ).demands (.onBoundary tag, c)
    (List.mem_append_right _ (List.mem_map_of_mem hc))
  exact exists_boundary_of_le demanded (h.final c (reached_component hφ hc))

/-- The components of a boundary field share their representation `r`, and no interior component
before them answers another. -/
theorem face_type : ∃ r, (∀ c ∈ boundary.components, D c = .boundary tag r)
    ∧ (boundary.components ≠ [] → ∀ x ∈ interior.components.getLast?,
      (answer D x).representationPart ≤ .represented r) := by
  obtain ⟨-, chain, last⟩ := List.isChain_append.mp (follow_of_fits (h.solves _ hφ))
  cases hcs : boundary.components with
  | nil => exact ⟨.nodal, nofun, fun hne => absurd rfl hne⟩
  | cons c cs =>
    obtain ⟨r, hr⟩ := h.component_type hφ (hcs ▸ List.mem_cons_self : c ∈ boundary.components)
    refine ⟨r, ?_, fun _ x hx => ?_⟩
    · -- along the chain, each component has the type of the one before it
      have step := chain.imp_of_mem_imp (S := fun a b => D a = .boundary tag r → D b = .boundary tag r)
        fun a b ha hb hab hta => by
          obtain ⟨r', hr'⟩ := h.component_type hφ hb
          have answers := (h.solves.typed (reached_component hφ ha)).answer_eq_of_boundary hta
          rw [Follow, answers, hta, hr'] at hab
          cases le_def.mp hab
          exact hr'
      rw [hcs] at step
      exact step.induction _ _ (fun _ _ hab hta => hab hta) fun _ => hr
    · have follow := last x hx c (by rw [hcs]; rfl)
      rw [Follow, hr] at follow
      refine representationPart_le_iff.mpr fun r' hr' => ?_
      cases le_def.mp (representationPart_le_iff.mp follow r' hr')
      exact le_refl _

variable {y : Expr} (i : FluxInputs interior boundary tag y)

include i

/-- The inputs that come from the boundary field have the representation `r` that its components
share, and answer no other: those that moved, for they are nodal and so is `r`, and those on the
boundary, for they have the type of the field. -/
theorem input_types : ∃ r, (∀ x ∈ i.moved ++ i.boundaries,
      .represented r ≤ D x ∧ (answer D x).representationPart ≤ .represented r)
    ∧ (i.moved ++ i.boundaries ≠ [] → ∀ x ∈ interior.components.getLast?,
      (answer D x).representationPart ≤ .represented r)
    ∧ ∀ x ∈ i.boundaries, D x = .boundary tag r := by
  obtain ⟨r, types, last⟩ := h.face_type hφ
  have inlined {c x : Expr} (hc : c ∈ boundary.components) (hx : Inlined x c) :
      D x = .boundary tag r ∨ D x = .scalar := by
    have reached := reached_component hφ hc
    rw [← types c hc]
    exact (h.solves.typed reached).inlined_type (h.final c reached) hx
  -- an input on the boundary has a representation, so it is not the scalar of the two
  have boundaryInput (x : Expr) (hx : x ∈ i.boundaries) : D x = .boundary tag r := by
    obtain ⟨c, hc, hxc, hi⟩ := (i.mem_boundaries x).mp hx
    obtain ⟨r', hr'⟩ := (h.solves.typed (i.reached_boundaries hφ hx)).exists_representation hi
    exact (inlined hc hxc).resolve_right (not_scalar_of_represented hr')
  refine ⟨r, fun x hx => ?_, fun hne => last ?_, boundaryInput⟩
  · have typed : Typed D x := by
      rcases List.mem_append.mp hx with hx | hx
      · exact h.solves.typed (i.reached_volume hφ (i.volume_eq ▸ List.mem_append_right _ hx))
      · exact h.solves.typed (i.reached_boundaries hφ hx)
    have below := representationPart_mono typed.answer_le
    have type : (D x).representationPart = .represented r := by
      rcases List.mem_append.mp hx with hx | hx
      · obtain ⟨c, hc, tag', hxc⟩ := i.moved_restricted x hx
        have onFace : OnFace roots (.apply (.restrict tag') x) := ⟨f, interior, boundary, tag, c,
          hφ, hc, hxc⟩
        have restricted := h.restricted tag' x onFace
        rw [h.moved_type onFace]
        rcases inlined hc hxc with hb | hs
        · cases hb.symm.trans restricted
          rfl
        · nomatch hs.symm.trans restricted
      · rw [boundaryInput x hx]
        rfl
    rw [type] at below
    exact ⟨type ▸ representationPart_le, below⟩
  · intro hnil
    refine hne (List.eq_nil_iff_forall_not_mem.mpr fun x hx => ?_)
    rcases List.mem_append.mp hx with hx | hx
    · obtain ⟨c, hc, -⟩ := i.moved_restricted x hx
      exact absurd (hnil ▸ hc) List.not_mem_nil
    · obtain ⟨c, hc, -⟩ := (i.mem_boundaries x).mp hx
      exact absurd (hnil ▸ hc) List.not_mem_nil

/-- The inputs of the rewritten flux agree on their representation, each with the next one. -/
theorem follow_inputs : (i.volume ++ i.boundaries).IsChain (Follow D) := by
  obtain ⟨r, types, last, -⟩ := h.input_types hφ i
  rw [i.volume_eq, List.append_assoc]
  refine List.isChain_append.mpr ⟨(follow_of_fits (h.solves _ hφ)).left_of_append, ?_, ?_⟩
  · -- any two of the new inputs agree, in whatever order
    refine (List.pairwise_of_forall_mem_list fun a ha b hb => ?_).isChain
    exact (types a ha).2.trans (types b hb).1
  · -- the last interior component agrees with the first of the new inputs
    intro x hx z hz
    have hz := List.mem_of_mem_head? hz
    exact (last (List.ne_nil_of_mem hz) x hx).trans (types z hz).1

omit i

/-- A rewritten flux on a pair fits under `F`: its inputs are what is asked of them, and agree. -/
theorem push_pairFlux (hF : Transports roots roots' D F)
    (hr : Rewrites (.apply (.flux f) (.pair interior boundary tag)) y) (hy : Reached roots' y) :
    Fits F y := by
  obtain ⟨i⟩ := exists_fluxInputs hr fun hz => h.none_vanish _ hφ rfl (hz ▸ hr)
  obtain ⟨r, -, -, boundaryTypes⟩ := h.input_types hφ i
  have fits := h.solves _ hφ
  -- the interior components were asked for, and moved fields are nodal
  have volumeTypes {x : Expr} (hx : x ∈ i.volume) : .onInteriorFaces ≤ D x := by
    rcases (i.mem_volume x).mp hx with hx | ⟨c, hc, tag', hxc⟩
    · exact fits.demands (.onInteriorFaces, x)
        (List.mem_append_left _ (List.mem_map_of_mem hx))
    · rw [h.moved_type ⟨f, interior, boundary, tag, c, hφ, hc, hxc⟩]
      exact .nodalFaces
  refine ⟨fun o ho => ?_, ?_⟩
  · rcases i.exists_of_demand ho with ⟨ht, x, hx, hxz⟩ | ⟨ht, x, hx, hxz⟩
    · rw [ht, hF x o.2 (i.reached_volume hφ hx) hxz (hy.operand ho)]
      exact volumeTypes hx
    · rw [ht, hF x o.2 (i.reached_boundaries hφ hx) hxz (hy.operand ho), boundaryTypes x hx]
      exact onBoundary_le_boundary
  · rw [i.law, hF.readings_inputs h.none_vanish i hφ hy, hF _ y hφ hr hy]
    refine ⟨fits.law.1, ?_⟩
    rw [List.isChain_map]
    exact h.follow_inputs hφ i

omit hφ

/-- A portable typing solves the rewritten roots: every rewritten expression that is visited comes
from a visited one, and fits because that one does. -/
theorem push (hF : Transports roots roots' D F) : Solves roots' F := by
  intro y hy
  obtain ⟨e, he, hr⟩ := exists_reached h.rewrites hy
  by_cases hp : e.isPairFlux = true
  · obtain ⟨f, interior, boundary, tag, rfl⟩ := exists_of_isPairFlux hp
    exact h.push_pairFlux he hF hr hy
  · exact (hF.fits_iff h.none_vanish he hr hy (by simpa using hp)).mpr (h.solves e he)

end Portable

end OperatorTemplate
