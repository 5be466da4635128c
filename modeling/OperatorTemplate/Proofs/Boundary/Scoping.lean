import OperatorTemplate.Proofs.Boundary.Denotation
import OperatorTemplate.Proofs.Boundary.Inlined
import OperatorTemplate.Proofs.Kernel.Components
/-!
# What the kernels of rewritten fluxes may read

A kernel names the fields of its pair by position.  A position is in scope if the pair has a field
there (`Kernel.InScope k side fields`: every position of `side` that `k` reads is below the number
of `fields`).

What the rewriting of a flux adds to a kernel is in scope on both sides, because a translation reads
what it has listed (`FluxRewriting.listed_or_kept`).  The positions of the old kernel fare
differently. Exterior ones are checked before they are replaced, so all that is left of them is in
scope.  Interior ones are kept without a check: below the number of interior components they mean
what they meant, for the volume inputs start with these; beyond it they mean what the boundary field
has put there, or nothing.

So every flux on a pair that rewriting emits is in scope but for interior positions that were out of
scope before (`scopes_of_rewriteBoundaryFluxes`), and these are accepted (`not_inScope`).  To say it
of every emitted flux, each of them is traced back to the flux of the template that it came from
(`exists_source`), through the inputs of other rewritten fluxes where need be.
-/

namespace OperatorTemplate

/-- What the kernel reads on one side has a place among the fields of that side. -/
def Kernel.InScope (k : Kernel) (side : Side) (fields : List Expr) : Prop :=
  ∀ index, (side, index) ∈ k.components → index < fields.length

namespace Expr

variable {y z interior boundary : Expr} {f : Flux} {tag : BoundaryTag}

/-! ## Where emitted fluxes come from -/

/-- A flux `z` on a pair, in the list of what the inputs `xs` are rewritten to, is in what one of
them is rewritten to. -/
theorem exists_input_of_partOf_array {xs zs : List Expr}
    (h : List.Forall₂ (fun x d => x.rewritten = .ok d) xs zs) (hz : PartOf z (.array zs))
    (hf : z.isPairFlux = true) : ∃ x ∈ xs, ∃ d, x.rewritten = .ok d ∧ PartOf z d := by
  cases hz with
  | self => nomatch hf
  | operand hd hz =>
    obtain ⟨x, hx, hr⟩ := exists_left_of_forall₂ h hd
    exact ⟨x, hx, _, hr, hz⟩

/-- A flux `z` on a pair, in the rewriting `y` of such a flux, is `y` itself or in the rewriting of
an input, which is a smaller part of the old pair. -/
theorem FluxRewriting.self_or_input (r : FluxRewriting f interior boundary tag y)
    (hz : PartOf z y) (hf : z.isPairFlux = true) :
    z = y ∨ ∃ x d, PartOf x (.pair interior boundary tag)
      ∧ x.size < (Expr.pair interior boundary tag).size ∧ x.rewritten = .ok d ∧ PartOf z d := by
  have parts := allInputs_partOf .empty interior boundary tag
  have small := allInputs_translatePair .empty interior boundary tag
  have result := r.result
  split at result
  · -- a zero has no other parts
    rw [result] at hz
    cases hz with
    | self => nomatch hf
    | operand hc _ => nomatch hc
  obtain ⟨hy, hv, hb⟩ := result
  rw [hy] at hz ⊢
  cases hz with
  | self => exact .inl rfl
  | operand hc hz =>
    obtain rfl := List.mem_singleton.mp hc
    cases hz with
    | self => nomatch hf
    | operand hc hz =>
      rcases List.mem_cons.mp hc with rfl | hc
      · obtain ⟨x, hx, d, hr, hz⟩ := exists_input_of_partOf_array hv hz hf
        exact .inr ⟨x, d, parts.1 x hx, small.1 x hx, hr, hz⟩
      · obtain rfl := List.mem_singleton.mp hc
        obtain ⟨x, hx, d, hr, hz⟩ := exists_input_of_partOf_array hb hz hf
        exact .inr ⟨x, d, parts.2 x hx, small.2 x hx, hr, hz⟩

/-- A flux `z` on a pair that is a part of what `e` is rewritten to is the rewriting of such a flux
`x` that is a part of `e`.  By induction on the size of `e`. -/
theorem exists_source (e : Expr) {y : Expr} (h : e.rewritten = .ok y) (hz : PartOf z y)
    (hf : z.isPairFlux = true) :
    ∃ x, PartOf x e ∧ x.isPairFlux = true ∧ x.rewritten = .ok z := by
  have below {c d : Expr} (_ : c.size < e.size) (hc : PartOf c e) (hd : c.rewritten = .ok d)
      (hz : PartOf z d) : ∃ x, PartOf x e ∧ x.isPairFlux = true ∧ x.rewritten = .ok z := by
    obtain ⟨x, hx, hxf, hr⟩ := exists_source c hd hz hf
    exact ⟨x, hx.trans hc, hxf, hr⟩
  by_cases hp : e.isPairFlux = true
  · -- a flux on a pair: `z` is its rewriting, or comes from one of its inputs
    obtain ⟨f, interior, boundary, tag, rfl⟩ := exists_of_isPairFlux hp
    obtain ⟨r⟩ := exists_fluxRewriting h
    rcases r.self_or_input hz hf with rfl | ⟨x, d, hx, small, hr, hz⟩
    · exact ⟨_, .self, rfl, h⟩
    · have pair : (Expr.pair interior boundary tag) ∈
        (Expr.apply (.flux f) (.pair interior boundary tag)).children := List.mem_cons_self
      exact below (small.trans (size_lt_of_mem_children pair)) (hx.trans (.of_child pair)) hr hz
  · have hp : e.isPairFlux = false := by simpa using hp
    -- any other node is rebuilt, so `z` is in the rewriting of one of its children
    cases hz with
    | self => nomatch hf.symm.trans (not_isPairFlux_of_rewritten hp h)
    | operand hd hz =>
      rw [rewritten_of_not_pairFlux hp] at h
      obtain ⟨c, hc, hr⟩ := exists_left_of_forall₂ (rebuilt_of_mapChildrenM h).2 hd
      exact below (size_lt_of_mem_children hc) (.of_child hc) hr hz
termination_by e.size

/-! ## One flux -/

/-- The exterior positions of a kernel are checked, and there is a replacement for each boundary
component. -/
theorem FluxRewriting.exterior_inScope (r : FluxRewriting f interior boundary tag y) :
    f.kernel.InScope .exterior boundary.components
      ∧ r.kernels.length = boundary.components.length := by
  obtain ⟨ls, sources, names⟩ := exists_kernels_of_translatePair r.translated
  have length : r.kernels.length = boundary.components.length :=
    names.length_eq.trans sources.length_eq.symm
  refine ⟨fun index hi => ?_, length⟩
  rw [← length]
  exact (Kernel.of_substituteBoundary r.substituted).2 index hi

/-- A field `c` that the new kernel reads is an input that the translation has listed, or an
interior position of the old kernel. -/
theorem FluxRewriting.listed_or_kept (r : FluxRewriting f interior boundary tag y)
    {c : Side × Nat} (hc : c ∈ r.kernel.components) :
    (∃ x, (translatePair .empty interior boundary tag).2.input? c.1 c.2 = some x)
      ∨ (c.1 = .interior ∧ c ∈ f.kernel.components) := by
  obtain ⟨ls, -, names⟩ := exists_kernels_of_translatePair r.translated
  obtain ⟨substituted, bound⟩ := Kernel.of_substituteBoundary r.substituted
  rw [substituted] at hc
  obtain ⟨⟨side, index⟩, hd, hc⟩ := KernelOver.exists_of_mem_components_substitute
    (Kernel.replacesFields_boundary r.kernels) f.kernel hc
  cases side with
  | interior =>
    rw [KernelOver.substitute_of_none rfl] at hc
    obtain rfl := List.mem_singleton.mp hc
    exact .inr ⟨rfl, hd⟩
  | exterior =>
    -- an exterior position was replaced, by a kernel that reads what is listed
    have hlt := bound index hd
    have answer : Kernel.boundaryReplacement r.kernels (.component .exterior index)
        = some r.kernels[index] := List.getElem?_eq_getElem hlt
    rw [KernelOver.substitute_of_some answer] at hc
    obtain ⟨l, -, named⟩ := exists_right_of_forall₂ names (List.getElem_mem hlt)
    obtain ⟨x, -, hx⟩ := named.exists_input hc
    exact .inl ⟨x, hx⟩

/-- What is in scope on the pair of a rewritten flux, and which fields its interior positions
mean. -/
structure FluxScopes (f f' : Flux) (interior boundary volume boundaries : Expr) : Prop where
  kind : f'.kind = f.kind
  exterior_before : f.kernel.InScope .exterior boundary.components
  exterior : f'.kernel.InScope .exterior boundaries.components
  /-- Interior positions that are out of scope have been out of scope before. -/
  interior_or : ∀ index, (Side.interior, index) ∈ f'.kernel.components →
    index < volume.components.length
      ∨ ((Side.interior, index) ∈ f.kernel.components ∧ interior.components.length ≤ index)
  /-- The interior components keep their positions; after them comes what the boundary field
  restricts. -/
  volume : ∃ moved, List.Forall₂ (fun x z => x.rewritten = .ok z) (interior.components ++ moved)
      volume.components
    ∧ ∀ x ∈ moved, ∃ c ∈ boundary.components, ∃ tag, Inlined (.apply (.restrict tag) x) c

variable {f' : Flux} {volume boundaries : Expr}

/-- Where a flux on a pair is rewritten to another, the two are related as `FluxScopes` says. -/
theorem fluxScopes_of_rewritten
    (h : (Expr.apply (.flux f) (.pair interior boundary tag)).rewritten = .ok y)
    (hy : y = .apply (.flux f') (.pair volume boundaries tag)) :
    FluxScopes f f' interior boundary volume boundaries := by
  obtain ⟨r⟩ := exists_fluxRewriting h
  obtain ⟨-, hr, hv, hb⟩ := r.emitted (by rw [hy]; nofun)
  obtain ⟨hflux, hpair⟩ := Expr.apply.inj (hy.symm.trans hr)
  obtain ⟨rfl, rfl, -⟩ := Expr.pair.inj hpair
  obtain rfl := Operator.flux.inj hflux
  obtain ⟨moved, listed, restricted⟩ := exists_moved_of_translatePair r.translated
  rw [listed] at hv
  refine ⟨rfl, r.exterior_inScope.1, fun index hi => ?_, fun index hi => ?_,
    ⟨moved, hv, restricted⟩⟩
  · -- an exterior position comes from the translation, and is listed there
    rcases r.listed_or_kept hi with ⟨x, hx⟩ | ⟨hside, -⟩
    · show index < r.boundaries.length
      rw [← hb.length_eq]
      exact (List.getElem?_eq_some_iff.mp hx).1
    · nomatch hside
  · -- an interior position is listed, or it stood in the old kernel beyond all interior components
    by_cases hlt : index < r.volume.length
    · exact .inl hlt
    rcases r.listed_or_kept hi with ⟨x, hx⟩ | ⟨-, kept⟩
    · refine absurd ?_ hlt
      rw [← hv.length_eq, ← listed]
      exact (List.getElem?_eq_some_iff.mp hx).1
    · have := hv.length_eq
      rw [List.length_append] at this
      exact .inr ⟨kept, by omega⟩

/-- A kernel whose interior positions were in scope is rewritten to one whose interior positions
are. -/
theorem FluxScopes.interior_inScope (s : FluxScopes f f' interior boundary volume boundaries)
    (h : f.kernel.InScope .interior interior.components) :
    f'.kernel.InScope .interior volume.components := by
  intro index hi
  rcases s.interior_or index hi with hlt | ⟨kept, hle⟩
  · exact hlt
  · have := h index kept
    omega

end Expr

/-! ## Templates -/

open OperatorTemplate.Expr

/-- **Rewriting keeps scopes.**  Every flux on a pair that the rewriting of a template emits is the
rewriting of one that the template has.  Its exterior positions are in scope, and so are its
interior ones, apart from those that the old kernel had beyond the interior components; so all of
them are if the old kernel had none. -/
theorem scopes_of_rewriteBoundaryFluxes {roots roots' : List Expr}
    (h : rewriteBoundaryFluxes roots = .ok roots') {y : Expr} (hy : y ∈ roots') {f' : Flux}
    {volume boundaries : Expr} {tag : BoundaryTag}
    (hp : PartOf (.apply (.flux f') (.pair volume boundaries tag)) y) :
    ∃ f interior boundary,
      (∃ e ∈ roots, PartOf (.apply (.flux f) (.pair interior boundary tag)) e)
      ∧ (Expr.apply (.flux f) (.pair interior boundary tag)).rewritten
        = .ok (.apply (.flux f') (.pair volume boundaries tag))
      ∧ FluxScopes f f' interior boundary volume boundaries
      ∧ (f.kernel.InScope .interior interior.components →
          f'.kernel.InScope .interior volume.components) := by
  rw [rewriteBoundaryFluxes_eq] at h
  obtain ⟨e, he, hr⟩ := exists_left_of_forall₂ (forall₂_of_mapM h) hy
  -- a pair flux in the output is what some pair flux of the input was rewritten to
  obtain ⟨x, hx, hxf, hr⟩ := exists_source e hr hp rfl
  obtain ⟨f, interior, boundary, tag', rfl⟩ := exists_of_isPairFlux hxf
  obtain ⟨r⟩ := exists_fluxRewriting hr
  have result := r.result
  split at result
  · nomatch result
  · obtain rfl : tag = tag' := (Expr.pair.inj (Expr.apply.inj result.1).2).2.2
    have scopes := fluxScopes_of_rewritten hr rfl
    exact ⟨f, interior, boundary, ⟨e, he, hx⟩, hr, scopes, scopes.interior_inScope⟩

/-- Beyond the only interior component, the kernel has come to read what the boundary field
restricts. -/
theorem scopes_of_rewriteBoundaryFluxes_beyond :
    let u : Expr := .atom (.variable "u")
    let v : Expr := .atom (.variable "v")
    let f : Flux := ⟨.plain, .sum [.component .interior 1, .component .exterior 0]⟩
    let f' : Flux := ⟨.plain, .sum [.component .interior 1, .component .interior 1]⟩
    let field : Expr := .apply (.restrict (.named "wall")) v
    let flux : Expr := .apply (.flux f) (.pair u field (.named "wall"))
    let flux' : Expr := .apply (.flux f') (.pair (.array [u, v]) (.array []) (.named "wall"))
    rewriteBoundaryFluxes [.sum [u, flux]] = .ok [.sum [u, flux']]
      ∧ ∃ f interior boundary, FluxScopes f f' interior boundary (.array [u, v]) (.array []) := by
  intro u v f f' field flux flux'
  have rewritten : rewriteBoundaryFluxes [.sum [u, flux]] = .ok [.sum [u, flux']] := by
    decide +kernel
  have part : PartOf flux' (.sum [u, flux']) := .of_child (.tail _ List.mem_cons_self)
  obtain ⟨f, interior, boundary, -, -, scopes, -⟩ :=
    scopes_of_rewriteBoundaryFluxes rewritten List.mem_cons_self part
  exact ⟨rewritten, f, interior, boundary, scopes⟩

/-- Of the interior positions `1` and `5` on a pair with one interior component, one comes to read
what the boundary field restricts and the other nothing.  The flux is accepted.  With an exterior
position `1` on the pair, which has one boundary component, it is rejected. -/
theorem not_inScope :
    let u : Expr := .atom (.variable "u")
    let v : Expr := .atom (.variable "v")
    let kernel (side : Side) : Kernel :=
      .sum [.component side 1, .component .interior 5, .component .exterior 0]
    let kernel' : Kernel :=
      .sum [.component .interior 1, .component .interior 5, .component .interior 1]
    let flux (side : Side) : Expr := .apply (.flux ⟨.plain, kernel side⟩)
      (.pair u (.apply (.restrict (.named "wall")) v) (.named "wall"))
    rewriteBoundaryFluxes [flux .interior]
        = .ok [.apply (.flux ⟨.plain, kernel'⟩)
            (.pair (.array [u, v]) (.array []) (.named "wall"))]
      ∧ ¬(kernel .interior).InScope .interior u.components
      ∧ ¬kernel'.InScope .interior [u, v]
      ∧ rewriteBoundaryFluxes [flux .exterior] = .error (.componentOutOfRange 1 1) := by
  intro u v kernel kernel' flux
  refine ⟨by decide +kernel, fun h => ?_, fun h => ?_, by decide +kernel⟩
  · exact absurd (h 1 (by decide)) (by decide)
  · exact absurd (h 5 (by decide)) (by decide)

end OperatorTemplate
