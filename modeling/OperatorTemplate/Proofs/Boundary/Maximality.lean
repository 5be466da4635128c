import OperatorTemplate.Proofs.Boundary.Exposure
import OperatorTemplate.Proofs.Boundary.FaceTypes
import OperatorTemplate.Proofs.Boundary.Scoping
/-!
# What is left of boundary fields

After rewriting, nothing stays in a boundary field that a kernel could have computed: the fields of
every flux on a pair are listed one by one, and those on the boundary are data (`IsData`), that is
variables, elements of aggregates, what was exchanged or interpolated, and common subexpressions of
expensive bodies.

The crux is that a boundary input is rewritten again after it was listed, and that this makes nothing
else of it.  A boundary input is no flux on a pair, so its head is kept; and where the head is a
common subexpression the cost of its body is kept (`isData_of_rewrites`).  As every flux on a pair in
the output is the rewriting of one in the input, wherever it stands, one such flux is all there is to
look at (`IsMaximal.of_rewrites`).
-/

namespace OperatorTemplate

namespace Expr

variable {e x y : Expr}

/-- Data that no kernel computes from the data of a face.  The bodies of common subexpressions count
only if they are expensive. -/
inductive IsData : Expr → Prop
  | variable (name : String) : IsData (.atom (.variable name))
  | subscript (aggregate : Expr) (index : Nat) : IsData (.subscript aggregate index)
  | exchanged (index rank : Nat) (arguments : List Expr) : IsData (.exchange index rank arguments)
  | exchange (index rank : Nat) (field : Expr) : IsData (.apply (.exchange index rank) field)
  | upsample (grid : QuadratureTag) (field : Expr) : IsData (.apply (.upsample grid) field)
  | upsampleBoundary (grid : QuadratureTag) (tag : BoundaryTag) (field : Expr) :
    IsData (.apply (.upsampleBoundary grid tag) field)
  | shared (body : Expr) (label : Option String) (hc : body.cost = .ok true) :
    IsData (.shared body label)

/-- An expression that is listed as its own boundary input is data. -/
theorem isData_of_input? (h : e.input? = some (.exterior, x)) : IsData e := by
  unfold input? at h
  split at h
  · cases h
  · exact .exchange _ _ _
  · exact .upsample _ _
  · exact .upsampleBoundary _ _ _
  · exact .variable _
  · exact .subscript _ _
  · exact .exchanged _ _ _
  · split at h
    next hc => exact .shared _ _ hc
    · cases h
  · cases h

/-- Rewriting a boundary input `e` makes data of it, since it is a boundary input again. -/
theorem isData_of_rewrites (h : Rewrites e y) (hi : e.input? = some (.exterior, e)) : IsData y :=
  isData_of_input? (input?_of_rewrites h hi)

/-- A flux on a pair of which nothing more can be moved into the kernel: the kernel is no literal
zero, the fields are listed one by one, and those on the boundary are data. -/
structure IsMaximal (f : Flux) (volume boundary : Expr) : Prop where
  kernel : f.kernel.isZero = false
  volume : ∃ es, volume = .array es
  boundary : ∃ es, boundary = .array es ∧ ∀ x ∈ es, IsData x

/-- If a flux on a pair is rewritten to a flux on a pair, the new one is maximal. -/
theorem IsMaximal.of_rewrites {f : Flux} {volume boundary : Expr} {tag : BoundaryTag}
    (hp : e.isPairFlux = true)
    (h : Rewrites e (.apply (.flux f) (.pair volume boundary tag))) : IsMaximal f volume boundary := by
  obtain ⟨f₀, interior, field, tag', rfl⟩ := exists_of_isPairFlux hp
  obtain ⟨r⟩ := exists_fluxRewriting h
  obtain ⟨nonzero, heq, -, boundaries⟩ := r.emitted nofun
  obtain ⟨hflux, hpair⟩ := Expr.apply.inj heq
  obtain ⟨hvolume, hboundary, -⟩ := Expr.pair.inj hpair
  -- a flux with a zero kernel would have collapsed
  have kernel : f.kernel.isZero = false := by
    rw [Operator.flux.inj hflux]
    exact nonzero
  -- a boundary input was data when it was listed, and is rewritten to data
  have data : ∀ x ∈ r.boundaries, IsData x := by
    intro x hx
    obtain ⟨c, hc, hcx⟩ := exists_left_of_forall₂ boundaries hx
    obtain ⟨-, -, -, input⟩ := (mem_boundary_iff r.translated).mp hc
    exact isData_of_rewrites hcx input
  exact ⟨kernel, ⟨r.volume, hvolume⟩, ⟨r.boundaries, hboundary, data⟩⟩

end Expr

/-! ## Rewriters -/

namespace Rewrite

open OperatorTemplate.Expr

variable {s : RewriteState} {e y volume boundary : Expr} {f : Flux} {tag : BoundaryTag}

/-- **Rewriting is maximal.**  Whatever a rewriter has rewritten before, every flux on a pair, at any
place in what it makes of a root, is maximal.  The bodies of the common subexpressions among its
boundary inputs still count as expensive, whatever is rewritten next. -/
theorem root_isMaximal (hs : s.Reachable) (h : ((root e).run.run s).1 = .ok y)
    (hp : PartOf (.apply (.flux f) (.pair volume boundary tag)) y) :
    IsMaximal f volume boundary
      ∧ ∀ body label, .shared body label ∈ boundary.components →
        ∀ t, RewriteState.Reachable t → (body.isExpensive.run.run t.costs).1 = .ok true := by
  have accepted : Rewrites e y := (answers_root e s hs.valid).1.symm.trans h
  -- the flux in the output is the rewriting of a flux on a pair `x` in the root
  obtain ⟨x, -, hx, rewrites⟩ := exists_source e accepted hp rfl
  have maximal := IsMaximal.of_rewrites hx rewrites
  refine ⟨maximal, ?_⟩
  intro body label hb t ht
  obtain ⟨es, rfl, data⟩ := maximal.boundary
  rw [(answers_isExpensive body t.costs ht.valid.costs).1]
  cases data _ hb with
  | shared _ _ hc => exact hc

/-- Inside the argument of an exchange, a flux keeps an expensive common subexpression, the body of
which holds a flux that vanishes, and computes what stands beside it. -/
theorem root_isMaximal_exchange :
    let g : Expr := .atom (.variable "g")
    let vanishing : Expr := .apply (.flux ⟨.plain, .component .exterior 0⟩)
      (.pair g (.atom (.constant (.int 0))) (.named "wall"))
    let body : Expr := .sum [.apply (.upsample ⟨"q"⟩) vanishing, g]
    let flux : Expr := .apply (.flux ⟨.plain, .component .exterior 0⟩)
      (.pair (.atom (.variable "u")) (.product [g, .shared body none]) (.named "wall"))
    let body' : Expr := .sum [.apply (.upsample ⟨"q"⟩) .zero, g]
    let flux' : Flux := ⟨.plain, .product [.component .exterior 0, .component .exterior 1]⟩
    let boundary : Expr := .array [g, .shared body' none]
    ((root (.exchange 0 1 [flux])).run.run {}).1
        = .ok (.exchange 0 1 [.apply (.flux flux')
            (.pair (.array [.atom (.variable "u")]) boundary (.named "wall"))])
      ∧ IsMaximal flux' (.array [.atom (.variable "u")]) boundary := by
  intro g vanishing body flux body' flux' boundary
  have rewritten : ((root (.exchange 0 1 [flux])).run.run {}).1
      = .ok (.exchange 0 1 [.apply (.flux flux')
          (.pair (.array [.atom (.variable "u")]) boundary (.named "wall"))]) := by
    decide +kernel
  exact ⟨rewritten, (root_isMaximal .init rewritten (.of_child List.mem_cons_self)).1⟩

end Rewrite

end OperatorTemplate
