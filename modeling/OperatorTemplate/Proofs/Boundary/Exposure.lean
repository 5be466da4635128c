import OperatorTemplate.Proofs.Boundary.Inlined
/-!
# What an accepted boundary field exposes

A node `x` of a boundary field is *exposed* if only arithmetic and common subexpressions stand above
it (`Exposed x e`); it is *proper* for the tag of the pair if it makes sense on that part of the
boundary (`Proper tag x`): of the atoms no kernel normal, of the applications only restrictions,
exchanges and upsamplers, and what carries a tag carries that of the pair.

A translation looks at the nodes that it inlines, and these are proper if it succeeds
(`proper_of_kernel`).  But it does not look into a common subexpression whose body is expensive, for
that one becomes an input as it is; what it exposes is *sheltered* (`Sheltered`).  There is no third
kind of exposed node (`Exposed.inlined_or_sheltered`): on the way down to `x`, each node above it is
looked into, or is such a common subexpression.

So a flux on a pair is accepted with exposed nodes that are not proper, but only sheltered ones
(`root_proper_or_sheltered`).  There are such fluxes (`not_root_proper`).  What is remembered from
earlier rewriting makes no difference: the states of a rewriter are valid
(`RewriteState.Reachable.valid`).
-/

namespace OperatorTemplate

namespace Expr

/-! ## Exposed nodes -/

/-- Arithmetic and common subexpressions. -/
def IsOpen : Expr → Prop
  | .sum _ | .product _ | .quotient _ _ | .power _ _ | .conditional _ _ _ | .ifPositive _ _ _
  | .comparison _ _ _ | .call _ _ | .shared _ _ => True
  | _ => False

/-- Only arithmetic and common subexpressions stand above `x` in `e`. -/
inductive Exposed (x : Expr) : Expr → Prop
  | self : Exposed x x
  | operand {c e : Expr} (ho : e.IsOpen) (hc : c ∈ e.children) (h : Exposed x c) : Exposed x e

/-- What may be exposed in a boundary field of a pair with the given tag: of applications,
restrictions, exchanges and upsamplers, where what carries a tag carries this one. -/
def Proper (tag : BoundaryTag) : Expr → Prop
  | .atom (.kernelNormal _) => False
  | .atom (.normal found _ _) => found = tag
  | .apply (.restrict found) _ => found = tag
  | .apply (.exchange _ rank) _ => .rank rank = tag
  | .apply (.upsampleBoundary _ found) _ => found = tag
  | .apply (.upsample _) _ => True
  | .apply _ _ => False
  | _ => True

/-- Exposed by a common subexpression that is an input because its body is expensive. -/
def Sheltered (x e : Expr) : Prop :=
  ∃ body label, Inlined (.shared body label) e ∧ body.cost = .ok true ∧ Exposed x body

variable {tag : BoundaryTag} {e x : Expr}

/-- What is exposed by something exposed in `e` is exposed in `e`. -/
theorem Exposed.trans {y : Expr} (hx : Exposed x y) (hy : Exposed y e) : Exposed x e := by
  induction hy with
  | self => exact hx
  | operand ho hc _ ih => exact .operand ho hc ih

/-- What a translation looks into is open.  The converse fails for common subexpressions with
expensive bodies. -/
theorem isOpen_of_isTransparent (h : e.IsTransparent) : e.IsOpen := by
  cases e with
  | sum _ | product _ | quotient _ _ | power _ _ | conditional _ _ _ | ifPositive _ _ _
  | comparison _ _ _ | call _ _ | shared _ _ => trivial
  | _ => exact h.elim

/-- What is inlined is exposed. -/
theorem Inlined.exposed (h : Inlined x e) : Exposed x e := by
  induction h with
  | self => exact .self
  | operand ht hc _ ih => exact .operand (isOpen_of_isTransparent ht) hc ih

/-- What is sheltered is exposed. -/
theorem Sheltered.exposed (h : Sheltered x e) : Exposed x e := by
  obtain ⟨body, label, hs, -, hx⟩ := h
  have inside : Exposed x (.shared body label) := .operand trivial List.mem_cons_self hx
  exact inside.trans hs.exposed

/-! ## Translation -/

/-- What has a kernel for the tag of the pair is proper for it: every tag it carries has been
checked. -/
theorem proper_of_kernel {l : KernelOver Expr} (h : e.kernel tag = .ok l) : Proper tag e := by
  cases e with
  | atom a =>
    cases a with
    | normal found axis grid =>
      obtain ⟨⟨⟩, hc, -⟩ := bind_eq_ok.mp h
      exact eq_of_checkTag hc
    | kernelNormal _ => nomatch h
    | _ => trivial
  | apply op field =>
    cases op with
    | restrict found | exchange _ found | upsampleBoundary _ found =>
      obtain ⟨⟨⟩, hc, -⟩ := bind_eq_ok.mp h
      exact eq_of_checkTag hc
    | upsample _ => trivial
    | _ => nomatch h
  | _ => trivial

/-- What is exposed in a translated expression is inlined, or sheltered.  By induction on the way
from `e` down to `x`. -/
theorem Exposed.inlined_or_sheltered (hx : Exposed x e) {l : KernelOver Expr}
    (h : e.kernel tag = .ok l) : Inlined x e ∨ Sheltered x e := by
  induction hx generalizing l with
  | self => exact .inl .self
  | @operand c e ho hc hx ih =>
    by_cases ht : e.IsTransparent
    · obtain ⟨l', hl'⟩ := exists_kernel_of_child ht h hc
      rcases ih hl' with hin | ⟨body, label, hs, hcost, hx⟩
      · exact .inl (.operand ht hc hin)
      · exact .inr ⟨body, label, .operand ht hc hs, hcost, hx⟩
    · -- the only open node that is not looked into is a common subexpression of an expensive body
      cases e with
      | shared body label =>
        obtain rfl := List.mem_singleton.mp hc
        obtain ⟨cost, hcost, -⟩ := bind_eq_ok.mp h
        cases cost with
        | false => exact absurd hcost ht
        | true => exact .inr ⟨c, label, .self, hcost, hx⟩
      | sum _ | product _ | quotient _ _ | power _ _ | conditional _ _ _ | ifPositive _ _ _
      | comparison _ _ _ | call _ _ => exact absurd trivial ht
      | _ => exact ho.elim

/-! ## What is rewritten -/

/-- Rewriting `e` rewrites `x`: every node, but of the boundary field of a pair, and of a flux that
turns out to vanish, only what is read. -/
inductive Met (x : Expr) : Expr → Prop
  | self : Met x x
  | child {c e : Expr} (hp : e.isPairFlux = false) (hc : c ∈ e.children) (h : Met x c) : Met x e
  | input {f : Flux} {interior boundary c : Expr} {tag : BoundaryTag}
    (hz : (Expr.apply (.flux f) (.pair interior boundary tag)).rewritten ≠ .ok .zero)
    (hc : c ∈ (translatePair .empty interior boundary tag).2.volume
      ∨ c ∈ (translatePair .empty interior boundary tag).2.boundary)
    (h : Met x c) : Met x (.apply (.flux f) (.pair interior boundary tag))

/-- Where `e` is rewritten, all that is met in it is rewritten. -/
theorem Met.exists_rewritten (h : Met x e) {y : Expr} (hy : e.rewritten = .ok y) :
    ∃ z, x.rewritten = .ok z := by
  induction h generalizing y with
  | self => exact ⟨y, hy⟩
  | child hp hc _ ih =>
    rw [rewritten_of_not_pairFlux hp] at hy
    obtain ⟨z, -, hz⟩ := exists_right_of_forall₂ (rebuilt_of_mapChildrenM hy).2 hc
    exact ih hz
  | input hzero hc _ ih =>
    obtain ⟨r⟩ := exists_fluxRewriting hy
    have result := r.result
    -- a flux that vanishes does not reach its inputs, and is excluded here
    split at result
    · exact absurd (hy.trans (congrArg _ result)) hzero
    · obtain ⟨-, hv, hb⟩ := result
      rcases hc with hc | hc
      · obtain ⟨z, -, hz⟩ := exists_right_of_forall₂ hv hc
        exact ih hz
      · obtain ⟨z, -, hz⟩ := exists_right_of_forall₂ hb hc
        exact ih hz

/-- What a component `c` of the boundary field of an accepted flux exposes is proper for the tag of
the pair, or sheltered in `c`. -/
theorem proper_or_sheltered {f : Flux} {interior boundary y c : Expr}
    (h : (Expr.apply (.flux f) (.pair interior boundary tag)).rewritten = .ok y)
    (hc : c ∈ boundary.components) (hx : Exposed x c) : Proper tag x ∨ Sheltered x c := by
  obtain ⟨r⟩ := exists_fluxRewriting h
  obtain ⟨l, hl⟩ := exists_kernel_of_translatePair r.translated hc .self
  rcases hx.inlined_or_sheltered hl with hin | hs
  · obtain ⟨lx, hlx⟩ := hin.exists_kernel hl
    exact .inl (proper_of_kernel hlx)
  · exact .inr hs

end Expr

/-! ## States -/

/-- The states of a rewriter, after any number of roots that it accepted or rejected. -/
inductive RewriteState.Reachable : RewriteState → Prop
  | init : Reachable {}
  | root {s : RewriteState} (h : Reachable s) (e : Expr) : Reachable ((Rewrite.root e).run.run s).2

/-- The states of a rewriter are valid: rewriting a root leaves a valid memory, whether it is
accepted or rejected. -/
theorem RewriteState.Reachable.valid {s : RewriteState} (h : s.Reachable) : s.Valid := by
  induction h with
  | init => exact valid_init
  | root _ e ih => exact (Rewrite.answers_root e _ ih).2

namespace Rewrite

open OperatorTemplate.Expr

variable {s : RewriteState} {e y interior boundary : Expr} {f : Flux} {tag : BoundaryTag}

/-- In every flux on a pair that an accepted root has, whatever was rewritten before, what the
boundary field exposes is proper, or sheltered by a common subexpression of an expensive body.  So
all that is exposed is proper exactly if all that is sheltered is. -/
theorem root_proper_or_sheltered (hs : s.Reachable) (h : ((root e).run.run s).1 = .ok y)
    (hm : Met (.apply (.flux f) (.pair interior boundary tag)) e) :
    (∀ c ∈ boundary.components, ∀ x, Exposed x c → Proper tag x ∨ Sheltered x c) ∧
    ((∀ c ∈ boundary.components, ∀ x, Exposed x c → Proper tag x)
      ↔ ∀ c ∈ boundary.components, ∀ x, Sheltered x c → Proper tag x) := by
  have accepted : e.rewritten = .ok y := (answers_root e s hs.valid).1.symm.trans h
  obtain ⟨z, hz⟩ := hm.exists_rewritten accepted
  refine ⟨fun c hc x hx => proper_or_sheltered hz hc hx,
    fun hp c hc x hx => hp c hc x hx.exposed, fun hp c hc x hx => ?_⟩
  rcases proper_or_sheltered hz hc hx with proper | sheltered
  · exact proper
  · exact hp c hc x sheltered

/-- A flux inside a sum, rewritten after the flux alone. -/
theorem root_proper_or_sheltered_sum :
    let u : Expr := .atom (.variable "u")
    let field : Expr := .shared (.sum [.apply (.upsample ⟨"q"⟩) u,
      .atom (.normal (.named "wall") 0 none)]) none
    let flux : Expr := .apply (.flux ⟨.plain, .component .exterior 0⟩)
      (.pair (.atom (.variable "w")) field (.named "wall"))
    ∃ s y, RewriteState.Reachable s ∧ ((root (.sum [u, flux])).run.run s).1 = .ok y
      ∧ ∀ x, Exposed x field → Proper (.named "wall") x ∨ Sheltered x field := by
  intro u field flux
  have reachable : RewriteState.Reachable ((root flux).run.run {}).2 := .root .init flux
  obtain ⟨y, hy⟩ := exists_eq_ok
    (show ((root (.sum [u, flux])).run.run ((root flux).run.run {}).2).1.isOk = true by
      decide +kernel)
  have met : Met flux (.sum [u, flux]) := .child rfl (.tail _ List.mem_cons_self) .self
  exact ⟨_, y, reachable, hy,
    (root_proper_or_sheltered reachable hy met).1 field List.mem_cons_self⟩

/-- Beside an upsampler in a common subexpression, a flux normal, a normal of another part of the
boundary and an upsampler to the interior faces are accepted, all of which are rejected without
the common subexpression. -/
theorem not_root_proper :
    let g : Expr := .atom (.variable "g")
    let field (x : Expr) : Expr := .sum [.apply (.upsample ⟨"q"⟩) g, x]
    let flux (boundary : Expr) : Expr := .apply (.flux ⟨.plain, .component .exterior 0⟩)
      (.pair (.atom (.variable "u")) boundary (.named "wall"))
    let improper : List Expr := [.atom (.kernelNormal 0), .atom (.normal (.named "inflow") 0 none),
      .apply (.upsampleInteriorFaces ⟨"q"⟩) g]
    (∀ x ∈ improper, Exposed x (.shared (field x) none) ∧ ¬Proper (.named "wall") x)
    ∧ (∀ x ∈ improper, ((root (flux (.shared (field x) none))).run.run {}).1.isOk = true)
    ∧ ∀ x ∈ improper, ((root (flux (field x))).run.run {}).1.isOk = false := by
  intro g field flux improper
  refine ⟨fun x hx => ⟨?_, ?_⟩, by decide +kernel, by decide +kernel⟩
  · exact .operand trivial List.mem_cons_self
      (.operand trivial (.tail _ List.mem_cons_self) .self)
  · simp only [improper, List.mem_cons, List.not_mem_nil, or_false] at hx
    rcases hx with rfl | rfl | rfl
    · exact id
    · show (BoundaryTag.named "inflow") ≠ .named "wall"
      decide
    · exact id

end Rewrite

end OperatorTemplate
