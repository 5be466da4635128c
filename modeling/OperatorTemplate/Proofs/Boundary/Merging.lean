import OperatorTemplate.Proofs.Boundary.Survival
import OperatorTemplate.Proofs.Inference.Determined
/-!
# Expressions that rewriting makes equal

Two expressions `e` and `e'` may be rewritten to the same `y`: a flux that reads a restriction, and
one that reads a common subexpression of it.  If a typing of the roots is to be carried over to the
rewritten roots, it must give both the same type, for `y` has only one.

The type of a node is determined by the types of its operands (`Law.own_unique`), and the operands
of `e` and `e'` are made equal as well, so the proof is by induction on the size of `e`.  Two kinds
of nodes are not determined by their operands.  Atoms are left alone, so they were equal to begin
with. Subscripts are typed without a look at the aggregate, and so may differ in type while
rewriting makes the aggregates equal; that they do not is assumed (`SubscriptsAgree`).
-/

namespace OperatorTemplate

open OperatorTemplate.Expr

variable {roots roots' : List Expr} {D : Expr → FieldType} {e e' y : Expr}

/-- Subscripts that are rewritten to the same expression have the same type. -/
def SubscriptsAgree (roots roots' : List Expr) (D : Expr → FieldType) : Prop :=
  ∀ a a' index y, Reached roots (.subscript a index) → Reached roots (.subscript a' index) →
    Rewrites (.subscript a index) y → Rewrites (.subscript a' index) y → Reached roots' y →
    D (.subscript a index) = D (.subscript a' index)

/-- Let `D` solve the roots with final types, let no flux vanish, and let subscripts agree.  If two
visited expressions `e` and `e'` are rewritten to the same `y`, which is visited, then they have the
same type. -/
theorem type_eq_of_rewrites (hv : NoneVanish roots) (hs : Solves roots D)
    (hf : ∀ e, Reached roots e → (D e).isFinal = true) (ha : SubscriptsAgree roots roots' D)
    {e e' y : Expr} (he : Reached roots e) (he' : Reached roots e') (hr : Rewrites e y)
    (hr' : Rewrites e' y) (hy : Reached roots' y) : D e = D e' := by
  -- `y` is a flux on a pair exactly if what is rewritten to it was one
  have kept {x : Expr} (hx : Reached roots x) (hxy : Rewrites x y) : x.isPairFlux = y.isPairFlux := by
    cases hp : x.isPairFlux with
    | true =>
      exact (isPairFlux_of_rewrites hxy hp fun hz => hv x hx hp (hz ▸ hxy)).symm
    | false => exact (not_isPairFlux_of_rewritten hp hxy).symm
  have same := (kept he hr).trans (kept he' hr').symm
  cases hp : e.isPairFlux with
  | true =>
    -- every flux is nodal volume data
    have flux {x : Expr} (hx : Reached roots x) (hp : x.isPairFlux = true) : D x = .volume .nodal := by
      obtain ⟨f, interior, boundary, tag, rfl⟩ := exists_of_isPairFlux hp
      exact FieldType.eq_of_isFinal_of_le rfl (hs _ hx).law.1
    rw [flux he hp, flux he' (same ▸ hp)]
  | false =>
    have hp' : e'.isPairFlux = false := same ▸ hp
    -- an atom is left alone, and so equal to `e'`
    by_cases hatom : ∃ a, e = .atom a
    · obtain ⟨a, rfl⟩ := hatom
      obtain rfl := rewrites_atom hr
      have head := (hr'.rebuilt hp').1
      cases e' <;> cases head
      rfl
    -- a subscript is rewritten from a subscript
    by_cases hsub : ∃ x index, e = .subscript x index
    · obtain ⟨x, index, rfl⟩ := hsub
      have head := (hr'.rebuilt hp').1.symm.trans (hr.rebuilt rfl).1
      cases e' <;> cases head
      exact ha _ _ _ y he he' hr hr' hy
    have laws : e'.law = e.law := (law_of_rewritten hp' hr').symm.trans (law_of_rewritten hp hr)
    have law := (hs e' he').law
    rw [laws] at law
    refine Law.own_unique (isDetermined_law (fun a h => hatom ⟨a, h⟩) fun x i h => hsub ⟨x, i, h⟩)
      exists_reading_of_isUnary (hs e he).law law (hf e he) (hf e' he') ?_
    -- the operands are made equal, so they have the same types
    rw [readings, readings, List.forall₂_map_left_iff, List.forall₂_map_right_iff]
    refine (forall₂_of_common (demands_of_rewritten hp hr) (demands_of_rewritten hp' hr')).imp ?_
    rintro o o' ⟨ho, ho', o'', ho'', hc, hc'⟩
    have := size_lt_of_mem_demands ho
    have operand := he.operand ho
    have operand' := he'.operand ho'
    exact {
      recorded := type_eq_of_rewrites hv hs hf ha operand operand' hc.2 hc'.2 (hy.operand ho'')
      final := hf _ operand
      scalar := (hs.typed operand).answer_eq_scalar_iff
      scalar' := (hs.typed operand').answer_eq_scalar_iff }
termination_by e.size

end OperatorTemplate
