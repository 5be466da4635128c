import OperatorTemplate.Proofs.Inference.Raise
import OperatorTemplate.Proofs.Inference.Soundness
/-!
# Types that the operands determine

Where types are final, the type of a node is a function of those of its operands, unless the node is
a leaf: a law that is not that of a leaf leaves no choice (`Law.own_unique`).  Two typings are
compared, in each of which the law holds, over operands that have the same final types.  What their
rules answer may differ, but it is scalar in the same places, and that is all that matters of it.

The laws differ in where the type comes from: from the law itself, from a vector operand, from the
only operand, or from the representation or the domain of that one.
-/

namespace OperatorTemplate

open FieldType

/-- Two readings of operands with the same final type, which answer that they are scalar exactly if
they are. -/
structure Reading.Same (o o' : Reading) : Prop where
  recorded : o.recorded = o'.recorded
  final : o.recorded.isFinal = true
  scalar : o.answered = .scalar ↔ o.recorded = .scalar
  scalar' : o'.answered = .scalar ↔ o'.recorded = .scalar

/-- The law is not that of a leaf, and if it gives a type, this type is final. -/
def Law.isDetermined : Law → Prop
  | .leaf _ => False
  | .given t => t.isFinal = true
  | _ => True

namespace Law

variable {law : Law} {own own' : FieldType} {operands operands' : List Reading}

/-- In arithmetic with a final type, an operand that is not scalar has the type of the node. -/
theorem eq_of_vector (h : Law.arithmetic.Holds own operands) (hf : own.isFinal = true) {o : Reading}
    (ho : o ∈ operands) (hs : o.answered = .scalar ↔ o.recorded = .scalar)
    (hv : o.recorded ≠ .scalar) : o.recorded = own :=
  eq_of_isFinal_of_le hf (h.2 o ho (mt hs.mp hv)).2

/-- Let a law that is not that of a leaf hold of two typings with final types, over operands that
have the same types.  Then the node has the same type in both. -/
theorem own_unique (hl : law.isDetermined) (hu : law.isUnary = true → ∃ o, operands = [o])
    (h : law.Holds own operands) (h' : law.Holds own' operands') (hf : own.isFinal = true)
    (hf' : own'.isFinal = true) (hops : List.Forall₂ Reading.Same operands operands') :
    own = own' := by
  cases law with
  | leaf _ => exact hl.elim
  | illegal => exact h.elim
  | given t => rw [eq_of_isFinal_of_le hl h, eq_of_isFinal_of_le hl h']
  | flux => rw [eq_of_isFinal_of_le rfl h.1, eq_of_isFinal_of_le rfl h'.1]
  | arithmetic =>
    -- arithmetic on scalars is scalar; else a vector has the type of the node, on both sides
    by_cases hs : ∀ o ∈ operands, o.recorded = .scalar
    · have scalar : .scalar ≤ own := h.1 fun o ho => by
        obtain ⟨o', -, same⟩ := exists_right_of_forall₂ hops ho
        exact same.scalar.mpr (hs o ho)
      have scalar' : .scalar ≤ own' := h'.1 fun o' ho' => by
        obtain ⟨o, ho, same⟩ := exists_left_of_forall₂ hops ho'
        exact same.scalar'.mpr (same.recorded ▸ hs o ho)
      rw [eq_of_isFinal_of_le rfl scalar, eq_of_isFinal_of_le rfl scalar']
    · obtain ⟨o, ho, hv⟩ : ∃ o ∈ operands, o.recorded ≠ .scalar := by simpa using hs
      obtain ⟨o', ho', same⟩ := exists_right_of_forall₂ hops ho
      rw [← eq_of_vector h hf ho same.scalar hv, same.recorded]
      exact eq_of_vector h' hf' ho' same.scalar' (same.recorded ▸ hv)
  | same =>
    obtain ⟨o, rfl⟩ := hu rfl
    obtain ⟨o', ho', same⟩ := exists_right_of_forall₂ hops List.mem_cons_self
    exact (h o List.mem_cons_self).symm.trans (same.recorded.trans (h' o' ho'))
  | maximum =>
    obtain ⟨o, rfl⟩ := hu rfl
    obtain ⟨o', ho', same⟩ := exists_right_of_forall₂ hops List.mem_cons_self
    rw [← eq_of_isFinal_of_le hf (h o List.mem_cons_self).1, same.recorded]
    exact eq_of_isFinal_of_le hf' (h' o' ho').1
  | restrict tag =>
    obtain ⟨o, rfl⟩ := hu rfl
    obtain ⟨o', ho', same⟩ := exists_right_of_forall₂ hops List.mem_cons_self
    -- both types live on the boundary, and have the representation of the operand
    obtain ⟨r, rfl⟩ := exists_boundary_of_le h.1 hf
    obtain ⟨r', rfl⟩ := exists_boundary_of_le h'.1 hf'
    have known : o.recorded.representation? = some r :=
      representation?_eq_iff.mpr (h.2 o List.mem_cons_self).1
    have known' : o'.recorded.representation? = some r' :=
      representation?_eq_iff.mpr (h'.2 o' ho').1
    rw [same.recorded, known'] at known
    cases known
    rfl
  | upsample grid =>
    obtain ⟨o, rfl⟩ := hu rfl
    obtain ⟨o', ho', same⟩ := exists_right_of_forall₂ hops List.mem_cons_self
    -- both types are on the grid, and have the domain of the operand
    obtain ⟨down, up⟩ := h.2 o List.mem_cons_self
    obtain ⟨down', up'⟩ := h'.2 o' ho'
    rw [eq_upsampled h.1 hf same.final down up, same.recorded]
    exact (eq_upsampled h'.1 hf' (same.recorded ▸ same.final) down' up').symm

end Law

namespace Expr

/-- All nodes but leaves obey a law that leaves no choice. -/
theorem isDetermined_law {e : Expr} (ha : ∀ a, e ≠ .atom a) (hs : ∀ x index, e ≠ .subscript x index) :
    e.law.isDetermined := by
  cases e with
  | atom a => exact absurd rfl (ha a)
  | subscript x index => exact absurd rfl (hs x index)
  | apply op field =>
    cases op with
    | elementwiseMax | restrict _ | upsample _ | flux _ | exchange _ _ | external _ => trivial
    | _ => rfl
  | exchange _ _ _ => rfl
  | domainFlux interiors boundaries =>
    show (if boundaries.all isPair then Law.flux else Law.illegal).isDetermined
    split <;> trivial
  | _ => trivial

end Expr

end OperatorTemplate
