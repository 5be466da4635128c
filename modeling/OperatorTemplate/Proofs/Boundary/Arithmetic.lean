import OperatorTemplate.Proofs.Boundary.Inlined
import OperatorTemplate.Proofs.Kernel.Components
/-!
# Translation of arithmetic

All arithmetic is translated in one way: the operands from left to right, and then the node from
their kernels (`Expr.assemble`).  This is said once with a state and once without
(`Translate.expr_of_isArithmetic`, `Expr.kernel_of_isArithmetic`).  So what is proved of
translations needs one case for arithmetic, with lists of operands in place of the single ones.

What such a node reads, its operands read, unless the node folds to a literal zero
(`Expr.mem_components_assemble`).

Beside arithmetic a translation looks into common subexpressions that cost nothing, and into nothing
else (`isTransparent_iff`).
-/

namespace OperatorTemplate

variable {ι : Type} {c : Side × ι} {e : Expr} {tag : BoundaryTag}

namespace Expr

/-- The kernel of an arithmetic node, put together from the kernels of its operands. -/
def assemble : Expr → List (KernelOver ι) → KernelOver ι
  | .sum _, ks => .sumOf ks
  | .product _, ks => .productOf ks
  | .quotient _ _, [a, b] => .quotientOf a b
  | .power _ _, [a, b] => .power a b
  | .comparison _ r _, [a, b] => .comparison a r b
  | .conditional _ _ _, [c, a, b] => .conditionalOf c a b
  | .ifPositive _ _ _, [c, a, b] => .conditionalOf (.comparison c .gt .zero) a b
  | .call f _, ks => .call f ks
  | _, _ => .zero

/-- What a translation looks into is arithmetic, or a common subexpression whose body costs nothing.
-/
theorem isTransparent_iff : e.IsTransparent
    ↔ e.IsArithmetic ∨ ∃ body label, e = .shared body label ∧ body.cost = .ok false := by
  constructor
  · intro h
    cases e with
    | shared body label => exact .inr ⟨body, label, rfl, h⟩
    | atom _ | subscript _ _ | exchange _ _ _ | apply _ _ | pair _ _ _ | array _
    | domainFlux _ _ => exact h.elim
    | _ => exact .inl (by constructor)
  · rintro (h | ⟨body, label, rfl, h⟩)
    · cases h <;> trivial
    · exact h

/-- The kernel of arithmetic is put together from the kernels of its operands. -/
theorem kernel_of_isArithmetic (he : e.IsArithmetic) :
    e.kernel tag = (do return e.assemble (← kernels tag e.children)) := by
  cases he with
  | sum _ | product _ | call _ _ => rfl
  | _ => simp [kernel, kernels, assemble, children]

/-- Arithmetic reads what its operands read, unless it is a literal zero.  One case for each folding
constructor. -/
theorem mem_components_assemble (he : e.IsArithmetic) {ls : List (KernelOver ι)}
    (hl : ls.length = e.children.length) :
    c ∈ (e.assemble ls).components
      ↔ (e.assemble ls).isZero = false ∧ ∃ l ∈ ls, c ∈ l.components := by
  have nonzero {l : KernelOver ι} : c ∈ l.components ↔ l.isZero = false ∧ c ∈ l.components :=
    ⟨fun h => ⟨KernelOver.isZero_of_mem_components h, h⟩, And.right⟩
  -- a constructor that does not fold to zero reads its operands, and then is not zero
  cases he with
  | sum es => rw [nonzero, assemble, KernelOver.mem_components_sumOf, KernelOver.mem_componentsAll]
  | product es => rw [assemble, KernelOver.mem_components_productOf, KernelOver.mem_componentsAll]
  | call _ es => rw [nonzero, assemble, KernelOver.components, KernelOver.mem_componentsAll]
  | quotient a b =>
    obtain ⟨la, lb, rfl⟩ := List.length_eq_two.mp hl
    rw [assemble, KernelOver.mem_components_quotientOf]
    simp
  | power a b | comparison a _ b =>
    obtain ⟨la, lb, rfl⟩ := List.length_eq_two.mp hl
    rw [nonzero, assemble, KernelOver.components, List.mem_append]
    simp
  | conditional z a b =>
    obtain ⟨lz, la, lb, rfl⟩ := List.length_eq_three.mp hl
    rw [assemble, KernelOver.mem_components_conditionalOf]
    simp
  | ifPositive z a b =>
    obtain ⟨lz, la, lb, rfl⟩ := List.length_eq_three.mp hl
    rw [assemble, KernelOver.mem_components_conditionalOf]
    simp [KernelOver.components, KernelOver.zero]

end Expr

namespace Translate

/-- The translation of arithmetic is that of its operands, in order, and then the node. -/
theorem expr_of_isArithmetic (he : e.IsArithmetic) :
    expr tag e = (do return e.assemble (← all tag e.children)) := by
  cases he with
  | sum _ | product _ | call _ _ => rfl
  | _ => simp [expr, all, Expr.assemble, Expr.children]

/-- The translation of `es ++ ds` is that of `es` and then that of `ds`. -/
theorem all_append (es ds : List Expr) :
    all tag (es ++ ds) = (do return (← all tag es) ++ (← all tag ds)) := by
  induction es with
  | nil => simp [all]
  | cons e es ih => simp [all, ih]

end Translate

end OperatorTemplate
