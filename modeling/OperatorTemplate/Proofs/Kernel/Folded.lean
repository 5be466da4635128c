import OperatorTemplate.Proofs.Kernel.Components
import OperatorTemplate.Proofs.Kernel.Fields
/-!
# Folded kernels

A kernel is *folded* if no node in it has anything left to fold (`KernelOver.IsFolded`): zero terms
and zero or unit factors are gone, sums and products have two operands at least, no numerator is zero,
and no conditional has two zero branches.

Folding a node can lay bare something to fold in the node above it, a zero or a single operand.  This
does no harm, for a node is put together after its operands, and the folding constructors only ask
that the operands are folded: what they drop, collapse or hand up leaves a folded kernel
(`isFolded_refold`).  So a substitution folds, whatever the kernel was before
(`isFolded_substitute`).  And at a node with nothing to fold they do nothing (`refold_eq_self`), so
the folded kernels are the ones that a substitution without replacements returns as they are
(`substitute_none_eq_self_iff`).
-/

namespace OperatorTemplate.KernelOver

variable {ι κ : Type} {k : KernelOver ι}

/-! ## Nothing left to fold -/

/-- Nothing is left to fold at the root of a kernel. -/
def RootFolded : KernelOver ι → Prop
  | .sum ks => 2 ≤ ks.length ∧ ∀ k ∈ ks, k.isZero = false
  | .product ks => 2 ≤ ks.length ∧ ∀ k ∈ ks, k.isZero = false ∧ k.isOne = false
  | .quotient a _ => a.isZero = false
  | .conditional _ a b => ¬(a.isZero = true ∧ b.isZero = true)
  | _ => True

/-- Nothing is left to fold anywhere in a kernel. -/
inductive IsFolded : KernelOver ι → Prop
  | node {k : KernelOver ι} (root : k.RootFolded) (operands : ∀ l ∈ k.operands, IsFolded l) :
    IsFolded k

/-- A kernel is folded exactly if its root is and all its operands are. -/
theorem isFolded_iff : k.IsFolded ↔ k.RootFolded ∧ ∀ l ∈ k.operands, l.IsFolded :=
  ⟨fun | .node root operands => ⟨root, operands⟩, fun h => .node h.1 h.2⟩

theorem isFolded_zero : (zero : KernelOver ι).IsFolded := .node trivial nofun

theorem isFolded_one : (one : KernelOver ι).IsFolded := .node trivial nofun

/-! ## Folding constructors -/

/-- The folded sum of folded terms is folded: the terms that are left are folded and not zero, and
if there is one, it stands for itself. -/
theorem isFolded_sumOf {ks : List (KernelOver ι)} (h : ∀ k ∈ ks, k.IsFolded) :
    (sumOf ks).IsFolded := by
  have kept : ∀ k ∈ ks.filter (!·.isZero), k.IsFolded ∧ k.isZero = false := by
    intro k hk
    obtain ⟨hk, hz⟩ := List.mem_filter.mp hk
    exact ⟨h k hk, by simpa using hz⟩
  rw [sumOf]
  generalize ks.filter _ = terms at kept
  rcases terms with _ | ⟨k, _ | ⟨k', rest⟩⟩
  · exact isFolded_zero
  · exact (kept k List.mem_cons_self).1
  · exact .node ⟨by simp, fun l hl => (kept l hl).2⟩ fun l hl => (kept l hl).1

/-- The folded product of folded factors is folded: without a zero factor, what is left is neither
zero nor one. -/
theorem isFolded_productOf {ks : List (KernelOver ι)} (h : ∀ k ∈ ks, k.IsFolded) :
    (productOf ks).IsFolded := by
  rw [productOf]
  split
  next => exact isFolded_zero
  next nonzero =>
    -- no factor is zero, for else the product is
    have kept : ∀ k ∈ ks.filter (!·.isOne), k.IsFolded ∧ k.isZero = false ∧ k.isOne = false := by
      intro k hk
      obtain ⟨hk, ho⟩ := List.mem_filter.mp hk
      refine ⟨h k hk, ?_, by simpa using ho⟩
      rw [← Bool.not_eq_true]
      exact fun hz => nonzero (List.any_eq_true.mpr ⟨k, hk, hz⟩)
    generalize ks.filter _ = factors at kept
    rcases factors with _ | ⟨k, _ | ⟨k', rest⟩⟩
    · exact isFolded_one
    · exact (kept k List.mem_cons_self).1
    · exact .node ⟨by simp, fun l hl => (kept l hl).2⟩ fun l hl => (kept l hl).1

/-- The folded quotient of folded operands is folded. -/
theorem isFolded_quotientOf {a b : KernelOver ι} (ha : a.IsFolded) (hb : b.IsFolded) :
    (quotientOf a b).IsFolded := by
  rw [quotientOf]
  split
  next => exact isFolded_zero
  next nonzero =>
    have root : (KernelOver.quotient a b).RootFolded := Bool.eq_false_iff.mpr nonzero
    refine .node root fun l hl => ?_
    simp only [operands, List.mem_cons, List.not_mem_nil, or_false] at hl
    rcases hl with rfl | rfl
    · exact ha
    · exact hb

/-- The folded conditional of folded operands is folded. -/
theorem isFolded_conditionalOf {c a b : KernelOver ι} (hc : c.IsFolded) (ha : a.IsFolded)
    (hb : b.IsFolded) : (conditionalOf c a b).IsFolded := by
  rw [conditionalOf]
  split
  next => exact isFolded_zero
  next nonzero =>
    refine .node (fun hz => nonzero (Bool.and_eq_true_iff.mpr hz)) fun l hl => ?_
    simp only [operands, List.mem_cons, List.not_mem_nil, or_false] at hl
    rcases hl with rfl | rfl | rfl
    · exact hc
    · exact ha
    · exact hb

/-- A node that is put together anew from folded operands `f l` is folded. -/
theorem isFolded_refold {f : KernelOver ι → KernelOver ι} (h : ∀ l ∈ k.operands, (f l).IsFolded) :
    (k.refold f).IsFolded := by
  cases k with
  | component _ _ | normal _ | constant _ | parameter _ => exact .node trivial nofun
  | sum ks => exact isFolded_sumOf (List.forall_mem_map.mpr h)
  | product ks => exact isFolded_productOf (List.forall_mem_map.mpr h)
  | quotient a b => exact isFolded_quotientOf (h a (by simp [operands])) (h b (by simp [operands]))
  | conditional c a b =>
    exact isFolded_conditionalOf (h c (by simp [operands])) (h a (by simp [operands]))
      (h b (by simp [operands]))
  | power a b | comparison a _ b =>
    refine .node trivial fun l hl => ?_
    simp only [refold, operands, List.mem_cons, List.not_mem_nil, or_false] at hl
    rcases hl with rfl | rfl
    · exact h a (by simp [operands])
    · exact h b (by simp [operands])
  | call _ ks => exact .node trivial (List.forall_mem_map.mpr h)

/-! ## Substitution -/

variable {replace : KernelOver ι → Option (KernelOver ι)}

/-- A substitution whose replacements are folded gives a folded kernel, whatever the kernel was
before. -/
theorem isFolded_substitute (h : ∀ k k', replace k = some k' → k'.IsFolded) (k : KernelOver ι) :
    (k.substitute replace).IsFolded := by
  induction k using induction_on_operands with | h k ih => ?_
  cases hk : replace k with
  | some k' =>
    -- the whole kernel is replaced
    rw [substitute_of_some hk]
    exact h k k' hk
  | none =>
    rw [substitute_of_none hk]
    exact isFolded_refold ih

/-- A sum of two terms or more, none of them zero, is not changed by folding. -/
theorem sumOf_eq_sum {ks : List (KernelOver ι)} (h : (KernelOver.sum ks).RootFolded) :
    sumOf ks = .sum ks := by
  obtain ⟨two, nonzero⟩ := h
  have kept : ks.filter (!·.isZero) = ks :=
    List.filter_eq_self.mpr fun k hk => by simp [nonzero k hk]
  rw [sumOf, kept]
  rcases ks with _ | ⟨k, _ | ⟨k', rest⟩⟩
  · simp at two
  · simp at two
  · rfl

/-- A product of two factors or more, none of them zero or one, is not changed by folding. -/
theorem productOf_eq_product {ks : List (KernelOver ι)} (h : (KernelOver.product ks).RootFolded) :
    productOf ks = .product ks := by
  obtain ⟨two, plain⟩ := h
  have nonzero : ks.any isZero = false := by
    rw [List.any_eq_false]
    exact fun k hk => by simp [(plain k hk).1]
  have kept : ks.filter (!·.isOne) = ks :=
    List.filter_eq_self.mpr fun k hk => by simp [(plain k hk).2]
  rw [productOf, nonzero, if_neg Bool.false_ne_true, kept]
  rcases ks with _ | ⟨k, _ | ⟨k', rest⟩⟩
  · simp at two
  · simp at two
  · rfl

/-- A node with nothing to fold, of which `f` leaves all operands as they are, is put together as it
was. -/
theorem refold_eq_self {f : KernelOver ι → KernelOver ι} (hr : k.RootFolded)
    (hf : ∀ l ∈ k.operands, f l = l) : k.refold f = k := by
  have same (ks : List (KernelOver ι)) (hks : ∀ l ∈ ks, f l = l) : ks.map f = ks :=
    (List.map_congr_left hks).trans (List.map_id ks)
  cases k with
  | component _ _ | normal _ | constant _ | parameter _ => rfl
  | sum ks => rw [refold, same ks hf, sumOf_eq_sum hr]
  | product ks => rw [refold, same ks hf, productOf_eq_product hr]
  | call _ ks => rw [refold, same ks hf]
  | quotient a b =>
    change a.isZero = false at hr
    rw [refold, hf a (by simp [operands]), hf b (by simp [operands]), quotientOf, hr,
      if_neg Bool.false_ne_true]
  | power a b | comparison a _ b =>
    rw [refold, hf a (by simp [operands]), hf b (by simp [operands])]
  | conditional c a b =>
    rw [refold, hf c (by simp [operands]), hf a (by simp [operands]), hf b (by simp [operands]),
      conditionalOf, if_neg fun hz => hr (Bool.and_eq_true_iff.mp hz)]

/-- A substitution without replacements returns `k` as it is exactly if `k` is folded.  So being
folded is the same as being a result of folding. -/
theorem substitute_none_eq_self_iff : k.substitute (fun _ => none) = k ↔ k.IsFolded := by
  constructor
  · intro h
    have nothing (l l' : KernelOver ι) (hl : (none : Option (KernelOver ι)) = some l') :
        l'.IsFolded := nomatch hl
    rw [← h]
    exact isFolded_substitute nothing k
  · intro h
    induction h with
    | node root _ ih =>
      rw [substitute_of_none rfl]
      exact refold_eq_self root ih

/-! ## Names -/

variable {f : Side → ι → κ}

theorem operands_mapFields (k : KernelOver ι) :
    (k.mapFields f).operands = k.operands.map (mapFields f) := by
  cases k with
  | sum ks | product ks | call _ ks => exact mapFieldsAll_eq_map ks
  | _ => rfl

/-- Whether there is something to fold at the root is no matter of names. -/
theorem rootFolded_mapFields : (k.mapFields f).RootFolded ↔ k.RootFolded := by
  cases k with
  | sum ks =>
    simp only [mapFields, RootFolded, mapFieldsAll_eq_map, List.length_map, List.forall_mem_map,
      isZero_mapFields]
  | product ks =>
    simp only [mapFields, RootFolded, mapFieldsAll_eq_map, List.length_map, List.forall_mem_map,
      isZero_mapFields, isOne_mapFields]
  | quotient a b => simp only [mapFields, RootFolded, isZero_mapFields]
  | conditional c a b => simp only [mapFields, RootFolded, isZero_mapFields]
  | _ => exact Iff.rfl

/-- Whether a kernel is folded is no matter of names. -/
theorem isFolded_mapFields (k : KernelOver ι) : (k.mapFields f).IsFolded ↔ k.IsFolded := by
  induction k using induction_on_operands with | h k ih => ?_
  rw [isFolded_iff, isFolded_iff, rootFolded_mapFields, operands_mapFields, List.forall_mem_map]
  exact and_congr_right fun _ => forall₂_congr ih

end OperatorTemplate.KernelOver
