import OperatorTemplate.Proofs.Kernel.Value
/-!
# What a kernel reads after a substitution

A folding constructor reads what its operands read, or else it gives a literal zero and reads
nothing (`mem_components_refold`).  So two things are to be known of a substitution: which nodes
become zero, and which fields are read beneath none of them.

Let `zero` say for which fields a literal zero is put.  A node *vanishes* by the operands it has
(`Vanishes`): a sum with all of its terms, a product with one of its factors, a quotient with its
numerator, a conditional with both branches.  A field *stands* in a kernel if it is read beneath
nothing that vanishes (`Stands`).

Where only fields are replaced, a kernel becomes a literal zero exactly if it vanishes
(`isZero_substitute_iff`), and what it reads is what was put for the fields that stand in it
(`mem_components_substitute_iff`).  In particular it comes from a field that was read before
(`exists_of_mem_components_substitute`); but not every field need leave a trace, for what vanishes
takes the fields beside it along.

Proofs about kernels here go by induction over the operands of a node (`induction_on_operands`),
with one case for each folding constructor.
-/

namespace OperatorTemplate.KernelOver

variable {ι : Type} {c : Side × ι} {k l : KernelOver ι}

/-- What several kernels read, one of them reads. -/
theorem mem_componentsAll {ks : List (KernelOver ι)} :
    c ∈ componentsAll ks ↔ ∃ k ∈ ks, c ∈ k.components := by
  induction ks with
  | nil => simp [componentsAll]
  | cons k ks ih => rw [componentsAll, List.mem_append, ih, List.exists_mem_cons_iff]

/-- What reads a field is no literal zero. -/
theorem isZero_of_mem_components (h : c ∈ k.components) : k.isZero = false := by
  cases k with
  | constant _ => nomatch h
  | _ => rfl

/-! ## Operands -/

/-- The operands of a node, from left to right. -/
def operands : KernelOver ι → List (KernelOver ι)
  | .sum ks | .product ks | .call _ ks => ks
  | .quotient a b | .power a b | .comparison a _ b => [a, b]
  | .conditional k a b => [k, a, b]
  | .component _ _ | .normal _ | .constant _ | .parameter _ => []

mutual
/-- What passes from the operands of every node to the node holds of all kernels. -/
theorem induction_on_operands {P : KernelOver ι → Prop}
    (h : ∀ k : KernelOver ι, (∀ l ∈ k.operands, P l) → P k) : (k : KernelOver ι) → P k
  | .component _ _ | .normal _ | .constant _ | .parameter _ => h _ nofun
  | .sum ks | .product ks | .call _ ks => h _ (induction_on_all_operands h ks)
  | .quotient a b | .power a b | .comparison a _ b =>
    h _ (List.forall_mem_cons.mpr ⟨induction_on_operands h a,
      List.forall_mem_cons.mpr ⟨induction_on_operands h b, nofun⟩⟩)
  | .conditional k a b =>
    h _ (List.forall_mem_cons.mpr ⟨induction_on_operands h k,
      List.forall_mem_cons.mpr ⟨induction_on_operands h a,
        List.forall_mem_cons.mpr ⟨induction_on_operands h b, nofun⟩⟩⟩)

/-- The same for several kernels. -/
theorem induction_on_all_operands {P : KernelOver ι → Prop}
    (h : ∀ k : KernelOver ι, (∀ l ∈ k.operands, P l) → P k) :
    (ks : List (KernelOver ι)) → ∀ k ∈ ks, P k
  | [] => nofun
  | k :: ks => List.forall_mem_cons.mpr
    ⟨induction_on_operands h k, induction_on_all_operands h ks⟩
end

/-! ## Folding constructors -/

/-- A folded sum is a literal zero exactly if all its terms are. -/
theorem isZero_sumOf {ks : List (KernelOver ι)} :
    (sumOf ks).isZero = true ↔ ∀ k ∈ ks, k.isZero = true := by
  have none_left : ks.filter (!·.isZero) = [] ↔ ∀ k ∈ ks, k.isZero = true := by
    simp [List.filter_eq_nil_iff]
  rw [← none_left, sumOf]
  split
  next h => exact ⟨fun _ => h, fun _ => rfl⟩
  next k h =>
    -- one term is left, which is not zero
    have kept : k ∈ ks.filter (!·.isZero) := h ▸ List.mem_cons_self
    have nonzero : (!k.isZero) = true := (List.mem_filter.mp kept).2
    rw [h]
    exact iff_of_false (by simpa using nonzero) (List.cons_ne_nil _ _)
  next hne _ => exact iff_of_false Bool.false_ne_true hne

/-- A folded product is a literal zero exactly if one of its factors is. -/
theorem isZero_productOf {ks : List (KernelOver ι)} :
    (productOf ks).isZero = true ↔ ∃ k ∈ ks, k.isZero = true := by
  rw [← List.any_eq_true, productOf]
  split
  next h => exact ⟨fun _ => h, fun _ => rfl⟩
  next h =>
    refine ⟨fun hz => absurd hz ?_, fun hz => absurd hz h⟩
    split
    next => exact Bool.false_ne_true
    next k kept =>
      -- no factor is zero, and the one that is left is a factor
      have mem : k ∈ ks.filter (!·.isOne) := kept ▸ List.mem_cons_self
      exact fun hz => h (List.any_eq_true.mpr ⟨k, List.mem_of_mem_filter mem, hz⟩)
    next => exact Bool.false_ne_true

/-- A folded quotient is a literal zero exactly if its numerator is. -/
theorem isZero_quotientOf {a b : KernelOver ι} :
    (quotientOf a b).isZero = true ↔ a.isZero = true := by
  rw [quotientOf]
  split
  next h => exact ⟨fun _ => h, fun _ => rfl⟩
  next h => exact iff_of_false Bool.false_ne_true h

/-- A folded conditional is a literal zero exactly if both branches are. -/
theorem isZero_conditionalOf {k a b : KernelOver ι} :
    (conditionalOf k a b).isZero = true ↔ a.isZero = true ∧ b.isZero = true := by
  rw [← Bool.and_eq_true_iff, conditionalOf]
  split
  next h => exact ⟨fun _ => h, fun _ => rfl⟩
  next h => exact iff_of_false Bool.false_ne_true h

/-- A folded sum reads what its terms read: a term that is dropped is a literal and reads nothing.
-/
theorem mem_components_sumOf {ks : List (KernelOver ι)} :
    c ∈ (sumOf ks).components ↔ c ∈ componentsAll ks := by
  have kept : c ∈ componentsAll ks ↔ c ∈ componentsAll (ks.filter (!·.isZero)) := by
    rw [mem_componentsAll, mem_componentsAll]
    constructor
    · rintro ⟨k, hk, hc⟩
      exact ⟨k, List.mem_filter.mpr ⟨hk, by simp [isZero_of_mem_components hc]⟩, hc⟩
    · rintro ⟨k, hk, hc⟩
      exact ⟨k, List.mem_of_mem_filter hk, hc⟩
  rw [kept, sumOf]
  split
  next h => rw [h]; rfl
  next k h => rw [h, componentsAll, componentsAll, List.append_nil]
  next => rfl

theorem isOne_of_mem_components (h : c ∈ k.components) : k.isOne = false := by
  cases k with
  | constant _ => nomatch h
  | _ => rfl

/-- A folded product reads what its factors read, unless it is a literal zero. -/
theorem mem_components_productOf {ks : List (KernelOver ι)} :
    c ∈ (productOf ks).components ↔ (productOf ks).isZero = false ∧ c ∈ componentsAll ks := by
  have kept : c ∈ componentsAll ks ↔ c ∈ componentsAll (ks.filter (!·.isOne)) := by
    rw [mem_componentsAll, mem_componentsAll]
    constructor
    · rintro ⟨k, hk, hc⟩
      exact ⟨k, List.mem_filter.mpr ⟨hk, by simp [isOne_of_mem_components hc]⟩, hc⟩
    · rintro ⟨k, hk, hc⟩
      exact ⟨k, List.mem_of_mem_filter hk, hc⟩
  by_cases hz : ks.any isZero = true
  · rw [productOf, if_pos hz]
    exact iff_of_false List.not_mem_nil fun h => Bool.noConfusion h.1
  · -- no factor is zero: what is dropped are ones, which read nothing
    have nonzero : (productOf ks).isZero = false := by
      rw [← Bool.not_eq_true, isZero_productOf, ← List.any_eq_true]
      exact hz
    rw [and_iff_right nonzero, kept, productOf, if_neg hz]
    split
    next h => rw [h]; rfl
    next k h => rw [h, componentsAll, componentsAll, List.append_nil]
    next => rfl

/-- A folded quotient reads what numerator and denominator read, unless it is a literal zero. -/
theorem mem_components_quotientOf {a b : KernelOver ι} :
    c ∈ (quotientOf a b).components
      ↔ (quotientOf a b).isZero = false ∧ (c ∈ a.components ∨ c ∈ b.components) := by
  rw [quotientOf]
  split
  next => exact iff_of_false List.not_mem_nil fun h => Bool.noConfusion h.1
  next => exact List.mem_append.trans (and_iff_right rfl).symm

/-- A folded conditional reads what condition and branches read, unless it is a literal zero. -/
theorem mem_components_conditionalOf {k a b : KernelOver ι} :
    c ∈ (conditionalOf k a b).components
      ↔ (conditionalOf k a b).isZero = false
        ∧ (c ∈ k.components ∨ c ∈ a.components ∨ c ∈ b.components) := by
  rw [conditionalOf]
  split
  next => exact iff_of_false List.not_mem_nil fun h => Bool.noConfusion h.1
  next =>
    rw [components, List.mem_append, List.mem_append, or_assoc]
    exact (and_iff_right rfl).symm

/-- A node `k` that is put together anew from `f` of its operands reads what these read, unless it
is a literal zero. -/
theorem mem_components_refold (f : KernelOver ι → KernelOver ι)
    (hk : ∀ side i, k ≠ .component side i) :
    c ∈ (refold f k).components
      ↔ (refold f k).isZero = false ∧ ∃ l ∈ k.operands, c ∈ (f l).components := by
  have nonzero {m : KernelOver ι} : c ∈ m.components ↔ m.isZero = false ∧ c ∈ m.components :=
    ⟨fun h => ⟨isZero_of_mem_components h, h⟩, And.right⟩
  cases k with
  | component side i => exact absurd rfl (hk side i)
  | normal _ | constant _ | parameter _ => exact ⟨nofun, fun h => by simp [operands] at h⟩
  | sum ks =>
    rw [nonzero, refold, mem_components_sumOf, mem_componentsAll]
    simp [operands]
  | product ks =>
    rw [refold, mem_components_productOf, mem_componentsAll]
    simp [operands]
  | call _ ks =>
    rw [nonzero, refold, components, mem_componentsAll]
    simp [operands]
  | quotient a b =>
    rw [refold, mem_components_quotientOf]
    simp [operands]
  | power a b | comparison a _ b =>
    rw [nonzero, refold, components, List.mem_append]
    simp [operands]
  | conditional k a b =>
    rw [refold, mem_components_conditionalOf]
    simp [operands]

theorem mem_components_of_mem_operands (hl : l ∈ k.operands) (hc : c ∈ l.components) :
    c ∈ k.components := by
  cases k with
  | sum ks | product ks | call _ ks => exact mem_componentsAll.mpr ⟨l, hl, hc⟩
  | quotient a b | power a b | comparison a _ b =>
    simp only [operands, List.mem_cons, List.not_mem_nil, or_false] at hl
    rcases hl with rfl | rfl
    · exact List.mem_append_left _ hc
    · exact List.mem_append_right _ hc
  | conditional k a b =>
    simp only [operands, List.mem_cons, List.not_mem_nil, or_false] at hl
    rcases hl with rfl | rfl | rfl
    · exact List.mem_append_left _ (List.mem_append_left _ hc)
    · exact List.mem_append_left _ (List.mem_append_right _ hc)
    · exact List.mem_append_right _ hc
  | _ => nomatch hl

/-! ## What is left after a substitution -/

/-- Nothing is left of a kernel once the fields in `zero` are. -/
inductive Vanishes (zero : Side × ι → Prop) : KernelOver ι → Prop
  | component {side : Side} {i : ι} (h : zero (side, i)) : Vanishes zero (.component side i)
  | constant {v : Literal} (h : v.isZero = true) : Vanishes zero (.constant v)
  | sum {ks : List (KernelOver ι)} (h : ∀ k ∈ ks, Vanishes zero k) : Vanishes zero (.sum ks)
  | product {ks : List (KernelOver ι)} {k : KernelOver ι} (hk : k ∈ ks) (h : Vanishes zero k) :
    Vanishes zero (.product ks)
  | quotient {a b : KernelOver ι} (h : Vanishes zero a) : Vanishes zero (.quotient a b)
  | conditional {k a b : KernelOver ι} (ha : Vanishes zero a) (hb : Vanishes zero b) :
    Vanishes zero (.conditional k a b)

/-- The field `c` is read beneath nothing that vanishes. -/
inductive Stands (zero : Side × ι → Prop) (c : Side × ι) : KernelOver ι → Prop
  | self : Stands zero c (.component c.1 c.2)
  | operand {k l : KernelOver ι} (hv : ¬Vanishes zero k) (hl : l ∈ k.operands)
    (h : Stands zero c l) : Stands zero c k

/-- A field that stands in a kernel is read by it. -/
theorem Stands.mem_components {zero : Side × ι → Prop} (h : Stands zero c k) :
    c ∈ k.components := by
  induction h with
  | self => exact List.mem_cons_self
  | operand _ hl _ ih => exact mem_components_of_mem_operands hl ih

variable {replace : KernelOver ι → Option (KernelOver ι)} {zero : Side × ι → Prop}

/-- A substitution of fields leaves a literal zero of what vanishes, and of nothing else.  Here
`zero` says exactly for which fields a literal zero is put (`hz`). -/
theorem isZero_substitute_iff (others : ReplacesFields replace)
    (hz : ∀ side i, ((component side i).substitute replace).isZero = true ↔ zero (side, i))
    (k : KernelOver ι) : (k.substitute replace).isZero = true ↔ k.Vanishes zero := by
  induction k using induction_on_operands with | h k ih => ?_
  cases k with
  | component side i =>
    rw [hz]
    exact ⟨.component, fun | .component h => h⟩
  | constant v =>
    rw [substitute_of_none (others _ (by simp))]
    exact ⟨.constant, fun | .constant h => h⟩
  | sum ks =>
    rw [substitute_of_none (others _ (by simp)), refold, isZero_sumOf, List.forall_mem_map]
    exact ⟨fun h => .sum fun k hk => (ih k hk).mp (h k hk),
      fun | .sum h => fun k hk => (ih k hk).mpr (h k hk)⟩
  | product ks =>
    rw [substitute_of_none (others _ (by simp)), refold, isZero_productOf]
    constructor
    · rintro ⟨_, hm, h⟩
      obtain ⟨k, hk, rfl⟩ := List.mem_map.mp hm
      exact .product hk ((ih k hk).mp h)
    · intro h
      cases h with
      | product hk h => exact ⟨_, List.mem_map_of_mem hk, (ih _ hk).mpr h⟩
  | quotient a b =>
    rw [substitute_of_none (others _ (by simp)), refold, isZero_quotientOf,
      ih a List.mem_cons_self]
    exact ⟨.quotient, fun | .quotient h => h⟩
  | conditional k a b =>
    rw [substitute_of_none (others _ (by simp)), refold, isZero_conditionalOf,
      ih a (by simp [operands]), ih b (by simp [operands])]
    exact ⟨fun h => .conditional h.1 h.2, fun | .conditional ha hb => ⟨ha, hb⟩⟩
  | normal _ | parameter _ | power _ _ | comparison _ _ _ | call _ _ =>
    -- these are never folded away
    rw [substitute_of_none (others _ (by simp))]
    exact ⟨nofun, nofun⟩

/-- After a substitution of fields, `c` is read exactly if it is read by what was put for some field
`d` that stands in `k`. -/
theorem mem_components_substitute_iff (others : ReplacesFields replace)
    (hz : ∀ side i, ((component side i).substitute replace).isZero = true ↔ zero (side, i))
    (k : KernelOver ι) : c ∈ (k.substitute replace).components
      ↔ ∃ d, k.Stands zero d ∧ c ∈ ((component d.1 d.2).substitute replace).components := by
  induction k using induction_on_operands with | h k ih => ?_
  by_cases hk : ∃ side i, k = .component side i
  · -- a single field stands in itself
    obtain ⟨side, i, rfl⟩ := hk
    constructor
    · exact fun h => ⟨(side, i), .self, h⟩
    · rintro ⟨d, hd, h⟩
      cases hd with
      | self => exact h
      | operand _ hl _ => nomatch hl
  · have hk (side : Side) (i : ι) : k ≠ .component side i := fun h => hk ⟨side, i, h⟩
    -- any other node is left unless it vanishes, and then its operands are read
    have left : (refold (substitute replace) k).isZero = false ↔ ¬Vanishes zero k := by
      rw [← isZero_substitute_iff others hz, substitute_of_none (others k hk), Bool.not_eq_true]
    rw [substitute_of_none (others k hk), mem_components_refold _ hk, left]
    constructor
    · rintro ⟨hv, l, hl, hc⟩
      obtain ⟨d, hd, hc⟩ := (ih l hl).mp hc
      exact ⟨d, .operand hv hl hd, hc⟩
    · rintro ⟨d, hd, hc⟩
      cases hd with
      | self => exact absurd rfl (hk _ _)
      | operand hv hl hd => exact ⟨hv, _, hl, (ih _ hl).mpr ⟨d, hd, hc⟩⟩

/-- `c` is read at the place of one of the fields `ds`, once they are substituted. -/
def ReadThrough (replace : KernelOver ι → Option (KernelOver ι)) (ds : List (Side × ι))
    (c : Side × ι) : Prop :=
  ∃ d ∈ ds, c ∈ ((component d.1 d.2).substitute replace).components

/-- What a kernel reads after a substitution is read at the place of one of its fields. -/
theorem exists_of_mem_components_substitute (others : ReplacesFields replace) (k : KernelOver ι)
    (h : c ∈ (k.substitute replace).components) : ReadThrough replace k.components c := by
  -- with `zero` for what is in fact put, the condition on `zero` holds by definition
  let zero (d : Side × ι) : Prop := ((component d.1 d.2).substitute replace).isZero = true
  have same (side : Side) (i : ι) :
    ((component side i).substitute replace).isZero = true ↔ zero (side, i) := Iff.rfl
  obtain ⟨d, hd, hc⟩ := (mem_components_substitute_iff others same k).mp h
  exact ⟨d, hd.mem_components, hc⟩

end OperatorTemplate.KernelOver
