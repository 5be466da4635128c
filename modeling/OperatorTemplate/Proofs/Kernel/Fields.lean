import OperatorTemplate.Proofs.Kernel.Value
/-!
# Naming the fields of a kernel

A kernel can be read with other names for its fields: `k.mapFields f` reads `f side i` wherever `k`
reads `i` on `side`.  This connects the kernels of a template, which read fields by position, with
kernels that read the expressions listed at these positions.

Names do not matter to the folding constructors, for these look only at literals: renaming before
and after folding is the same (`mapFields_sumOf` and so on).  A renaming matters only at the fields
that the kernel reads (`mapFields_congr`), and in a kernel that is renamed to look like another each
field has a counterpart there (`exists_of_mapFields_eq`).

Last, a renamed kernel has the value of the old one at the face that shows the new fields under the
old names (`value_mapFields`).  So two kernels that look the same after renaming have equal values.
-/

namespace OperatorTemplate.KernelOver

universe u

variable {ι κ ν : Type}

/-! ## Renaming -/

mutual
/-- The kernel that reads `f side i` wherever the old one reads `i` on `side`. -/
def mapFields (f : Side → ι → κ) : KernelOver ι → KernelOver κ
  | .component side i => .component side (f side i)
  | .normal axis => .normal axis
  | .constant v => .constant v
  | .parameter name => .parameter name
  | .sum ks => .sum (mapFieldsAll f ks)
  | .product ks => .product (mapFieldsAll f ks)
  | .quotient a b => .quotient (mapFields f a) (mapFields f b)
  | .power a b => .power (mapFields f a) (mapFields f b)
  | .comparison a r b => .comparison (mapFields f a) r (mapFields f b)
  | .conditional c a b => .conditional (mapFields f c) (mapFields f a) (mapFields f b)
  | .call name ks => .call name (mapFieldsAll f ks)

/-- The same for several kernels. -/
def mapFieldsAll (f : Side → ι → κ) : List (KernelOver ι) → List (KernelOver κ)
  | [] => []
  | k :: ks => mapFields f k :: mapFieldsAll f ks
end

variable {f : Side → ι → κ}

theorem mapFieldsAll_eq_map (ks : List (KernelOver ι)) :
    mapFieldsAll f ks = ks.map (mapFields f) := by
  induction ks with
  | nil => rfl
  | cons k ks ih => rw [mapFieldsAll, ih, List.map_cons]

/-- A literal zero is one whatever the fields are called. -/
theorem isZero_mapFields (k : KernelOver ι) : (k.mapFields f).isZero = k.isZero := by
  cases k <;> rfl

theorem isOne_mapFields (k : KernelOver ι) : (k.mapFields f).isOne = k.isOne := by
  cases k <;> rfl

/-! ## Renaming and folding -/

/-- The folded sum of renamed terms is the renamed folded sum. -/
theorem mapFields_sumOf (ks : List (KernelOver ι)) :
    (sumOf ks).mapFields f = sumOf (ks.map (mapFields f)) := by
  -- the same terms are left, for being zero is no matter of names
  have kept : (ks.map (mapFields f)).filter (!·.isZero)
      = (ks.filter (!·.isZero)).map (mapFields f) := by
    rw [List.filter_map]
    congr 2
    funext k
    exact congrArg (! ·) (isZero_mapFields k)
  rw [sumOf, sumOf, kept]
  generalize ks.filter _ = terms
  rcases terms with _ | ⟨k, _ | ⟨k', rest⟩⟩
  · rfl
  · rfl
  · show mapFields f (.sum (k :: k' :: rest)) = .sum ((k :: k' :: rest).map (mapFields f))
    rw [mapFields, mapFieldsAll_eq_map]

/-- The folded product of renamed factors is the renamed folded product. -/
theorem mapFields_productOf (ks : List (KernelOver ι)) :
    (productOf ks).mapFields f = productOf (ks.map (mapFields f)) := by
  -- the same factors are zero, and the same are one
  have zeros : (ks.map (mapFields f)).any isZero = ks.any isZero := by
    rw [List.any_map]
    congr 1
    funext k
    exact isZero_mapFields k
  have kept : (ks.map (mapFields f)).filter (!·.isOne)
      = (ks.filter (!·.isOne)).map (mapFields f) := by
    rw [List.filter_map]
    congr 2
    funext k
    exact congrArg (! ·) (isOne_mapFields k)
  rw [productOf, productOf, zeros, kept]
  by_cases hz : ks.any isZero = true
  · rw [if_pos hz, if_pos hz]
    rfl
  · rw [if_neg hz, if_neg hz]
    generalize ks.filter _ = factors
    rcases factors with _ | ⟨k, _ | ⟨k', rest⟩⟩
    · rfl
    · rfl
    · show mapFields f (.product (k :: k' :: rest)) = .product ((k :: k' :: rest).map (mapFields f))
      rw [mapFields, mapFieldsAll_eq_map]

/-- The same of quotients. -/
theorem mapFields_quotientOf (a b : KernelOver ι) :
    (quotientOf a b).mapFields f = quotientOf (a.mapFields f) (b.mapFields f) := by
  rw [quotientOf, quotientOf, isZero_mapFields]
  split <;> rfl

/-- The same of conditionals. -/
theorem mapFields_conditionalOf (c a b : KernelOver ι) :
    (conditionalOf c a b).mapFields f
      = conditionalOf (c.mapFields f) (a.mapFields f) (b.mapFields f) := by
  rw [conditionalOf, conditionalOf, isZero_mapFields, isZero_mapFields]
  split <;> rfl

/-! ## The fields that a kernel reads -/

mutual
/-- The renamed kernel reads the new names of what the kernel reads, from left to right. -/
theorem components_mapFields : (k : KernelOver ι) →
    (k.mapFields f).components = k.components.map fun c => (c.1, f c.1 c.2)
  | .component _ _ | .normal _ | .constant _ | .parameter _ => rfl
  | .sum ks | .product ks | .call _ ks => componentsAll_mapFields ks
  | .quotient a b | .power a b | .comparison a _ b => by
    rw [mapFields, components, components, components_mapFields a, components_mapFields b,
      List.map_append]
  | .conditional c a b => by
    rw [mapFields, components, components, components_mapFields c, components_mapFields a,
      components_mapFields b, List.map_append, List.map_append]

theorem componentsAll_mapFields : (ks : List (KernelOver ι)) →
    componentsAll (mapFieldsAll f ks) = (componentsAll ks).map fun c => (c.1, f c.1 c.2)
  | [] => rfl
  | k :: ks => by
    rw [mapFieldsAll, componentsAll, componentsAll, components_mapFields k,
      componentsAll_mapFields ks, List.map_append]
end

mutual
/-- Two renamings `f` and `g` that agree on the fields that `k` reads make the same kernel of it. -/
theorem mapFields_congr {g : Side → ι → κ} : (k : KernelOver ι) →
    (∀ c ∈ k.components, f c.1 c.2 = g c.1 c.2) → k.mapFields f = k.mapFields g
  | .component side i, h => by rw [mapFields, mapFields, h (side, i) List.mem_cons_self]
  | .normal _, _ | .constant _, _ | .parameter _, _ => rfl
  | .sum ks, h | .product ks, h | .call _ ks, h => by
    rw [mapFields, mapFields, mapFieldsAll_congr ks h]
  | .quotient a b, h | .power a b, h | .comparison a _ b, h => by
    rw [mapFields, mapFields, mapFields_congr a fun c hc => h c (List.mem_append_left _ hc),
      mapFields_congr b fun c hc => h c (List.mem_append_right _ hc)]
  | .conditional c a b, h => by
    rw [mapFields, mapFields,
      mapFields_congr c fun x hx => h x (List.mem_append_left _ (List.mem_append_left _ hx)),
      mapFields_congr a fun x hx => h x (List.mem_append_left _ (List.mem_append_right _ hx)),
      mapFields_congr b fun x hx => h x (List.mem_append_right _ hx)]

theorem mapFieldsAll_congr {g : Side → ι → κ} : (ks : List (KernelOver ι)) →
    (∀ c ∈ componentsAll ks, f c.1 c.2 = g c.1 c.2) → mapFieldsAll f ks = mapFieldsAll g ks
  | [], _ => rfl
  | k :: ks, h => by
    rw [mapFieldsAll, mapFieldsAll, mapFields_congr k fun c hc => h c (List.mem_append_left _ hc),
      mapFieldsAll_congr ks fun c hc => h c (List.mem_append_right _ hc)]
end

/-- If `k` and `l` look the same after renaming, by `f` and `g`, then each field of `k` has a
counterpart that `l` reads on the same side, and both have the same new name. -/
theorem exists_of_mapFields_eq {g : Side → ν → κ} {k : KernelOver ι} {l : KernelOver ν}
    (h : k.mapFields f = l.mapFields g) {c : Side × ι} (hc : c ∈ k.components) :
    ∃ i, (c.1, i) ∈ l.components ∧ f c.1 c.2 = g c.1 i := by
  -- the new name of `c` is read by both renamed kernels
  have : (c.1, f c.1 c.2) ∈ (k.mapFields f).components := by
    rw [components_mapFields]
    exact List.mem_map.mpr ⟨c, hc, rfl⟩
  rw [h, components_mapFields] at this
  obtain ⟨d, hd, hdc⟩ := List.mem_map.mp this
  obtain ⟨hside, hname⟩ := Prod.mk.inj hdc
  refine ⟨d.2, ?_, ?_⟩
  · rw [← hside]
    exact hd
  · rw [← hname, hside]

/-! ## Renaming and values -/

variable {K : Type u} [Field K] {reading : KernelReading K}

mutual
/-- A renamed kernel has the value of the old one at the face that shows the new fields under the
old names. -/
theorem value_mapFields {face : FaceData κ K} : (k : KernelOver ι) →
    (k.mapFields f).value reading face
      = k.value reading ⟨fun side i => face.field side (f side i), face.normal⟩
  | .component _ _ | .normal _ | .constant _ | .parameter _ => rfl
  | .sum ks | .product ks | .call _ ks => by
    rw [mapFields, value, value, valueAll_mapFields ks]
  | .quotient a b | .power a b | .comparison a _ b => by
    rw [mapFields, value, value, value_mapFields a, value_mapFields b]
  | .conditional c a b => by
    rw [mapFields, value, value, value_mapFields c, value_mapFields a, value_mapFields b]

theorem valueAll_mapFields {face : FaceData κ K} : (ks : List (KernelOver ι)) →
    valueAll reading face (mapFieldsAll f ks)
      = valueAll reading ⟨fun side i => face.field side (f side i), face.normal⟩ ks
  | [] => rfl
  | k :: ks => by
    rw [mapFieldsAll, valueAll, valueAll, value_mapFields k, valueAll_mapFields ks]
end

end OperatorTemplate.KernelOver
