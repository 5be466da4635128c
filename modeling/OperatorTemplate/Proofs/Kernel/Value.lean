import Mathlib.Algebra.BigOperators.Ring.List
import Mathlib.Algebra.Field.Basic
import Mathlib.Algebra.Order.Field.Rat
import Mathlib.Tactic.NormNum
import OperatorTemplate.Kernel.Substitution
/-!
# Values of kernels

A kernel `k` has a value `k.value reading face` at a face, once it is said what the literals,
parameters and functions mean (`KernelReading`) and what the face shows (`FaceData`).  Numbers are
those of a field `K`, where a division by zero gives zero.  Of literals it is asked that zeros are
read as `0` and ones as `1`, and nothing else.

The folding constructors fold what does not count: they have the values of the plain ones
(`value_sumOf`, `value_productOf`, `value_quotientOf`, `value_conditionalOf`).  The reason is in two
lemmas about lists: dropping zero terms does not change a sum (`sum_filter_isZero`), and dropping
unit factors does not change a product (`prod_filter_isOne`).

A substitution replaces the outermost nodes that `replace` answers for and folds the rest, so what
it gives has the value of the old kernel with these nodes taking the values of their replacements:
`(k.substitute replace).value` is `k.valueUnder replace` (`value_substitute`).  `valueUnder` follows
the plain constructors and folds nothing.  The induction is on `k`, and at each node the lemma for
its folding constructor closes the gap.

The operators are made of folding constructors.  `+` and `*` compute what they stand for
(`FoldsInValue`).  Negation is a product with the literal `-1`, so negation and `-` do so exactly if
this literal is read as the number (`negatesInValue_iff`).
-/

namespace OperatorTemplate

universe u

/-- What the parts of a kernel mean that do not depend on the face. -/
structure KernelReading (K : Type u) [Field K] where
  literal : Literal → K
  parameter : String → K
  power : K → K → K
  comparison : Relation → K → K → K
  /-- A condition with this value counts as true. -/
  holds : K → Bool
  call : String → List K → K
  literal_eq_zero : ∀ v, v.isZero = true → literal v = 0
  literal_eq_one : ∀ v, v.isOne = true → literal v = 1

/-- A reading in the rational numbers, with a choice of what the literal `-1` is read as.  Other
integers are read as themselves.  A comparison gives one or zero, and a condition holds unless it is
zero. -/
def KernelReading.withMinusOne (minusOne : ℚ) : KernelReading ℚ where
  literal
    | .int value => if value = -1 then minusOne else value
    | .float bits => if Literal.isOne (.float bits) then 1 else 0
  parameter _ := 2
  power a _ := a
  comparison
    | .lt, a, b => if a < b then 1 else 0
    | .le, a, b => if a ≤ b then 1 else 0
    | .eq, a, b => if a = b then 1 else 0
    | .ne, a, b => if a = b then 0 else 1
    | .ge, a, b => if b ≤ a then 1 else 0
    | .gt, a, b => if b < a then 1 else 0
  holds c := c != 0
  call _ vs := vs.sum
  literal_eq_zero v h := by
    cases v with
    | int value =>
      simp only [Literal.isZero, beq_iff_eq] at h
      simp [h]
    | float bits =>
      -- the bits of a zero are not those of one
      have : Literal.isOne (.float bits) = false := by
        simp only [Literal.isZero, Bool.or_eq_true, beq_iff_eq] at h
        rcases h with rfl | rfl <;> rfl
      simp [this]
  literal_eq_one v h := by
    cases v with
    | int value =>
      simp only [Literal.isOne, beq_iff_eq] at h
      simp [h]
    | float bits => simp [h]

/-- What a kernel reads at a face. -/
structure FaceData (ι : Type) (K : Type u) where
  field : Side → ι → K
  normal : Nat → K

namespace KernelOver

variable {ι : Type} {K : Type u} [Field K] (reading : KernelReading K) (face : FaceData ι K)

mutual
/-- The value of a kernel at a face. -/
def value : KernelOver ι → K
  | .component side i => face.field side i
  | .normal axis => face.normal axis
  | .constant v => reading.literal v
  | .parameter name => reading.parameter name
  | .sum ks => (valueAll ks).sum
  | .product ks => (valueAll ks).prod
  | .quotient a b => value a / value b
  | .power a b => reading.power (value a) (value b)
  | .comparison a r b => reading.comparison r (value a) (value b)
  | .conditional c a b => if reading.holds (value c) then value a else value b
  | .call f ks => reading.call f (valueAll ks)

/-- The values of several kernels. -/
def valueAll : List (KernelOver ι) → List K
  | [] => []
  | k :: ks => value k :: valueAll ks
end

/-- The values of several kernels are the value of each. -/
theorem valueAll_eq_map (ks : List (KernelOver ι)) :
    valueAll reading face ks = ks.map (value reading face) := by
  induction ks with
  | nil => rfl
  | cons k ks ih => rw [valueAll, ih, List.map_cons]

/-! ## Folding constructors -/

variable {reading face}

/-- A literal zero, integer or floating-point, has the value `0`. -/
theorem value_of_isZero {k : KernelOver ι} (h : k.isZero = true) : k.value reading face = 0 := by
  unfold isZero at h
  split at h
  · rw [value]
    exact reading.literal_eq_zero _ h
  · nomatch h

/-- A literal one has the value `1`. -/
theorem value_of_isOne {k : KernelOver ι} (h : k.isOne = true) : k.value reading face = 1 := by
  unfold isOne at h
  split at h
  · rw [value]
    exact reading.literal_eq_one _ h
  · nomatch h

theorem value_zero : (zero : KernelOver ι).value reading face = 0 := value_of_isZero rfl

theorem value_one : (one : KernelOver ι).value reading face = 1 := value_of_isOne rfl

/-- Terms that are literal zeros do not count in a sum. -/
theorem sum_filter_isZero (ks : List (KernelOver ι)) :
    ((ks.filter (!·.isZero)).map (value reading face)).sum = (ks.map (value reading face)).sum := by
  induction ks with
  | nil => rfl
  | cons k ks ih =>
    by_cases hk : k.isZero = true
    · -- `k` is dropped, and adds zero on the other side
      rw [List.filter_cons_of_neg (by simp [hk]), ih, List.map_cons, List.sum_cons,
        value_of_isZero hk, zero_add]
    · rw [List.filter_cons_of_pos (by simp [hk]), List.map_cons, List.map_cons, List.sum_cons,
        List.sum_cons, ih]

/-- The folded sum has the value of the sum of all terms, be none, one or more of them left. -/
theorem value_sumOf (ks : List (KernelOver ι)) :
    (sumOf ks).value reading face = (ks.map (value reading face)).sum := by
  rw [← sum_filter_isZero ks, sumOf]
  split
  -- no term is left, one is, or several are
  next h => rw [h, value_zero, List.map_nil, List.sum_nil]
  next k h => rw [h, List.map_singleton, List.sum_singleton]
  next => rw [value, valueAll_eq_map]

/-- Factors that are literal ones do not count in a product. -/
theorem prod_filter_isOne (ks : List (KernelOver ι)) :
    ((ks.filter (!·.isOne)).map (value reading face)).prod
      = (ks.map (value reading face)).prod := by
  induction ks with
  | nil => rfl
  | cons k ks ih =>
    by_cases hk : k.isOne = true
    · -- `k` is dropped, and multiplies by one on the other side
      rw [List.filter_cons_of_neg (by simp [hk]), ih, List.map_cons, List.prod_cons,
        value_of_isOne hk, one_mul]
    · rw [List.filter_cons_of_pos (by simp [hk]), List.map_cons, List.map_cons, List.prod_cons,
        List.prod_cons, ih]

/-- The folded product has the value of the product of all factors. -/
theorem value_productOf (ks : List (KernelOver ι)) :
    (productOf ks).value reading face = (ks.map (value reading face)).prod := by
  by_cases hz : ks.any isZero = true
  · -- a zero factor makes the product zero, whatever the other factors are
    obtain ⟨k, hk, hkz⟩ := List.any_eq_true.mp hz
    have : (0 : K) ∈ ks.map (value reading face) :=
      List.mem_map.mpr ⟨k, hk, value_of_isZero hkz⟩
    rw [productOf, if_pos hz, value_zero, List.prod_eq_zero this]
  · rw [← prod_filter_isOne ks, productOf, if_neg hz]
    split
    next h => rw [h, value_one, List.map_nil, List.prod_nil]
    next k h => rw [h, List.map_singleton, List.prod_singleton]
    next => rw [value, valueAll_eq_map]

/-- The folded quotient has the value of the quotient: a zero numerator gives zero, even over zero.
-/
theorem value_quotientOf (a b : KernelOver ι) :
    (quotientOf a b).value reading face = a.value reading face / b.value reading face := by
  by_cases ha : a.isZero = true
  · rw [quotientOf, if_pos ha, value_zero, value_of_isZero ha, zero_div]
  · rw [quotientOf, if_neg ha, value]

/-- The folded conditional has the value of the branch that its condition chooses; if both are
literal zeros, the condition does not matter. -/
theorem value_conditionalOf (c a b : KernelOver ι) :
    (conditionalOf c a b).value reading face
      = if reading.holds (c.value reading face) then a.value reading face
        else b.value reading face := by
  by_cases h : (a.isZero && b.isZero) = true
  · obtain ⟨ha, hb⟩ := Bool.and_eq_true_iff.mp h
    rw [conditionalOf, if_pos h, value_zero, value_of_isZero ha, value_of_isZero hb, ite_self]
  · rw [conditionalOf, if_neg h, value]

/-! ## Substitution -/

variable (reading face) (replace : KernelOver ι → Option (KernelOver ι))

mutual
/-- The value of a kernel of which every outermost node with a replacement takes the value of its
replacement. -/
def valueUnder (k : KernelOver ι) : K :=
  match replace k with
  | some k' => k'.value reading face
  | none =>
    match k with
    | .component side i => face.field side i
    | .normal axis => face.normal axis
    | .constant v => reading.literal v
    | .parameter name => reading.parameter name
    | .sum ks => (valueUnderAll ks).sum
    | .product ks => (valueUnderAll ks).prod
    | .quotient a b => valueUnder a / valueUnder b
    | .power a b => reading.power (valueUnder a) (valueUnder b)
    | .comparison a r b => reading.comparison r (valueUnder a) (valueUnder b)
    | .conditional c a b => if reading.holds (valueUnder c) then valueUnder a else valueUnder b
    | .call f ks => reading.call f (valueUnderAll ks)
termination_by structural k

/-- The same for several kernels. -/
def valueUnderAll (ks : List (KernelOver ι)) : List K :=
  match ks with
  | [] => []
  | k :: ks => valueUnder k :: valueUnderAll ks
termination_by structural ks
end

variable {reading face replace}

/-- At a node that `replace` answers for, the substitution gives the answer and does not look below.
-/
theorem substitute_of_some {k k' : KernelOver ι} (h : replace k = some k') :
    k.substitute replace = k' := by
  have answered (rebuilt : Id (KernelOver ι)) :
      substituteM.orElse (m := Id) replace k rebuilt = k' := by
    show (match replace k with
      | some answer => answer
      | none => rebuilt) = k'
    rw [h]
  cases k <;> exact answered _

/-- A node put together anew, by the folding constructors, from the results of `f` on its parts. -/
def refold (f : KernelOver ι → KernelOver ι) : KernelOver ι → KernelOver ι
  | .sum ks => sumOf (ks.map f)
  | .product ks => productOf (ks.map f)
  | .quotient a b => quotientOf (f a) (f b)
  | .power a b => .power (f a) (f b)
  | .comparison a r b => .comparison (f a) r (f b)
  | .conditional c a b => conditionalOf (f c) (f a) (f b)
  | .call name ks => .call name (ks.map f)
  | k => k

theorem substituteAllM_eq_map (ks : List (KernelOver ι)) :
    substituteAllM (m := Id) replace ks = ks.map (substitute replace) := by
  induction ks with
  | nil => rfl
  | cons k ks ih =>
    rw [List.map_cons, ← ih]
    rfl

/-- At a node that `replace` does not answer for, the operands are substituted and the node is put
together by `refold`. -/
theorem substitute_of_none {k : KernelOver ι} (h : replace k = none) :
    k.substitute replace = k.refold (substitute replace) := by
  have rebuilt (k' : Id (KernelOver ι)) : substituteM.orElse (m := Id) replace k k' = k' := by
    show (match replace k with
      | some answer => answer
      | none => k') = k'
    rw [h]
  cases k with
  | sum ks | product ks | call _ ks =>
    rw [refold, ← substituteAllM_eq_map ks]
    exact rebuilt _
  | _ => exact rebuilt _

mutual
/-- A substitution puts values for values: `k.substitute replace` has the value of `k` in which
every outermost node with a replacement takes the value of its replacement. -/
theorem value_substitute (k : KernelOver ι) :
    (k.substitute replace).value reading face = k.valueUnder reading face replace := by
  rw [valueUnder.eq_def]
  cases h : replace k with
  | some k' => rw [substitute_of_some h]
  | none =>
    -- no answer for `k` itself: the folding constructor at its root does not change the value
    rw [substitute_of_none h]
    cases k with
    | component _ _ | normal _ | constant _ | parameter _ => rfl
    | sum ks => rw [refold, value_sumOf, value_substituteAll ks]
    | product ks => rw [refold, value_productOf, value_substituteAll ks]
    | quotient a b => rw [refold, value_quotientOf, value_substitute a, value_substitute b]
    | power a b => rw [refold, value, value_substitute a, value_substitute b]
    | comparison a _ b => rw [refold, value, value_substitute a, value_substitute b]
    | conditional c a b =>
      rw [refold, value_conditionalOf, value_substitute c, value_substitute a, value_substitute b]
    | call _ ks => rw [refold, value, valueAll_eq_map, value_substituteAll ks]

/-- The same for several kernels. -/
theorem value_substituteAll (ks : List (KernelOver ι)) :
    (ks.map (substitute replace)).map (value reading face)
      = valueUnderAll reading face replace ks := by
  cases ks with
  | nil => rfl
  | cons k ks =>
    rw [List.map_cons, List.map_cons, value_substitute k, value_substituteAll ks, valueUnderAll]
end

/-- Only fields are replaced. -/
def ReplacesFields (replace : KernelOver ι → Option (KernelOver ι)) : Prop :=
  ∀ k, (∀ side i, k ≠ .component side i) → replace k = none

mutual
/-- Where only fields are replaced, `k` has under the replacements the value that it has at a face
`face'` that shows, for every field that `k` reads, the value of what is put for it. -/
theorem valueUnder_of_fields {face' : FaceData ι K} (others : ReplacesFields replace)
    (normals : face.normal = face'.normal) : (k : KernelOver ι) →
    (∀ c ∈ k.components,
      (component c.1 c.2).valueUnder reading face replace = face'.field c.1 c.2) →
    k.valueUnder reading face replace = k.value reading face'
  | .component side i, fields => fields (side, i) List.mem_cons_self
  | .normal _, _ => by
    rw [valueUnder.eq_def, others _ (by simp), value, ← normals]
  | .constant _, _ | .parameter _, _ => by
    rw [valueUnder.eq_def, others _ (by simp), value]
  | .sum ks, fields | .product ks, fields | .call _ ks, fields => by
    rw [valueUnder.eq_def, others _ (by simp), value]
    simp only [valueUnderAll_of_fields others normals ks fields]
  | .quotient a b, fields | .power a b, fields | .comparison a _ b, fields => by
    rw [valueUnder.eq_def, others _ (by simp), value]
    simp only [valueUnder_of_fields others normals a
        fun c hc => fields c (List.mem_append_left _ hc),
      valueUnder_of_fields others normals b fun c hc => fields c (List.mem_append_right _ hc)]
  | .conditional c a b, fields => by
    rw [valueUnder.eq_def, others _ (by simp), value]
    simp only [valueUnder_of_fields others normals c
        fun x hx => fields x (List.mem_append_left _ (List.mem_append_left _ hx)),
      valueUnder_of_fields others normals a
        fun x hx => fields x (List.mem_append_left _ (List.mem_append_right _ hx)),
      valueUnder_of_fields others normals b fun x hx => fields x (List.mem_append_right _ hx)]

theorem valueUnderAll_of_fields {face' : FaceData ι K} (others : ReplacesFields replace)
    (normals : face.normal = face'.normal) : (ks : List (KernelOver ι)) →
    (∀ c ∈ componentsAll ks,
      (component c.1 c.2).valueUnder reading face replace = face'.field c.1 c.2) →
    valueUnderAll reading face replace ks = valueAll reading face' ks
  | [], _ => rfl
  | k :: ks, fields => by
    rw [valueUnderAll, valueAll, valueUnder_of_fields others normals k
        fun c hc => fields c (List.mem_append_left _ hc),
      valueUnderAll_of_fields others normals ks fun c hc => fields c (List.mem_append_right _ hc)]
end

/-! ## Preservation of values -/

mutual
/-- Where every replacement has the value of what it stands for, no value changes. -/
theorem valueUnder_eq_value
    (agree : ∀ k k', replace k = some k' → k'.value reading face = k.value reading face) :
    (k : KernelOver ι) → k.valueUnder reading face replace = k.value reading face := by
  intro k
  rw [valueUnder.eq_def]
  cases h : replace k with
  | some k' => exact agree k k' h
  | none =>
    cases k with
    | component _ _ | normal _ | constant _ | parameter _ => rfl
    | sum ks | product ks | call _ ks => rw [value, ← valueUnderAll_eq_valueAll agree ks]
    | quotient a b | power a b | comparison a _ b =>
      rw [value, ← valueUnder_eq_value agree a, ← valueUnder_eq_value agree b]
    | conditional c a b =>
      rw [value, ← valueUnder_eq_value agree c, ← valueUnder_eq_value agree a,
        ← valueUnder_eq_value agree b]

theorem valueUnderAll_eq_valueAll
    (agree : ∀ k k', replace k = some k' → k'.value reading face = k.value reading face) :
    (ks : List (KernelOver ι)) →
      valueUnderAll reading face replace ks = valueAll reading face ks
  | [] => rfl
  | k :: ks => by
    rw [valueUnderAll, valueAll, valueUnder_eq_value agree k, valueUnderAll_eq_valueAll agree ks]
end

/-- The operator `+` adds values. -/
theorem value_add (a b : KernelOver ι) :
    (a + b).value reading face = a.value reading face + b.value reading face := by
  show (sumOf [a, b]).value reading face = _
  rw [value_sumOf, List.map_cons, List.map_singleton, List.sum_pair]

/-- The operator `*` multiplies values. -/
theorem value_mul (a b : KernelOver ι) :
    (a * b).value reading face = a.value reading face * b.value reading face := by
  show (productOf [a, b]).value reading face = _
  rw [value_productOf, List.map_cons, List.map_singleton, List.prod_pair]

/-- Negation multiplies by what the literal `-1` is read as. -/
theorem value_neg (a : KernelOver ι) :
    (-a).value reading face = reading.literal (.int (-1)) * a.value reading face := by
  show (KernelOver.constant (.int (-1)) * a).value reading face = _
  rw [value_mul, value]

/-- The operator `-` adds the negation. -/
theorem value_sub (a b : KernelOver ι) :
    (a - b).value reading face = a.value reading face + (-b).value reading face :=
  value_add a (-b)

variable (reading face)

/-- `sumOf`, `productOf`, `quotientOf` and `conditionalOf` have the value of the sum, the product, the
quotient and the choice of their arguments' values, and so have `+` and `*`.  No literal but the zeros
and ones that are folded away counts for that. -/
structure FoldsInValue : Prop where
  sum (ks : List (KernelOver ι)) :
    (sumOf ks).value reading face = (ks.map (value reading face)).sum
  product (ks : List (KernelOver ι)) :
    (productOf ks).value reading face = (ks.map (value reading face)).prod
  quotient (a b : KernelOver ι) :
    (quotientOf a b).value reading face = a.value reading face / b.value reading face
  conditional (c a b : KernelOver ι) :
    (conditionalOf c a b).value reading face
      = if reading.holds (c.value reading face) then a.value reading face
        else b.value reading face
  add (a b : KernelOver ι) :
    (a + b).value reading face = a.value reading face + b.value reading face
  mul (a b : KernelOver ι) :
    (a * b).value reading face = a.value reading face * b.value reading face

/-- `-a` and `a - b` have the values of the negation and of the difference. -/
structure NegatesInValue : Prop where
  neg (a : KernelOver ι) : (-a).value reading face = -a.value reading face
  sub (a b : KernelOver ι) :
    (a - b).value reading face = a.value reading face - b.value reading face

theorem foldsInValue : FoldsInValue reading face where
  sum := value_sumOf
  product := value_productOf
  quotient := value_quotientOf
  conditional := value_conditionalOf
  add := value_add
  mul := value_mul

/-- The kernel `-a` is the product of the literal `-1` and `a`, and `a - b` is the sum of `a` and
`-b`.  So both have the values that they are named after if this literal is read as `-1`; and they have
no others at the literal `1`, so only then. -/
theorem negatesInValue_iff : NegatesInValue reading face ↔ reading.literal (.int (-1)) = -1 := by
  constructor
  · intro h
    -- the value of `-1`, as negation of the kernel `one`, is what the literal is read as
    have negated : (-one : KernelOver ι).value reading face = -1 := by
      rw [h.neg, value_one]
    rw [value_neg, value_one, mul_one] at negated
    exact negated
  · intro minus
    have negated (a : KernelOver ι) : (-a).value reading face = -a.value reading face := by
      rw [value_neg, minus, neg_one_mul]
    exact ⟨negated, fun a b => by rw [value_sub, negated, sub_eq_add_neg]⟩

/-- **Substitution and folding preserve values.**  Let literals other than zeros and ones, parameters,
powers, comparisons and functions mean whatever they may.

* `k.substitute replace` has the value of `k` in which every outermost node that `replace` answers for
  has the value of the answer (`valueUnder`).
* So it has the value of `k` itself, if all answers have the values of what they stand for.
* The folding constructors, `+` and `*` have the values that they are named after.
* Negation and `-` have the values that they are named after exactly if the literal `-1` is read as
  `-1`. -/
theorem value_preserved :
    (∀ (replace : KernelOver ι → Option (KernelOver ι)) (k : KernelOver ι),
      (k.substitute replace).value reading face = k.valueUnder reading face replace)
    ∧ (∀ replace : KernelOver ι → Option (KernelOver ι),
      (∀ k k', replace k = some k' → k'.value reading face = k.value reading face) →
        ∀ k : KernelOver ι, (k.substitute replace).value reading face = k.value reading face)
    ∧ FoldsInValue reading face
    ∧ (NegatesInValue reading face ↔ reading.literal (.int (-1)) = -1) :=
  ⟨fun _ k => value_substitute k,
    fun _ agree k => (value_substitute k).trans (valueUnder_eq_value agree k),
    foldsInValue reading face, negatesInValue_iff reading face⟩

/-- The first interior field is 1, the next one 2, and so on; the exterior fields are 7, the normal is
3 along every axis. -/
def sampleFace : FaceData Nat ℚ where
  field
    | .interior, index => index + 1
    | .exterior, _ => 7
  normal _ := 3

/-- An exterior field and twice the normal. -/
def sampleSum : KernelOver Nat :=
  .sum [.component .exterior 0, .product [.constant (.int 2), .normal 0]]

/-- A zero for the exterior field, and an exterior field for products. -/
def sampleReplacement : KernelOver Nat → Option (KernelOver Nat)
  | .component .exterior 0 => some zero
  | .product _ => some (.component .exterior 0)
  | _ => none

/-- The first term of the sum is replaced by a zero and dropped.  The second, a product, is replaced by
the field that the first one was, and is not replaced again.  What is left is that field, 7; the sum
itself was 13, and its negation is -13. -/
theorem value_preserved_sampleSum :
    sampleSum.substitute sampleReplacement = .component .exterior 0
      ∧ sampleSum.valueUnder (.withMinusOne (-1)) sampleFace sampleReplacement = 7
      ∧ (-sampleSum).value (.withMinusOne (-1)) sampleFace = -13 := by
  obtain ⟨substituted, -, -, negates⟩ :=
    value_preserved (ι := Nat) (.withMinusOne (-1)) sampleFace
  -- the hypothesis of the last part: `-1` is read as `-1`
  have minus : (KernelReading.withMinusOne (-1)).literal (.int (-1)) = -1 := rfl
  have whole : sampleSum.value (.withMinusOne (-1)) sampleFace = 13 := by decide +kernel
  refine ⟨rfl, ?_, ?_⟩
  · exact (substituted sampleReplacement sampleSum).symm
  · rw [(negates.mpr minus).neg, whole]

/-- Zeros are read as zero and ones as one, but `-1` is read as `5`.  Then the difference of the
literals `1` and `1` has the value `1 + 5`, and the negation of `1` has the value `5`. -/
theorem not_negatesInValue :
    (one - one : KernelOver Nat).value (.withMinusOne 5) sampleFace
        ≠ (one : KernelOver Nat).value (.withMinusOne 5) sampleFace
          - (one : KernelOver Nat).value (.withMinusOne 5) sampleFace
      ∧ (-one : KernelOver Nat).value (.withMinusOne 5) sampleFace
        ≠ -(one : KernelOver Nat).value (.withMinusOne 5) sampleFace := by
  have minus : (KernelReading.withMinusOne 5).literal (.int (-1)) = 5 := rfl
  rw [value_sub, value_neg, value_one, minus]
  constructor <;> norm_num

end KernelOver

end OperatorTemplate
