import OperatorTemplate.Literal
/-!
# Flux kernels

A kernel is evaluated once per face, from the values of fields on both sides of the face and the
face normal.  What names a field is left open (`KernelOver`).  The kernels of a template (`Kernel`)
read fields by position: interior components index the volume fields of the pair that the kernel is
applied to, exterior components its boundary fields.

Beside the constructors stand *folding* ones (`sumOf`, `productOf`, `quotientOf`, `conditionalOf`):
they drop zero terms and unit factors and collapse what vanishes, so that putting a zero for a
boundary value makes every term that depends on it disappear.
-/

namespace OperatorTemplate

/-- The side of a face on which a field is sampled. -/
inductive Side where
  | interior
  | exterior
  deriving DecidableEq, Repr

/-- An expression of the kernel language that reads fields named by `ι`. -/
inductive KernelOver (ι : Type) where
  /-- A field on one side of the face. -/
  | component (side : Side) (field : ι)
  /-- A component of the outward face normal. -/
  | normal (axis : Nat)
  | constant (value : Literal)
  | parameter (name : String)
  | sum (terms : List (KernelOver ι))
  | product (factors : List (KernelOver ι))
  | quotient (numerator denominator : KernelOver ι)
  | power (base exponent : KernelOver ι)
  | comparison (left : KernelOver ι) (relation : Relation) (right : KernelOver ι)
  | conditional (condition positive negative : KernelOver ι)
  | call (function : String) (arguments : List (KernelOver ι))
  deriving Repr

/-- A kernel that reads fields by position. -/
abbrev Kernel : Type := KernelOver Nat

namespace KernelOver

variable {ι : Type}

/-! ## Equality -/

section Equality

variable [DecidableEq ι]

mutual
/-- Structural equality test. -/
def beq : KernelOver ι → KernelOver ι → Bool
  | .component s i, .component s' i' => s == s' && i == i'
  | .normal a, .normal a' => a == a'
  | .constant v, .constant v' => v == v'
  | .parameter n, .parameter n' => n == n'
  | .sum ts, .sum ts' => beqAll ts ts'
  | .product fs, .product fs' => beqAll fs fs'
  | .quotient a b, .quotient a' b' => beq a a' && beq b b'
  | .power a b, .power a' b' => beq a a' && beq b b'
  | .comparison a r b, .comparison a' r' b' => r == r' && beq a a' && beq b b'
  | .conditional c a b, .conditional c' a' b' => beq c c' && beq a a' && beq b b'
  | .call f as, .call f' as' => f == f' && beqAll as as'
  | _, _ => false

/-- Elementwise structural equality test. -/
def beqAll : List (KernelOver ι) → List (KernelOver ι) → Bool
  | [], [] => true
  | k :: ks, k' :: ks' => beq k k' && beqAll ks ks'
  | _, _ => false
end

mutual
/-- The test answers `true` exactly for equal kernels.  By induction on the first kernel; a second
one with another constructor is refused at once. -/
theorem beq_iff_eq : (k k' : KernelOver ι) → (beq k k' = true ↔ k = k')
  | .component _ _, k' => by cases k' <;> simp [beq]
  | .normal _, k' => by cases k' <;> simp [beq]
  | .constant _, k' => by cases k' <;> simp [beq]
  | .parameter _, k' => by cases k' <;> simp [beq]
  | .sum ts, k' => by cases k' <;> simp [beq, beqAll_iff_eq ts]
  | .product fs, k' => by cases k' <;> simp [beq, beqAll_iff_eq fs]
  | .quotient a b, k' => by cases k' <;> simp [beq, beq_iff_eq a, beq_iff_eq b]
  | .power a b, k' => by cases k' <;> simp [beq, beq_iff_eq a, beq_iff_eq b]
  | .comparison a _ b, k' => by
    cases k' <;> simp [beq, beq_iff_eq a, beq_iff_eq b, and_left_comm, and_assoc]
  | .conditional c a b, k' => by
    cases k' <;> simp [beq, beq_iff_eq c, beq_iff_eq a, beq_iff_eq b, and_assoc]
  | .call _ as, k' => by cases k' <;> simp [beq, beqAll_iff_eq as]

/-- The same for lists of kernels, element by element. -/
theorem beqAll_iff_eq : (ks ks' : List (KernelOver ι)) → (beqAll ks ks' = true ↔ ks = ks')
  | [], ks' => by cases ks' <;> simp [beqAll]
  | k :: ks, ks' => by cases ks' <;> simp [beqAll, beq_iff_eq k, beqAll_iff_eq ks]
end

instance : DecidableEq (KernelOver ι) := fun k k' => decidable_of_iff _ (beq_iff_eq k k')

end Equality

/-! ## Folding constructors -/

/-- The integer zero. -/
def zero : KernelOver ι := .constant (.int 0)

/-- The integer one. -/
def one : KernelOver ι := .constant (.int 1)

/-- A literal zero. -/
def isZero : KernelOver ι → Bool
  | .constant value => value.isZero
  | _ => false

/-- A literal one. -/
def isOne : KernelOver ι → Bool
  | .constant value => value.isOne
  | _ => false

/-- The sum without its zero terms: zero if none is left, and a single term stands for itself. -/
def sumOf (terms : List (KernelOver ι)) : KernelOver ι :=
  match terms.filter (!·.isZero) with
  | [] => zero
  | [term] => term
  | kept => .sum kept

/-- The product without its unit factors: zero if any factor is zero, one if no factor is left, and
a single factor stands for itself. -/
def productOf (factors : List (KernelOver ι)) : KernelOver ι :=
  if factors.any isZero then zero
  else
    match factors.filter (!·.isOne) with
    | [] => one
    | [factor] => factor
    | kept => .product kept

/-- The quotient, zero if its numerator is. -/
def quotientOf (numerator denominator : KernelOver ι) : KernelOver ι :=
  if numerator.isZero then zero else .quotient numerator denominator

/-- The conditional, zero if both branches are. -/
def conditionalOf (condition positive negative : KernelOver ι) : KernelOver ι :=
  if positive.isZero && negative.isZero then zero else .conditional condition positive negative

instance : Add (KernelOver ι) := ⟨fun a b => sumOf [a, b]⟩
instance : Mul (KernelOver ι) := ⟨fun a b => productOf [a, b]⟩

/-- Negation is multiplication by the integer `-1`. -/
instance : Neg (KernelOver ι) := ⟨fun a => productOf [.constant (.int (-1)), a]⟩

/-- A difference is the sum with the negated second operand. -/
instance : Sub (KernelOver ι) := ⟨fun a b => sumOf [a, -b]⟩

/-! ## Components -/

mutual
/-- The field components that a kernel reads, from left to right, repetitions kept. -/
def components : KernelOver ι → List (Side × ι)
  | .component side field => [(side, field)]
  | .normal _ | .constant _ | .parameter _ => []
  | .sum ks | .product ks | .call _ ks => componentsAll ks
  | .quotient a b | .power a b | .comparison a _ b => components a ++ components b
  | .conditional c a b => components c ++ components a ++ components b

/-- The field components of several kernels, one after the other. -/
def componentsAll : List (KernelOver ι) → List (Side × ι)
  | [] => []
  | k :: ks => components k ++ componentsAll ks
end

end KernelOver

end OperatorTemplate
