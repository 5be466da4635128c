import OperatorTemplate.Tag
import OperatorTemplate.Kernel
/-!
# Operators

What can be applied to a field.  An operator carries the tags that the analyses read: axes,
quadrature grid, boundary, partition.  Operators that no analysis knows are `external`.
-/

namespace OperatorTemplate

/-- Reductions of nodal data to a scalar. -/
inductive Reduction where
  | sum
  | max
  | min
  deriving DecidableEq, Repr

/-- Flavours of differentiation. -/
inductive Derivative where
  /-- The strong form. -/
  | strong
  /-- The weak form: inverse mass times transposed stiffness. -/
  | weak
  /-- The stiffness matrix alone. -/
  | stiffness
  deriving DecidableEq, Repr

/-- The mass matrix or its inverse. -/
inductive Mass where
  | direct
  | inverse
  deriving DecidableEq, Repr

/-- Linear maps within each element that keep nodal data nodal. -/
inductive ElementwiseMap where
  | filter (name : String)
  | averaging
  deriving DecidableEq, Repr

/-- Whether a flux includes the lifting step, an application of the inverse mass matrix. -/
inductive FluxKind where
  | plain
  | lifted
  deriving DecidableEq, Repr

/-- A flux: the kernel evaluated on every face, and what is done with its values. -/
structure Flux where
  kind : FluxKind
  kernel : Kernel
  deriving DecidableEq, Repr

/-- What can be applied to a field. -/
inductive Operator where
  | reduce (kind : Reduction)
  | derivative (kind : Derivative) (axis : Nat)
  /-- A derivative along an axis of the reference element. -/
  | referenceDerivative (kind : Derivative) (axis : Nat)
  | mass (kind : Mass)
  | referenceMass (kind : Mass)
  | referenceQuadratureMass (grid : QuadratureTag)
  | stiffnessTransposed (axis : Nat)
  | referenceStiffnessTransposed (axis : Nat)
  | referenceQuadratureStiffnessTransposed (axis : Nat) (grid : QuadratureTag)
  | elementwiseMax
  /-- Restriction of volume data to a part of the boundary. -/
  | restrict (tag : BoundaryTag)
  /-- Exchange of face data with the partition of a rank. -/
  | exchange (index rank : Nat)
  | flux (flux : Flux)
  /-- Interpolation to a quadrature grid, wherever the operand lives. -/
  | upsample (grid : QuadratureTag)
  | upsampleInteriorFaces (grid : QuadratureTag)
  | upsampleBoundary (grid : QuadratureTag) (tag : BoundaryTag)
  | elementwise (kind : ElementwiseMap)
  /-- An operator that no analysis has a rule for. -/
  | external (name : String)
  deriving DecidableEq, Repr

end OperatorTemplate
