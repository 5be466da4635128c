import OperatorTemplate.Operator
import OperatorTemplate.Kernel.Printer
/-!
# Text of operators

An operator is written by its name, followed in square brackets by what it carries.
-/

namespace OperatorTemplate

/-- The name of a derivative. -/
def Derivative.render : Derivative → String
  | .strong => "Diff"
  | .weak => "WeakDiff"
  | .stiffness => "Stiffness"

/-- The name of a mass matrix. -/
def Mass.render : Mass → String
  | .direct => "Mass"
  | .inverse => "InverseMass"

/-- The text of an operator. -/
def Operator.render : Operator → String
  | .reduce .sum => "NodalSum"
  | .reduce .max => "NodalMax"
  | .reduce .min => "NodalMin"
  | .derivative kind axis => kind.render ++ "[x" ++ toString axis ++ "]"
  | .referenceDerivative kind axis => "Ref" ++ kind.render ++ "[r" ++ toString axis ++ "]"
  | .mass kind => kind.render
  | .referenceMass kind => "Ref" ++ kind.render
  | .referenceQuadratureMass grid => "RefQuadMass[" ++ grid.name ++ "]"
  | .stiffnessTransposed axis => "StiffnessT[x" ++ toString axis ++ "]"
  | .referenceStiffnessTransposed axis => "RefStiffnessT[r" ++ toString axis ++ "]"
  | .referenceQuadratureStiffnessTransposed axis grid =>
    "RefQuadStiffnessT[r" ++ toString axis ++ ", " ++ grid.name ++ "]"
  | .elementwiseMax => "ElementwiseMax"
  | .restrict tag => "Restrict[" ++ tag.render ++ "]"
  | .exchange index rank => "FluxExchange[" ++ toString index ++ ", rank " ++ toString rank ++ "]"
  | .flux ⟨.plain, kernel⟩ => "Flux[" ++ kernel.render ++ "]"
  | .flux ⟨.lifted, kernel⟩ => "Lift[" ++ kernel.render ++ "]"
  | .upsample grid => "Upsample[" ++ grid.name ++ "]"
  | .upsampleInteriorFaces grid => "UpsampleIntFaces[" ++ grid.name ++ "]"
  | .upsampleBoundary grid tag => "UpsampleBoundary[" ++ grid.name ++ ", " ++ tag.render ++ "]"
  | .elementwise (.filter name) => "Filter[" ++ name ++ "]"
  | .elementwise .averaging => "Averaging"
  | .external name => name

end OperatorTemplate
