import OperatorTemplate.Compilation
import OperatorTemplate.Expr.Stripping
import OperatorTemplate.Expr.Substitution
import OperatorTemplate.Text.Quoted
import OperatorTemplate.Proofs.Boundary.AliasReport
import OperatorTemplate.Proofs.Boundary.AliasedTypes
import OperatorTemplate.Proofs.Boundary.Denotation
import OperatorTemplate.Proofs.Boundary.Disjointness
import OperatorTemplate.Proofs.Boundary.FoldedKernels
import OperatorTemplate.Proofs.Boundary.Maximality
import OperatorTemplate.Proofs.Boundary.Need
import OperatorTemplate.Proofs.Boundary.Surface
import OperatorTemplate.Proofs.Compilation
import OperatorTemplate.Proofs.Expr.Printer
import OperatorTemplate.Proofs.Expr.Substitution
import OperatorTemplate.Proofs.FieldType.PartialJoin
import OperatorTemplate.Proofs.Inference.Accumulation
import OperatorTemplate.Proofs.Inference.FluxAgreement
import OperatorTemplate.Proofs.Inference.Grounding
import OperatorTemplate.Proofs.Inference.RootOrder
import OperatorTemplate.Proofs.Inference.Soundness
import OperatorTemplate.Proofs.Inference.Stability
import OperatorTemplate.Proofs.Inference.Termination
