import OperatorTemplate.Boundary.Rewrite
import OperatorTemplate.Inference
/-!
# Compilation

The analyses in order: the alias check, inference, the rewriting of boundary fluxes, and inference
of what the rewriting made.  An aliased pair is reported as such, before inference meets the
conflict that it causes.
-/

namespace OperatorTemplate

/-- Why compilation failed. -/
inductive CompileError where
  | type (cause : TypeError)
  | rewrite (cause : RewriteError)
  deriving DecidableEq, Repr

/-- The text of an error. -/
def CompileError.message : CompileError → String
  | .type cause => "type inference failed: " ++ cause.message
  | .rewrite cause => "boundary flux rewriting failed: " ++ cause.message

/-- What compilation does. -/
structure CompileOptions where
  /-- Types given from outside. -/
  hints : TypeHints := []
  /-- Boundary fluxes are rewritten. -/
  rewrite : Bool := true
  /-- The rewritten template is inferred again; otherwise the types of the input are the answer. -/
  reinfer : Bool := true

/-- A compiled template. -/
structure CompiledTemplate where
  roots : List Expr
  table : TypeTable
  /-- The number of boundary fluxes rewritten. -/
  rewritten : Nat

/-- Compiles a template; the first error is the answer. -/
def compile (roots : List Expr) (options : CompileOptions) :
    Except CompileError CompiledTemplate :=
  if options.rewrite then do
    (checkBoundaryAliasing roots).mapError .rewrite
    let initial ← (Inference.infer roots options.hints).mapError .type
    let (result, state) := (roots.mapM Rewrite.root).run.run {}
    let rewritten ← result.mapError .rewrite
    let table ←
      if options.reinfer then
        (·.table) <$> (Inference.infer rewritten options.hints).mapError .type
      else pure initial.table
    return ⟨rewritten, table, state.rewritten⟩
  else do
    let initial ← (Inference.infer roots options.hints).mapError .type
    return ⟨roots, initial.table, 0⟩

end OperatorTemplate
