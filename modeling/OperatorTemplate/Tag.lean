/-!
# Tags

Opaque labels of a mesh: the parts of its boundary and its quadrature grids.  Nothing interprets a
tag beyond equality; a tag is compared by what it says.
-/

namespace OperatorTemplate

/-- A part of the mesh boundary. -/
inductive BoundaryTag where
  /-- A region that the user named. -/
  | named (name : String)
  /-- The whole boundary. -/
  | all
  /-- The faces shared with the partition of this rank. -/
  | rank (number : Nat)
  deriving DecidableEq, Repr

/-- Named regions show their name; the two generated regions stand in angle brackets. -/
def BoundaryTag.render : BoundaryTag → String
  | .named name => name
  | .all => "<all>"
  | .rank number => "<rank " ++ toString number ++ ">"

/-- A quadrature grid, known by its name. -/
structure QuadratureTag where
  name : String
  deriving DecidableEq, Repr

end OperatorTemplate
