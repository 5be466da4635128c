import OperatorTemplate.Tag
/-!
# Field types

What is known about the type of an expression.  Data live on a domain (the volume, a part of its
boundary, the interior faces) in a representation (at the nodes, or on a quadrature grid).  A
*final* type is the scalar type, or names both; a partial type names one of the two; `unknown`
names none.

```
           scalar     volume r     boundary t r     interiorFaces q
                          \              |             /
  onVolume    onBoundary t    onInteriorFaces    represented r
                          \              |             /
                                     unknown
```

Interior faces exist under quadrature only: their data are held by the quadrature grid alone.
-/

namespace OperatorTemplate

/-- How vector data are sampled. -/
inductive Representation where
  /-- At the nodes of the discretization. -/
  | nodal
  | quadrature (grid : QuadratureTag)
  deriving DecidableEq, Repr

/-- Nodal, unless a quadrature grid is given. -/
def Representation.ofGrid : Option QuadratureTag → Representation
  | some grid => .quadrature grid
  | none => .nodal

/-- The text of a representation. -/
def Representation.render : Representation → String
  | .nodal => "Nodal"
  | .quadrature grid => "Quadrature(" ++ grid.name ++ ")"

/-- What is known about the type of an expression. -/
inductive FieldType where
  | unknown
  /-- A vector on the volume, of unknown representation. -/
  | onVolume
  /-- A vector on a part of the boundary, of unknown representation. -/
  | onBoundary (tag : BoundaryTag)
  /-- A vector of interior face values, of unknown representation. -/
  | onInteriorFaces
  /-- A vector on an unknown domain. -/
  | represented (representation : Representation)
  | scalar
  | volume (representation : Representation)
  | boundary (tag : BoundaryTag) (representation : Representation)
  | interiorFaces (grid : QuadratureTag)
  deriving DecidableEq, Repr

namespace FieldType

instance : Inhabited FieldType := ⟨unknown⟩

/-- Nothing more can be learned. -/
def isFinal : FieldType → Bool
  | .scalar | .volume _ | .boundary _ _ | .interiorFaces _ => true
  | _ => false

/-- The representation, where it is known. -/
def representation? : FieldType → Option Representation
  | .represented r | .volume r | .boundary _ r => some r
  | .interiorFaces grid => some (.quadrature grid)
  | .unknown | .onVolume | .onBoundary _ | .onInteriorFaces | .scalar => none

/-- What the type says about representation alone. -/
def representationPart (t : FieldType) : FieldType :=
  match t.representation? with
  | some r => .represented r
  | none => .unknown

/-- What the type says about the domain alone, for volume and boundary data. -/
def domainPart : FieldType → FieldType
  | .onVolume | .volume _ => .onVolume
  | .onBoundary tag | .boundary tag _ => .onBoundary tag
  | _ => .unknown

/-- The text of a type. -/
def render : FieldType → String
  | .unknown => "NoType"
  | .onVolume => "KnownAsVolume"
  | .onBoundary tag => "KnownAsBoundary(" ++ tag.render ++ ")"
  | .onInteriorFaces => "KnownAsIntFace"
  | .represented r => "KnownRepresentation(" ++ r.render ++ ")"
  | .scalar => "Scalar"
  | .volume r => "Volume(" ++ r.render ++ ")"
  | .boundary tag r => "Boundary(" ++ tag.render ++ ", " ++ r.render ++ ")"
  | .interiorFaces grid => "InteriorFaces(Quadrature(" ++ grid.name ++ "))"

end FieldType

end OperatorTemplate
