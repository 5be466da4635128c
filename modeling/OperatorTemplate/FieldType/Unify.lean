import OperatorTemplate.FieldType.Error
/-!
# Unification of types

`unify a b` is the type that says all that `a` and `b` say.  Each type absorbs some others
(`absorb?`); unification asks both sides, so its result does not depend on their order.
-/

namespace OperatorTemplate.FieldType

/-- The vectors of interior face values in a representation, which has to be a quadrature. -/
def interiorFacesIn : Representation → Except TypeError FieldType
  | .quadrature grid => .ok (.interiorFaces grid)
  | .nodal => .error (.malformed .nodal)

/-- What a known representation makes of another type. -/
def withRepresentation? (r : Representation) : FieldType → Option FieldType
  | .onVolume => some (.volume r)
  | .onBoundary tag => some (.boundary tag r)
  -- interior face values that are nodal are ordinary volume data
  | .onInteriorFaces =>
    match r with
    | .nodal => some (.volume .nodal)
    | .quadrature grid => some (.interiorFaces grid)
  | .volume r' => if r = r' then some (.volume r') else none
  | .boundary tag r' => if r = r' then some (.boundary tag r') else none
  | .interiorFaces grid => if r = .quadrature grid then some (.interiorFaces grid) else none
  | .unknown | .represented _ | .scalar => none

/-- One direction of unification; with no answer, the other side has to be asked. -/
def absorb? : FieldType → FieldType → Option FieldType
  | .unknown, other => some other
  | .onVolume, .volume r => some (.volume r)
  | .onInteriorFaces, .interiorFaces grid => some (.interiorFaces grid)
  -- interior faces exist under quadrature only; otherwise they are nodal volume data
  | .onInteriorFaces, .onVolume | .onInteriorFaces, .volume .nodal => some (.volume .nodal)
  | .onBoundary tag, .boundary tag' r => if tag = tag' then some (.boundary tag' r) else none
  | .represented r, other => withRepresentation? r other
  | _, _ => none

/-- The type that says what both types say; `expr` is the expression being typed, for messages. -/
def unify (left right : FieldType) (expr : Option Expr) : Except TypeError FieldType :=
  if left = right then .ok left
  else
    match left.absorb? right, right.absorb? left with
    | none, none => .error (.conflict left right expr)
    | some t, none | none, some t => .ok t
    | some t, some t' => if t = t' then .ok t else .error (.inconsistent left right)

end OperatorTemplate.FieldType
