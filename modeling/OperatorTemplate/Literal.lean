import OperatorTemplate.Decimal.Layout
/-!
# Literals and comparisons

Numbers as they are written in a template.  A floating-point literal is its bits, so two literals
are equal when they are the same number written the same way: `-0.0` differs from `0.0`, and every
NaN equals itself.
-/

namespace OperatorTemplate

/-- A numeric literal. -/
inductive Literal where
  | int (value : Int)
  /-- A binary64 number, by its bits. -/
  | float (bits : UInt64)
  deriving DecidableEq, Repr

namespace Literal

/-- The integer zero and both floating-point zeros. -/
def isZero : Literal → Bool
  | .int value => value == 0
  | .float bits => bits == 0 || bits == 0x8000000000000000

/-- The integer one and the floating-point one. -/
def isOne : Literal → Bool
  | .int value => value == 1
  | .float bits => bits == 0x3FF0000000000000

/-- Floating-point literals have the fewest digits that identify them, positionally from a ten
thousandth up to, and not including, 10^16. -/
def layout : Decimal.Layout where
  positionalFrom := -4
  positionalBelow := 16
  exponentMark := "e"
  notANumber := "NaN"
  infinity := "inf"

/-- The text of a literal. -/
def render : Literal → String
  | .int value => toString value
  | .float bits => layout.render bits

end Literal

/-- The relation that a comparison tests. -/
inductive Relation where
  | lt
  | le
  | eq
  | ne
  | ge
  | gt
  deriving DecidableEq, Repr

/-- The sign written between the two sides of a comparison. -/
def Relation.symbol : Relation → String
  | .lt => "<"
  | .le => "<="
  | .eq => "=="
  | .ne => "!="
  | .ge => ">="
  | .gt => ">"

end OperatorTemplate
