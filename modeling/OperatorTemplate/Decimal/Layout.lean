import OperatorTemplate.Decimal.Shortest
/-!
# Layout of floating-point numbers

How the selected digits are set down: positionally for moderate exponents, in exponent form beyond.
The decisions are the fields of one record.
-/

namespace OperatorTemplate.Decimal

/-- The decisions of a number format. -/
structure Layout where
  /-- The least exponent of the leading digit that is written positionally. -/
  positionalFrom : Int
  /-- The least exponent of the leading digit that is no longer written positionally. -/
  positionalBelow : Int
  /-- Stands between the digits and the exponent. -/
  exponentMark : String
  /-- Text of a value that is not a number, whatever its sign. -/
  notANumber : String
  /-- Text of the positive infinity. -/
  infinity : String
  deriving Repr

/-- `n` zeros. -/
def zeros (n : Nat) : String := String.ofList (List.replicate n '0')

/-- The digits without an exponent, with at least one digit on each side of the point. -/
def positional (d : Decimal) : String :=
  let digits := toString d.digits
  let count : Int := digits.length
  let point := count + d.exponent
  if 0 ≤ d.exponent then digits ++ zeros d.exponent.toNat ++ ".0"
  else if 0 < point then
    String.ofList (digits.toList.take point.toNat) ++ "."
      ++ String.ofList (digits.toList.drop point.toNat)
  else "0." ++ zeros (-point).toNat ++ digits

/-- One digit before the point, the others behind it if there are any, then the exponent. -/
def scientific (d : Decimal) (mark : String) : String :=
  let digits := (toString d.digits).toList
  let exponent := d.exponent + digits.length - 1
  let rest := digits.drop 1
  let fraction := if rest.isEmpty then "" else "." ++ String.ofList rest
  String.ofList (digits.take 1) ++ fraction ++ mark ++ toString exponent

/-- The text of a magnitude. -/
def Layout.magnitude (layout : Layout) (d : Decimal) : String :=
  let leading := d.exponent + (toString d.digits).length - 1
  if d.digits = 0 ∨ (layout.positionalFrom ≤ leading ∧ leading < layout.positionalBelow) then
    d.positional
  else d.scientific layout.exponentMark

/-- The text of the binary64 value with these bits. -/
def Layout.render (layout : Layout) (bits : UInt64) : String :=
  let exponent := (bits >>> 52) &&& 0x7FF
  let fraction := bits &&& 0xFFFFFFFFFFFFF
  let sign := if bits >>> 63 = 1 then "-" else ""
  if exponent = 0x7FF then
    if fraction = 0 then sign ++ layout.infinity else layout.notANumber
  else sign ++ layout.magnitude (Binary64.ofBits bits).shortest

end OperatorTemplate.Decimal
