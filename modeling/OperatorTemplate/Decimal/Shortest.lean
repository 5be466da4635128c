/-!
# Shortest decimals

A finite binary64 value is `mantissa · 2^scale`.  The reals that round to it form an interval, its
ends included exactly when the mantissa is even.  `Binary64.shortest` is the decimal with the fewest
digits inside that interval, and of two such decimals the one closer to the value; when both are
equally close, the larger.  Everything is exact arithmetic on naturals.
-/

namespace OperatorTemplate

/-- A finite non-negative binary64 value `mantissa · 2^scale`. -/
structure Binary64 where
  mantissa : Nat
  scale : Int
  /-- The gap to the value below is half the gap to the value above. -/
  narrowBelow : Bool
  deriving DecidableEq, Repr

/-- The magnitude that the bits of a finite value stand for; the sign bit is not read. -/
def Binary64.ofBits (bits : UInt64) : Binary64 :=
  let exponent := ((bits >>> 52) &&& 0x7FF).toNat
  let fraction := (bits &&& 0xFFFFFFFFFFFFF).toNat
  if exponent = 0 then ⟨fraction, -1074, false⟩
  else ⟨Nat.pow 2 52 + fraction, (exponent : Int) - 1075, fraction = 0 ∧ 1 < exponent⟩

/-- The decimal `digits · 10^exponent`. -/
structure Decimal where
  digits : Nat
  exponent : Int
  deriving DecidableEq, Repr

/-- Compares `d` with `n · 2^scale` by clearing all negative powers. -/
def Decimal.compareWith (d : Decimal) (n : Nat) (scale : Int) : Ordering :=
  compare (d.digits * Nat.pow 10 d.exponent.toNat * Nat.pow 2 (-scale).toNat)
    (n * Nat.pow 2 scale.toNat * Nat.pow 10 (-d.exponent).toNat)

/-- `d` lies among the reals that round to `x`: between the halfway points to the neighbours of
`x`, which themselves round to `x` exactly when its mantissa is even. -/
def Binary64.readsBack (x : Binary64) (d : Decimal) : Bool :=
  let low := if x.narrowBelow then 4 * x.mantissa - 1 else 4 * x.mantissa - 2
  let high := 4 * x.mantissa + 2
  let closed := x.mantissa % 2 == 0
  let fromLow := d.compareWith low (x.scale - 2)
  let fromHigh := d.compareWith high (x.scale - 2)
  (fromLow == .gt || (closed && fromLow == .eq)) && (fromHigh == .lt || (closed && fromHigh == .eq))

/-- `⌊x / 10^exponent⌋`. -/
def Binary64.floorOn (x : Binary64) (exponent : Int) : Nat :=
  (x.mantissa * Nat.pow 2 x.scale.toNat * Nat.pow 10 (-exponent).toNat)
    / (Nat.pow 2 (-x.scale).toNat * Nat.pow 10 exponent.toNat)

/-- The decimal closest to `x` on the grid of multiples of `10^exponent` among those that read back.
Only the two grid points around `x` are candidates: if any grid point lies in the interval, so does
one of these. -/
def Binary64.onGrid? (x : Binary64) (exponent : Int) : Option Decimal :=
  let below : Decimal := ⟨x.floorOn exponent, exponent⟩
  let above : Decimal := ⟨x.floorOn exponent + 1, exponent⟩
  match x.readsBack below, x.readsBack above with
  | true, true =>
    -- the value is closer to `below` iff the midpoint of the two lies above the value
    let middle : Decimal := ⟨2 * below.digits + 1, exponent⟩
    if middle.compareWith (2 * x.mantissa) x.scale = .gt then some below else some above
  | true, false => some below
  | false, true => some above
  | false, false => none

/-- The least `k ≥ start` with `x < 10^k`, searched upwards for `steps` steps. -/
def Binary64.leadFrom (x : Binary64) (start : Int) : Nat → Int
  | 0 => start
  | steps + 1 =>
    if (⟨1, start⟩ : Decimal).compareWith x.mantissa x.scale = .gt then start
    else x.leadFrom (start + 1) steps

/-- The least `k` with `x < 10^k`, for a value that is not zero.  With `b` the exponent of its
leading bit, `k` is at least `⌊b · log₁₀ 2⌋`; 1233/4096 underestimates that logarithm by less than
one over the range of exponents. -/
def Binary64.lead (x : Binary64) : Int :=
  let bit := (x.mantissa.log2 : Int) + x.scale
  x.leadFrom (Int.fdiv (bit * 1233) 4096 - 1) 4

/-- `n` without its trailing zeros, and their number; `fuel` bounds the divisions. -/
def Decimal.stripZeros : Nat → Nat → Nat × Nat
  | 0, n => (n, 0)
  | fuel + 1, n =>
    if n ≠ 0 ∧ n % 10 = 0 then
      let (m, zeros) := stripZeros fuel (n / 10)
      (m, zeros + 1)
    else (n, 0)

/-- The same value without trailing zeros in its digits. -/
def Decimal.normalize (d : Decimal) : Decimal :=
  let (digits, zeros) := stripZeros (d.digits.log2 + 1) d.digits
  ⟨digits, d.exponent + zeros⟩

/-- `x` written out exactly. -/
def Binary64.exact (x : Binary64) : Decimal :=
  if x.scale < 0 then ⟨x.mantissa * Nat.pow 5 (-x.scale).toNat, x.scale⟩
  else ⟨x.mantissa * Nat.pow 2 x.scale.toNat, 0⟩

/-- The fewest digits that read back to `x`: grids of one digit, two digits, … are tried in turn.
Seventeen digits always suffice; were they not to, the exact value is the answer. -/
def Binary64.shortest (x : Binary64) : Decimal :=
  if x.mantissa = 0 then ⟨0, 0⟩
  else
    let lead := x.lead
    let grids := (List.range 17).map fun (n : Nat) => lead - 1 - (n : Int)
    ((grids.findSome? x.onGrid?).getD x.exact).normalize

end OperatorTemplate
