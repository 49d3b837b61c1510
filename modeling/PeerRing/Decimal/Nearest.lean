import PeerRing.Decimal.Shortest
/-! # The nearest binary floating point number to a decimal

A decimal `m · 10^e` is read as the floating point number nearest to it, a tie going to the even
significand, as IEEE 754 rounding to nearest prescribes. The binary exponent is found from the
bit lengths of numerator and denominator, the significand is the rounded exact quotient, and a
decimal too large for the format becomes infinity while one below half the least subnormal
becomes zero.

All arithmetic is exact, in natural numbers.
-/
namespace PeerRing.Decimal

def BinaryFormat.bias (fmt : BinaryFormat) : Nat := Nat.pow 2 (fmt.exponentBits - 1) - 1

/-- The bit pattern of positive infinity. -/
def BinaryFormat.infinityBits (fmt : BinaryFormat) : Nat :=
  (Nat.pow 2 fmt.exponentBits - 1) * Nat.pow 2 fmt.fractionBits

/-- `⌊log₂ (n / d)⌋` for positive `n` and `d`. -/
def floorLog2Ratio (n d : Nat) : Int :=
  let l : Int := (n.log2 : Int) - d.log2
  let reaches : Bool := if 0 ≤ l then n ≥ d <<< l.toNat else n <<< (-l).toNat ≥ d
  if reaches then l else l - 1

/-- `n / d` rounded to the nearest natural number, a tie going to the even one. -/
def roundHalfEven (n d : Nat) : Nat :=
  let q := n / d
  let r := n % d
  if 2 * r > d ∨ (2 * r = d ∧ q % 2 = 1) then q + 1 else q

/-- The bit pattern of the number of the format nearest to `n / d`, both positive. -/
def BinaryFormat.nearestRatio (fmt : BinaryFormat) (n d : Nat) : Nat :=
  let p := fmt.fractionBits + 1
  let minQ : Int := 1 - (fmt.bias : Int) - fmt.fractionBits
  let q : Int := max (floorLog2Ratio n d - fmt.fractionBits) minQ
  let sig := if q < 0 then roundHalfEven (n <<< (-q).toNat) d else roundHalfEven n (d <<< q.toNat)
  let (sig, q) := if sig = Nat.pow 2 p then (Nat.pow 2 fmt.fractionBits, q + 1) else (sig, q)
  if sig < Nat.pow 2 fmt.fractionBits then sig
  else
    let biased := q + fmt.fractionBits + fmt.bias
    if biased ≥ Nat.pow 2 fmt.exponentBits - 1 then fmt.infinityBits
    else biased.toNat * Nat.pow 2 fmt.fractionBits + (sig - Nat.pow 2 fmt.fractionBits)

/-- The bit pattern of the number of the format nearest to `m · 10^e`, without sign. -/
def BinaryFormat.nearest (fmt : BinaryFormat) (m : Nat) (e : Int) : Nat :=
  let reach : Int := ((Nat.pow 2 (fmt.exponentBits - 1) + 2 * fmt.fractionBits) * 3 / 10 + 10 : Nat)
  let size : Int := e + decimalLength m
  if m = 0 ∨ size < -reach then 0
  else if size > reach then fmt.infinityBits
  else if 0 ≤ e then fmt.nearestRatio (m * Nat.pow 10 e.toNat) 1
  else fmt.nearestRatio m (Nat.pow 10 (-e).toNat)

/-- The double nearest to `m · 10^e`, negated when `negative`. -/
def nearestDouble (negative : Bool) (m : Nat) (e : Int) : Float :=
  let bits := binary64.nearest m e + if negative then Nat.pow 2 63 else 0
  Float.ofBits bits.toUInt64

end PeerRing.Decimal
