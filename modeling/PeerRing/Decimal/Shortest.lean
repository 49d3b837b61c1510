/-! # Shortest decimal digits of binary floating point numbers

A finite binary floating point number stands for the set of reals that round to it: an interval
around its value whose ends belong to it exactly when its significand is even. Its shortest
decimal is the decimal with the fewest significant digits in that interval, and of two such the
one nearer to the value; when the value lies exactly halfway between them, a `Tie` rule picks
one. For each number of digits it suffices to look at the two neighbours of the value on the
decimal grid of that many digits: if any point of the grid lies in the interval, so does one of
them.

All comparisons are exact, in natural numbers.
-/
namespace PeerRing.Decimal

/-- A binary interchange format: its stored fraction bits, exponent bits, and the most
significant decimal digits that its shortest decimals can need. -/
structure BinaryFormat where
  fractionBits : Nat
  exponentBits : Nat
  maxDigits : Nat

def binary64 : BinaryFormat := ⟨52, 11, 17⟩

def binary32 : BinaryFormat := ⟨23, 8, 9⟩

/-- What a bit pattern of a format stands for: not a number, an infinity, or the value
`(-1)^negative · m · 2^q`. -/
inductive Decoded where
  | nan
  | infinite (negative : Bool)
  | finite (negative : Bool) (m : Nat) (q : Int)
deriving Repr

/-- Reads a bit pattern of the format. -/
def BinaryFormat.decode (fmt : BinaryFormat) (bits : Nat) : Decoded :=
  let bias : Int := Nat.pow 2 (fmt.exponentBits - 1) - 1
  let fraction := bits % Nat.pow 2 fmt.fractionBits
  let expField := bits / Nat.pow 2 fmt.fractionBits % Nat.pow 2 fmt.exponentBits
  let negative := bits / Nat.pow 2 (fmt.fractionBits + fmt.exponentBits) % 2 == 1
  if expField = Nat.pow 2 fmt.exponentBits - 1 then
    if fraction = 0 then .infinite negative else .nan
  else if expField = 0 then .finite negative fraction (1 - bias - fmt.fractionBits)
  else .finite negative (fraction + Nat.pow 2 fmt.fractionBits) (expField - bias - fmt.fractionBits)

/-- The exact order of `a · 10^e` and `b · 2^f`. -/
def compareDecBin (a : Nat) (e : Int) (b : Nat) (f : Int) : Ordering :=
  compare (a * Nat.pow 10 e.toNat * Nat.pow 2 (-f).toNat) (b * Nat.pow 2 f.toNat * Nat.pow 10 (-e).toNat)

/-- `⌊m · 2^q / 10^e⌋`. -/
def floorScaled (m : Nat) (q e : Int) : Nat :=
  m * Nat.pow 2 q.toNat * Nat.pow 10 (-e).toNat / (Nat.pow 2 (-q).toNat * Nat.pow 10 e.toNat)

def decimalLength (n : Nat) : Nat := (Nat.toDigits 10 n).length

/-- `⌊log₁₀ (m · 2^q)⌋` for `m > 0`. -/
def decimalExponent (m : Nat) (q : Int) : Int :=
  let whole := floorScaled m q 0
  if whole > 0 then (decimalLength whole : Int) - 1
  else
    -- the least `j` with `m · 10^j ≥ 2^(-q)`
    let need := (Nat.pow 2 (-q).toNat + m - 1) / m
    (0 : Int) - decimalLength (need - 1)

/-- The rounding interval of `m · 2^q` in quarter units of `2^q`: its low end, its high end,
and whether the ends belong to it. The low side is half as wide at the bottom of a binade. -/
structure Interval where
  low : Nat
  high : Nat
  closed : Bool

/-- The interval of reals that round to `m · 2^q`; `lowerBoundary` marks the bottom of a
binade above the smallest exponent. -/
def roundingInterval (m : Nat) (lowerBoundary : Bool) : Interval :=
  ⟨4 * m - (if lowerBoundary then 1 else 2), 4 * m + 2, m % 2 == 0⟩

/-- Whether `d · 10^e` lies in the interval, whose ends are in units of `2^(q-2)`. -/
def Interval.contains (iv : Interval) (q : Int) (d : Nat) (e : Int) : Bool :=
  let lo := compareDecBin d e iv.low (q - 2)
  let hi := compareDecBin d e iv.high (q - 2)
  let aboveLow := lo == .gt || (iv.closed && lo == .eq)
  let belowHigh := hi == .lt || (iv.closed && hi == .eq)
  aboveLow && belowHigh

/-- How a value exactly halfway between its two shortest decimals is written: as the one whose
last digit is even, or as the larger. -/
inductive Tie where
  | even
  | up

abbrev Digits := Nat × Int

/-- Of the two grid neighbours `lo · 10^e` and `(lo + 1) · 10^e` of `m · 2^q`, the ones in the
interval; when both are, the nearer, and on a tie the one the rule picks. -/
def pickNeighbour (tie : Tie) (iv : Interval) (m : Nat) (q : Int) (lo : Nat) (e : Int) :
    Option Digits :=
  let inLo := iv.contains q lo e
  let inHi := iv.contains q (lo + 1) e
  if inLo && inHi then
    match compareDecBin (2 * lo + 1) e (2 * m) q with
    | .gt => some (lo, e)
    | .lt => some (lo + 1, e)
    | .eq =>
      match tie with
      | .even => if lo % 2 == 0 then some (lo, e) else some (lo + 1, e)
      | .up => some (lo + 1, e)
  else if inLo then some (lo, e)
  else if inHi then some (lo + 1, e)
  else none

/-- The shortest decimal of the positive value `m · 2^q`, trying 1 up to `maxDigits` digits;
with more digits than that the value itself is written. -/
def shortestOf (tie : Tie) (maxDigits : Nat) (m : Nat) (q : Int) (lowerBoundary : Bool) :
    Digits :=
  let iv := roundingInterval m lowerBoundary
  let k := decimalExponent m q
  let tries := (List.range maxDigits).filterMap fun (i : Nat) =>
    let e := k - (i : Int)
    pickNeighbour tie iv m q (floorScaled m q e) e
  match tries.head? with
  | some d => d
  | none =>
    let e := k - (maxDigits : Int)
    (floorScaled m q e, e)

/-- Removes trailing zero digits, raising the exponent. -/
def trimZeros (fuel : Nat) (d : Digits) : Digits :=
  match fuel with
  | 0 => d
  | fuel + 1 => if d.1 > 0 ∧ d.1 % 10 = 0 then trimZeros fuel (d.1 / 10, d.2 + 1) else d

/-- The shortest decimal digits of a finite nonzero value of the format, given its significand
and exponent, a tie broken by the rule. -/
def BinaryFormat.shortest (fmt : BinaryFormat) (tie : Tie) (m : Nat) (q : Int) : Digits :=
  let bias : Int := Nat.pow 2 (fmt.exponentBits - 1) - 1
  let lowerBoundary := m == Nat.pow 2 fmt.fractionBits && q > 1 - bias - fmt.fractionBits
  let d := shortestOf tie fmt.maxDigits m q lowerBoundary
  trimZeros (decimalLength d.1) d

end PeerRing.Decimal
