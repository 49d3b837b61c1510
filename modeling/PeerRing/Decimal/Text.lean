import PeerRing.Decimal.Shortest
/-! # Text of floating point numbers

Numbers are written with their shortest decimal digits, either positionally (`0.001`, `1.5`,
`100.0`, always with a fractional part) or in scientific form (`1e21`, `1.5e-7`, with no `+`
and no leading zeros in the exponent). The diagnostic text is positional from `1e-4` up to
below `1e16` and for zero, scientific elsewhere. A negative sign is written also for `-0.0`;
not-a-number and the infinities are `NaN`, `inf` and `-inf`.

The diagnostic text rounds a value halfway between two shortest decimals up; JSON text rounds
it to the even one.
-/
namespace PeerRing.Decimal

/-- The digits of a decimal `d · 10^e`, with the position of the decimal point counted from the
left end of the digits (so the value is `0.ds · 10^point`). -/
def pointed (d : Digits) : List Char × Int :=
  let ds := Nat.toDigits 10 d.1
  (ds, d.2 + ds.length)

/-- Positional text with at least one fractional digit. -/
def positional (d : Digits) : String :=
  let (ds, p) := pointed d
  if p ≤ 0 then
    "0." ++ String.ofList (List.replicate p.natAbs '0' ++ ds)
  else if p.toNat < ds.length then
    String.ofList (ds.take p.toNat) ++ "." ++ String.ofList (ds.drop p.toNat)
  else
    String.ofList (ds ++ List.replicate (p.toNat - ds.length) '0') ++ ".0"

/-- Scientific text: the first digit, the others after a point if there are any, then `e` and
the exponent. -/
def scientific (d : Digits) : String :=
  let (ds, p) := pointed d
  let mantissa := match ds with
    | [] => "0"
    | [c] => String.singleton c
    | c :: rest => String.singleton c ++ "." ++ String.ofList rest
  mantissa ++ "e" ++ toString (p - 1)

/-- The text of a number of the format, given its bits and the rule for ties; `scientificRange`
says for a nonzero finite magnitude whether it is written in scientific form. -/
def floatText (fmt : BinaryFormat) (tie : Tie) (bits : Nat) (scientificRange : Bool) : String :=
  match fmt.decode bits with
  | .nan => "NaN"
  | .infinite neg => if neg then "-inf" else "inf"
  | .finite neg m q =>
    let sign := if neg then "-" else ""
    if m = 0 then sign ++ "0.0"
    else
      let d := fmt.shortest tie m q
      sign ++ (if scientificRange then scientific d else positional d)

/-- The diagnostic text of a double. -/
def doubleText (x : Float) : String :=
  let a := x.abs
  floatText binary64 .up x.toBits.toNat ((a != 0 && a < 1e-4) || a ≥ 1e16)

/-- The diagnostic text of a single; the bounds of the positional range are singles too. -/
def singleText (x : Float32) : String :=
  let a := x.abs
  floatText binary32 .up x.toBits.toNat ((a != 0 && a < 1e-4) || a ≥ 1e16)

/-- The JSON text of a double. -/
def doubleJsonText (x : Float) : String :=
  let a := x.abs
  floatText binary64 .even x.toBits.toNat ((a != 0 && a < 1e-4) || a ≥ 1e16)

end PeerRing.Decimal
