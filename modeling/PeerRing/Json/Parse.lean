import PeerRing.Json.Value
import PeerRing.Text.Hex
/-! # Reading JSON text

A strict reader: one value, blanks (space, tab, line feed, carriage return) around tokens and
nothing else after it. Strings may not hold raw controls and their `\u` escapes must pair
surrogates. At most 127 arrays and objects may be open at once.

Numbers keep their kind. A number with neither fraction nor exponent is a whole number when it
fits 64 bits (a negative one down to -2^63); `-0` and larger ones are doubles. A double is built
from the leading digits that fit a 64-bit word, scaled by a table power of ten in one rounded
multiplication or division; a double that comes out infinite is refused, one too small is zero.
-/
namespace PeerRing.Json

def isJsonBlank (c : Char) : Bool := c = ' ' || c = '\n' || c = '\t' || c = '\r'

def skipBlank (cs : List Char) : List Char := cs.dropWhile isJsonBlank

def maxWord : Nat := Nat.pow 2 64 - 1

def maxExponent : Int := Nat.pow 2 31 - 1

def digitValue (c : Char) : Nat := c.toNat - 48

/-- The power of ten `10^k` as the nearest double. -/
def powTen (k : Nat) : Float := Float.ofScientific 1 false k

/-- Scales the significand by `10^exponent`: within 308 in one step, below that by repeated
division by `1e308` (zero stays zero), refusing results that overflow. -/
def scaleTen (fuel : Nat) (f : Float) (exponent : Int) : Option Float :=
  match fuel with
  | 0 => some f
  | fuel + 1 =>
    if exponent.natAbs ≤ 308 then
      if exponent ≥ 0 then
        let g := f * powTen exponent.toNat
        if g.isInf then none else some g
      else some (f / powTen exponent.natAbs)
    else if f == 0 then some f
    else if exponent ≥ 0 then none
    else scaleTen fuel (f / powTen 308) (exponent + 308)

/-- The double `± significand · 10^exponent`. -/
def doubleOfParts (positive : Bool) (significand : Nat) (exponent : Int) : Option Float :=
  (scaleTen 8 significand.toUInt64.toFloat exponent).map fun f => if positive then f else -f

def skipDigits (cs : List Char) : List Char := cs.dropWhile Char.isDigit

/-- An exponent too large for 32 bits: refused when positive and the significand is nonzero,
zero otherwise. -/
def hugeExponent (positive zeroSignificand positiveExp : Bool) (cs : List Char) :
    Option (Float × List Char) :=
  if !zeroSignificand && positiveExp then none
  else some (if positive then 0.0 else -0.0, skipDigits cs)

/-- The digits of an exponent, accumulated in `exp`. -/
def exponentDigits (positive : Bool) (significand : Nat) (start : Int) (positiveExp : Bool)
    (exp : Int) : List Char → Option (Float × List Char)
  | c :: r =>
    if c.isDigit then
      let e := exp * 10 + digitValue c
      if e > maxExponent then hugeExponent positive (significand == 0) positiveExp (c :: r)
      else exponentDigits positive significand start positiveExp e r
    else finish (c :: r)
  | [] => finish []
where
  /-- The exponent is added to the start with saturation at 32 bits. -/
  finish (rest : List Char) : Option (Float × List Char) :=
    let total := if positiveExp then start + exp else start - exp
    let clamped := max (-maxExponent - 1) (min maxExponent total)
    (doubleOfParts positive significand clamped).map fun f => (f, rest)

/-- An exponent part after `e` or `E`: an optional sign and at least one digit. -/
def exponentPart (positive : Bool) (significand : Nat) (start : Int) (cs : List Char) :
    Option (Float × List Char) :=
  let (positiveExp, cs) := match cs with
    | '+' :: r => (true, r)
    | '-' :: r => (false, r)
    | r => (true, r)
  match cs with
  | c :: r =>
    if c.isDigit then exponentDigits positive significand start positiveExp (digitValue c) r
    else none
  | [] => none

/-- What may follow the digits of a number: an exponent part or nothing more. -/
def afterDigits (positive : Bool) (significand : Nat) (exp : Int) :
    List Char → Option (Float × List Char)
  | 'e' :: r => exponentPart positive significand exp r
  | 'E' :: r => exponentPart positive significand exp r
  | r => (doubleOfParts positive significand exp).map fun f => (f, r)

/-- Fraction digits; once the significand is full the remaining digits are dropped. -/
def fractionDigits (positive : Bool) (significand : Nat) (exp : Int) (count : Nat) :
    List Char → Option (Float × List Char)
  | c :: r =>
    if c.isDigit then
      let s := significand * 10 + digitValue c
      if s > maxWord then afterDigits positive significand exp (skipDigits (c :: r))
      else fractionDigits positive s (exp - 1) (count + 1) r
    else if count = 0 then none
    else afterDigits positive significand exp (c :: r)
  | [] => if count = 0 then none else afterDigits positive significand exp []

/-- What may follow the integer digits of a float: a fraction or an exponent. -/
def afterWhole (positive : Bool) (significand : Nat) (exp : Int) :
    List Char → Option (Float × List Char)
  | '.' :: r => fractionDigits positive significand exp 0 r
  | r => afterDigits positive significand exp r

/-- Integer digits beyond a full significand: each one raises the exponent. -/
def longDigits (positive : Bool) (significand : Nat) (exp : Int) :
    List Char → Option (Float × List Char)
  | c :: r =>
    if c.isDigit then longDigits positive significand (exp + 1) r
    else afterWhole positive significand exp (c :: r)
  | [] => afterWhole positive significand exp []

/-- The number read after its integer digits `significand`. -/
def afterInteger (positive : Bool) (significand : Nat) :
    List Char → Option (Number × List Char)
  | '.' :: r => (fractionDigits positive significand 0 0 r).map fun (f, r) => (.double f, r)
  | 'e' :: r => (exponentPart positive significand 0 r).map fun (f, r) => (.double f, r)
  | 'E' :: r => (exponentPart positive significand 0 r).map fun (f, r) => (.double f, r)
  | r =>
    if positive then some (.nat significand, r)
    else if 0 < significand ∧ significand ≤ Nat.pow 2 63 then some (.neg (-(significand : Int)), r)
    else some (.double (-(significand.toUInt64.toFloat)), r)

/-- Integer digits while they fit a 64-bit word. -/
def integerDigits (positive : Bool) (significand : Nat) :
    List Char → Option (Number × List Char)
  | c :: r =>
    if c.isDigit then
      let s := significand * 10 + digitValue c
      if s > maxWord then
        (longDigits positive significand 0 (c :: r)).map fun (f, r) => (.double f, r)
      else integerDigits positive s r
    else afterInteger positive significand (c :: r)
  | [] => afterInteger positive significand []

/-- A number: an optional minus, then `0` or a digit run without leading zero. -/
def parseNumber (cs : List Char) : Option (Number × List Char) :=
  let (positive, cs) := match cs with
    | '-' :: r => (false, r)
    | r => (true, r)
  match cs with
  | '0' :: r =>
    match r with
    | c :: _ => if c.isDigit then none else afterInteger positive 0 r
    | [] => afterInteger positive 0 []
  | c :: r => if c.isDigit then integerDigits positive (digitValue c) r else none
  | [] => none

/-- The number written by four hexadecimal digit characters of a `\u` escape. -/
def hexQuad (a b c d : Char) : Option Nat := do
  let ds ← [a, b, c, d].mapM fun x =>
    if x.toNat < 128 then Text.hexValue x.toNat.toUInt8 else none
  pure (Text.hexNumber ds)

def isHighSurrogate (n : Nat) : Bool := 0xD800 ≤ n && n ≤ 0xDBFF

def isLowSurrogate (n : Nat) : Bool := 0xDC00 ≤ n && n ≤ 0xDFFF

/-- The character of a surrogate pair. -/
def pairChar (hi lo : Nat) : Char :=
  Char.ofNat ((hi - 0xD800) * 0x400 + (lo - 0xDC00) + 0x10000)

/-- The character of a simple escape letter. -/
def simpleEscape : Char → Option Char
  | '"' => some '"'
  | '\\' => some '\\'
  | '/' => some '/'
  | 'b' => some '\x08'
  | 'f' => some '\x0c'
  | 'n' => some '\n'
  | 'r' => some '\r'
  | 't' => some '\t'
  | _ => none

/-- The rest of a string after its opening quote; `acc` holds the characters read, last
first. A `\u` escape of a high surrogate must be followed by one of a low surrogate. -/
def parseString (acc : List Char) : List Char → Option (String × List Char)
  | '"' :: r => some (String.ofList acc.reverse, r)
  | '\\' :: 'u' :: a :: b :: c :: d :: r =>
    match hexQuad a b c d with
    | none => none
    | some n =>
      if isLowSurrogate n then none
      else if isHighSurrogate n then
        match r with
        | '\\' :: 'u' :: e :: f :: g :: h :: r' =>
          match hexQuad e f g h with
          | some m => if isLowSurrogate m then parseString (pairChar n m :: acc) r' else none
          | none => none
        | _ => none
      else parseString (Char.ofNat n :: acc) r
  | '\\' :: e :: r =>
    match simpleEscape e with
    | some c => parseString (c :: acc) r
    | none => none
  | c :: r => if c.toNat < 0x20 then none else parseString (c :: acc) r
  | [] => none

mutual
/-- A value after optional blanks; `fuel` bounds the nesting of calls and `depth` the arrays
and objects that may still be opened. -/
def parseValue (fuel depth : Nat) (cs : List Char) : Option (Value × List Char) :=
  match fuel with
  | 0 => none
  | fuel + 1 =>
    match skipBlank cs with
    | 'n' :: 'u' :: 'l' :: 'l' :: r => some (.null, r)
    | 't' :: 'r' :: 'u' :: 'e' :: r => some (.bool true, r)
    | 'f' :: 'a' :: 'l' :: 's' :: 'e' :: r => some (.bool false, r)
    | '"' :: r => (parseString [] r).map fun (s, r) => (.str s, r)
    | '[' :: r =>
      if depth ≤ 1 then none
      else
        match skipBlank r with
        | ']' :: r' => some (.arr [], r')
        | r' => parseItems fuel (depth - 1) [] r'
    | '\x7b' :: r =>
      if depth ≤ 1 then none
      else
        match skipBlank r with
        | '\x7d' :: r' => some (.obj [], r')
        | r' => parseFields fuel (depth - 1) [] r'
    | c :: r =>
      if c = '-' || c.isDigit then (parseNumber (c :: r)).map fun (n, r) => (.num n, r)
      else none
    | [] => none

/-- Array items after the opening bracket, each followed by a comma or the closing bracket;
`acc` holds the items read, last first. -/
def parseItems (fuel depth : Nat) (acc : List Value) (cs : List Char) :
    Option (Value × List Char) :=
  match fuel with
  | 0 => none
  | fuel + 1 =>
    match parseValue fuel depth cs with
    | none => none
    | some (v, r) =>
      match skipBlank r with
      | ',' :: r' => parseItems fuel depth (v :: acc) r'
      | ']' :: r' => some (.arr (v :: acc).reverse, r')
      | _ => none

/-- Object fields after the opening brace: a string name, a colon and a value, each followed by
a comma or the closing brace; `acc` holds the fields read, last first. -/
def parseFields (fuel depth : Nat) (acc : List (String × Value)) (cs : List Char) :
    Option (Value × List Char) :=
  match fuel with
  | 0 => none
  | fuel + 1 =>
    match skipBlank cs with
    | '"' :: r =>
      match parseString [] r with
      | none => none
      | some (name, r) =>
        match skipBlank r with
        | ':' :: r =>
          match parseValue fuel depth r with
          | none => none
          | some (v, r) =>
            match skipBlank r with
            | ',' :: r' => parseFields fuel depth ((name, v) :: acc) r'
            | '\x7d' :: r' => some (.obj ((name, v) :: acc).reverse, r')
            | _ => none
        | _ => none
    | _ => none
end

/-- Reads a whole text as one JSON value. -/
def parse (cs : List Char) : Option Value :=
  match parseValue (2 * cs.length + 2) 128 cs with
  | some (v, r) => if skipBlank r = [] then some v else none
  | none => none

/-- Reads bytes as one JSON value; they must be UTF-8. -/
def parseBytes (bytes : List UInt8) : Option Value :=
  match String.fromUTF8? (ByteArray.mk bytes.toArray) with
  | some s => parse s.toList
  | none => none

end PeerRing.Json
