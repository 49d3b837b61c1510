import PeerRing.Toml.Value
import PeerRing.Decimal.Nearest
/-! # TOML keys, strings and scalars

The pieces of TOML text below the level of arrays and tables, following TOML 1.0:

* blanks are spaces and tabs; a line ends with a line feed or a carriage return and line feed;
* a comment runs from `#` to the end of the line and holds no control character but tab;
* a key is bare (ASCII letters, digits, `-` and `_`) or a one-line quoted string; a dotted key
  is keys joined by dots, with blanks allowed around them, and has fewer parts than
  `nestingLimit`;
* basic strings know the escapes `\b \t \n \f \r \" \\ \uXXXX \UXXXXXXXX`, the last two naming a
  Unicode scalar value; literal strings have no escapes; in a multi-line string a first line
  break is dropped, one or two quotes may end the content, and in a basic one a backslash at
  the end of a line drops the line break and the blanks after it;
* an integer is decimal without leading zeros, or hexadecimal, octal or binary after `0x`, `0o`
  or `0b` without sign, with single underscores between digits, and within 64-bit range;
* a float is a decimal integer part with a fraction, an exponent or both, or `inf` or `nan`,
  each with an optional sign, read as the nearest double; a decimal too large for a double is
  refused when it is positive, and read as minus infinity when it is negative;
* a date is `YYYY-MM-DD` with a day that exists; a time is `HH:MM:SS` with optional fraction,
  seconds up to 60; a date and time are joined by `T`, `t` or a blank, and may carry `Z` or an
  offset `±HH:MM`.
-/
namespace PeerRing.Toml

abbrev Input := List Char

/-- The bound on the parts of a dotted key and on the nesting of arrays and inline tables: keys
and values that reach it are refused, which bounds how deep a reader recurses. -/
def nestingLimit : Nat := 80

/-- A step reads a prefix of the input and gives what it read and the rest, or fails. -/
abbrev Step (α : Type) := Input → Option (α × Input)

def isBlank (c : Char) : Bool := c == ' ' || c == '\t'

def skipBlank (s : Input) : Input := s.dropWhile isBlank

def isCommentChar (c : Char) : Bool := c == '\t' || (c.toNat ≥ 0x20 && c.toNat != 0x7f)

/-- Reads the rest of a line: blanks, an optional comment and the line end, or the end of the
text. -/
def lineEnd (s : Input) : Option Input :=
  let s := skipBlank s
  let s := match s with
    | '#' :: r => r.dropWhile isCommentChar
    | r => r
  match s with
  | [] => some []
  | '\n' :: r => some r
  | '\r' :: '\n' :: r => some r
  | _ => none

/-- Skips blanks, line ends and comments, as between array items; `inComment` while inside a
comment. Fails on a character a comment may not hold. -/
def skipGap (inComment : Bool) : Input → Option Input
  | '\n' :: r => skipGap false r
  | '\r' :: '\n' :: r => skipGap false r
  | [] => some []
  | c :: r =>
    if inComment then (if isCommentChar c then skipGap true r else none)
    else if isBlank c then skipGap false r
    else if c == '#' then skipGap true r
    else some (c :: r)

/-- The value of a hexadecimal digit. -/
def hexValue (c : Char) : Option Nat :=
  if c.isDigit then some (c.toNat - '0'.toNat)
  else if 'a' ≤ c ∧ c ≤ 'f' then some (c.toNat - 'a'.toNat + 10)
  else if 'A' ≤ c ∧ c ≤ 'F' then some (c.toNat - 'A'.toNat + 10)
  else none

/-- The number written by hexadecimal digits. -/
def hexNumber (cs : List Char) : Option Nat :=
  cs.foldlM (fun n c => (hexValue c).map (n * 16 + ·)) 0

/-- The character of a Unicode scalar value. -/
def scalarChar (n : Nat) : Option Char :=
  if n < 0xd800 ∨ (0xdfff < n ∧ n < 0x110000) then some (Char.ofNat n) else none

/-- The character of an escape, read after its backslash. -/
def escape : Step Char
  | 'b' :: r => some ('\x08', r)
  | 't' :: r => some ('\t', r)
  | 'n' :: r => some ('\n', r)
  | 'f' :: r => some ('\x0c', r)
  | 'r' :: r => some ('\r', r)
  | '"' :: r => some ('"', r)
  | '\\' :: r => some ('\\', r)
  | 'u' :: a :: b :: c :: d :: r => do
    let c ← scalarChar (← hexNumber [a, b, c, d])
    return (c, r)
  | 'U' :: a :: b :: c :: d :: e :: f :: g :: h :: r => do
    let c ← scalarChar (← hexNumber [a, b, c, d, e, f, g, h])
    return (c, r)
  | _ => none

/-- Whether a character stands for itself in a basic string. -/
def isBasicChar (c : Char) : Bool :=
  isBlank c || c == '!' || (0x23 ≤ c.toNat && c.toNat ≤ 0x5b) ||
    (0x5d ≤ c.toNat && c.toNat ≤ 0x7e) || c.toNat ≥ 0x80

/-- Whether a character may stand in a literal string. -/
def isLiteralChar (c : Char) : Bool :=
  c == '\t' || (0x20 ≤ c.toNat && c.toNat ≤ 0x26) || (0x28 ≤ c.toNat && c.toNat ≤ 0x7e) ||
    c.toNat ≥ 0x80

/-- The content of a one-line basic string up to its closing quote; `acc` holds what was read,
last first. -/
def basicBody (acc : List Char) : Input → Option (String × Input)
  | '"' :: r => some (String.ofList acc.reverse, r)
  | '\\' :: 'b' :: r => basicBody ('\x08' :: acc) r
  | '\\' :: 't' :: r => basicBody ('\t' :: acc) r
  | '\\' :: 'n' :: r => basicBody ('\n' :: acc) r
  | '\\' :: 'f' :: r => basicBody ('\x0c' :: acc) r
  | '\\' :: 'r' :: r => basicBody ('\r' :: acc) r
  | '\\' :: '"' :: r => basicBody ('"' :: acc) r
  | '\\' :: '\\' :: r => basicBody ('\\' :: acc) r
  | '\\' :: 'u' :: a :: b :: c :: d :: r =>
    match (hexNumber [a, b, c, d]).bind scalarChar with
    | some ch => basicBody (ch :: acc) r
    | none => none
  | '\\' :: 'U' :: a :: b :: c :: d :: e :: f :: g :: h :: r =>
    match (hexNumber [a, b, c, d, e, f, g, h]).bind scalarChar with
    | some ch => basicBody (ch :: acc) r
    | none => none
  | c :: r => if isBasicChar c then basicBody (c :: acc) r else none
  | [] => none

/-- The content of a one-line literal string up to its closing quote. -/
def literalBody (acc : List Char) : Input → Option (String × Input)
  | '\'' :: r => some (String.ofList acc.reverse, r)
  | c :: r => if isLiteralChar c then literalBody (c :: acc) r else none
  | [] => none

/-- Drops blanks and line ends. -/
def skipBlankLines : Input → Input
  | ' ' :: r => skipBlankLines r
  | '\t' :: r => skipBlankLines r
  | '\n' :: r => skipBlankLines r
  | '\r' :: '\n' :: r => skipBlankLines r
  | r => r

/-- After a backslash in a multi-line basic string: if only blanks follow up to the line end,
the rest after all blanks and line ends that follow. -/
def lineContinuation (s : Input) : Option Input :=
  match skipBlank s with
  | '\n' :: r => some (skipBlankLines r)
  | '\r' :: '\n' :: r => some (skipBlankLines r)
  | _ => none

/-- Drops the line break right after an opening delimiter. -/
def dropFirstBreak : Input → Input
  | '\n' :: r => r
  | '\r' :: '\n' :: r => r
  | r => r

/-- The content of a multi-line basic string up to its closing delimiter. -/
def mlBasicBody : Nat → List Char → Input → Option (String × Input)
  | 0, _, _ => none
  | _ + 1, acc, '"' :: '"' :: '"' :: '"' :: '"' :: r => some (String.ofList ('"' :: '"' :: acc).reverse, r)
  | _ + 1, acc, '"' :: '"' :: '"' :: '"' :: r => some (String.ofList ('"' :: acc).reverse, r)
  | _ + 1, acc, '"' :: '"' :: '"' :: r => some (String.ofList acc.reverse, r)
  | fuel + 1, acc, '\\' :: r =>
    match lineContinuation r with
    | some r => mlBasicBody fuel acc r
    | none =>
      match escape r with
      | some (c, r) => mlBasicBody fuel (c :: acc) r
      | none => none
  | fuel + 1, acc, '\n' :: r => mlBasicBody fuel ('\n' :: acc) r
  | fuel + 1, acc, '\r' :: '\n' :: r => mlBasicBody fuel ('\n' :: acc) r
  | fuel + 1, acc, c :: r =>
    if c == '"' || isBasicChar c then mlBasicBody fuel (c :: acc) r else none
  | _ + 1, _, [] => none

/-- The content of a multi-line literal string up to its closing delimiter. -/
def mlLiteralBody (acc : List Char) : Input → Option (String × Input)
  | '\'' :: '\'' :: '\'' :: '\'' :: '\'' :: r => some (String.ofList ('\'' :: '\'' :: acc).reverse, r)
  | '\'' :: '\'' :: '\'' :: '\'' :: r => some (String.ofList ('\'' :: acc).reverse, r)
  | '\'' :: '\'' :: '\'' :: r => some (String.ofList acc.reverse, r)
  | '\n' :: r => mlLiteralBody ('\n' :: acc) r
  | '\r' :: '\n' :: r => mlLiteralBody ('\n' :: acc) r
  | c :: r => if c == '\'' || isLiteralChar c then mlLiteralBody (c :: acc) r else none
  | [] => none

def isBareKeyChar (c : Char) : Bool := c.isAlphanum || c == '-' || c == '_'

/-- One key: bare, or a one-line quoted string. -/
def simpleKey : Step String
  | '"' :: r => basicBody [] r
  | '\'' :: r => literalBody [] r
  | s =>
    let k := s.takeWhile isBareKeyChar
    if k.isEmpty then none else some (String.ofList k, s.drop k.length)

/-- The further parts of a dotted key. -/
def keyParts : Nat → List String → Step (List String)
  | 0, _, _ => none
  | fuel + 1, acc, s =>
    match skipBlank s with
    | '.' :: r => do
      let (k, r) ← simpleKey (skipBlank r)
      keyParts fuel (acc ++ [k]) r
    | _ => some (acc, s)

/-- A possibly dotted key, as its parts; none if it has `nestingLimit` parts or more. -/
def dottedKey (s : Input) : Option (List String × Input) := do
  let (k, r) ← simpleKey s
  let (ks, r) ← keyParts r.length [k] r
  if ks.length ≥ nestingLimit then none else some (ks, r)

/-! ## Numbers, booleans, dates and times -/

/-- Whether a character may stand in a number, a boolean, a date or a time. -/
def isTokenChar (c : Char) : Bool :=
  c.isAlphanum || c == '_' || c == '+' || c == '-' || c == '.' || c == ':'

/-- Digits with single underscores between them, without the underscores; none if the text is
not of that form. -/
def underscored (isDigit : Char → Bool) (cs : List Char) : Option (List Char) :=
  let parts := (String.ofList cs).splitOn "_"
  if parts.all fun p => !p.isEmpty && p.toList.all isDigit then some (parts.flatMap (·.toList))
  else none

/-- The number written by digits in a base. -/
def digitsValue (base : Nat) (cs : List Char) : Nat :=
  cs.foldl (fun n c => n * base + ((hexValue c).getD 0)) 0

/-- The digits of a decimal integer without sign: a single zero, or no leading zero. -/
def decimalDigits (cs : List Char) : Option (List Char) := do
  let ds ← underscored Char.isDigit cs
  if ds.length > 1 ∧ ds.head? = some '0' then none else some ds

/-- Splits off a leading sign; true if negative. -/
def splitSign : List Char → Bool × List Char
  | '-' :: r => (true, r)
  | '+' :: r => (false, r)
  | r => (false, r)

def intMax : Nat := Nat.pow 2 63 - 1

/-- An integer in 64-bit range. -/
def boundedInt (negative : Bool) (n : Nat) : Option Int :=
  if negative then (if n ≤ intMax + 1 then some (-(n : Int)) else none)
  else if n ≤ intMax then some n else none

/-- An integer written in a base after its prefix. -/
def radixInt (base : Nat) (isDigit : Char → Bool) (cs : List Char) : Option Value := do
  let ds ← underscored isDigit cs
  let n ← boundedInt false (digitsValue base ds)
  return .int n

/-- A decimal integer or float. -/
def decimalNumber (cs : List Char) : Option Value := do
  let (negative, body) := splitSign cs
  let (mantissa, exponent) := body.span fun c => c != 'e' && c != 'E'
  let (whole, fraction) := mantissa.span (· != '.')
  let wholeDigits ← decimalDigits whole
  match fraction, exponent with
  | [], [] => return .int (← boundedInt negative (digitsValue 10 wholeDigits))
  | _, _ =>
    let fracDigits ← match fraction with
      | [] => some []
      | _ :: fs => underscored Char.isDigit fs
    let expValue : Int ← match exponent with
      | [] => some 0
      | _ :: es =>
        let (expNegative, expBody) := splitSign es
        let ds ← underscored Char.isDigit expBody
        let n : Int := digitsValue 10 ds
        some (if expNegative then -n else n)
    let m := digitsValue 10 (wholeDigits ++ fracDigits)
    let x := Decimal.nearestDouble negative m (expValue - fracDigits.length)
    if x.isInf && !negative then none else return .float x

/-- Exactly `n` decimal digits, as their number. -/
def fixedDigits (n : Nat) (s : Input) : Option (Nat × Input) :=
  let ds := s.take n
  if ds.length = n ∧ ds.all Char.isDigit then some (digitsValue 10 ds, s.drop n) else none

/-- Reads one expected character. -/
def expect (c : Char) : Input → Option Input
  | d :: r => if c = d then some r else none
  | [] => none

def isLeapYear (y : Nat) : Bool := y % 4 == 0 && (y % 100 != 0 || y % 400 == 0)

/-- The number of days of a month. -/
def daysInMonth (y m : Nat) : Nat :=
  if m = 2 then (if isLeapYear y then 29 else 28)
  else if m = 4 ∨ m = 6 ∨ m = 9 ∨ m = 11 then 30 else 31

/-- A date `YYYY-MM-DD`. -/
def fullDate (s : Input) : Option Input := do
  let (y, s) ← fixedDigits 4 s
  let s ← expect '-' s
  let (m, s) ← fixedDigits 2 s
  let s ← expect '-' s
  let (d, s) ← fixedDigits 2 s
  if 1 ≤ m ∧ m ≤ 12 ∧ 1 ≤ d ∧ d ≤ daysInMonth y m then some s else none

/-- A time `HH:MM:SS` with an optional fraction of a second. -/
def partialTime (s : Input) : Option Input := do
  let (h, s) ← fixedDigits 2 s
  let s ← expect ':' s
  let (m, s) ← fixedDigits 2 s
  let s ← expect ':' s
  let (sec, s) ← fixedDigits 2 s
  if h ≤ 23 ∧ m ≤ 59 ∧ sec ≤ 60 then
    match s with
    | '.' :: r =>
      let ds := r.takeWhile Char.isDigit
      if ds.isEmpty then none else some (r.drop ds.length)
    | _ => some s
  else none

/-- A time offset: `Z` or `±HH:MM`. -/
def timeOffset : Input → Option Input
  | 'Z' :: r => some r
  | 'z' :: r => some r
  | c :: s =>
    if c = '+' ∨ c = '-' then do
      let (h, s) ← fixedDigits 2 s
      let s ← expect ':' s
      let (m, s) ← fixedDigits 2 s
      if h ≤ 23 ∧ m ≤ 59 then some s else none
    else none
  | [] => none

/-- Whether a text is a date, a time, or a date and time. -/
def isDateTime (cs : List Char) : Bool :=
  match fullDate cs with
  | some [] => true
  | some (d :: r) =>
    (d == 'T' || d == 't' || d == ' ') &&
      match partialTime r with
      | some [] => true
      | some rest => timeOffset rest == some []
      | none => false
  | none => partialTime cs == some []

/-- The value a number, boolean, date or time text stands for. -/
def scalarOfText (cs : List Char) : Option Value :=
  match cs with
  | ['t', 'r', 'u', 'e'] => some (.bool true)
  | ['f', 'a', 'l', 's', 'e'] => some (.bool false)
  | ['i', 'n', 'f'] | ['+', 'i', 'n', 'f'] => some (.float (1.0 / 0.0))
  | ['-', 'i', 'n', 'f'] => some (.float (-1.0 / 0.0))
  | ['n', 'a', 'n'] | ['+', 'n', 'a', 'n'] => some (.float (0.0 / 0.0))
  | ['-', 'n', 'a', 'n'] => some (.float (-(0.0 / 0.0)))
  | '0' :: 'x' :: ds => radixInt 16 (fun c => (hexValue c).isSome) ds
  | '0' :: 'o' :: ds => radixInt 8 (fun c => '0' ≤ c ∧ c ≤ '7') ds
  | '0' :: 'b' :: ds => radixInt 2 (fun c => c = '0' ∨ c = '1') ds
  | _ => if isDateTime cs then some (.datetime (String.ofList cs)) else decimalNumber cs

/-- A number, boolean, date or time. A date followed by a blank and a time is one value. -/
def scalar (s : Input) : Option (Value × Input) :=
  let tok := s.takeWhile isTokenChar
  let rest := s.drop tok.length
  let (tok, rest) := match fullDate tok, rest with
    | some [], ' ' :: r =>
      let time := r.takeWhile isTokenChar
      if (partialTime time).isSome then (tok ++ ' ' :: time, r.drop time.length) else (tok, rest)
    | _, _ => (tok, rest)
  if tok.isEmpty then none else (scalarOfText tok).map (·, rest)

end PeerRing.Toml
