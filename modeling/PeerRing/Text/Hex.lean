import PeerRing.Text.Escape
/-! # Hexadecimal text of bytes

Bytes are written as two lowercase hexadecimal digits each, most significant first. Reading
accepts either case and refuses, in this order: an odd number of characters, a count that does
not match the expected number of bytes, and then the first character that is no hexadecimal
digit, reported with its byte position.
-/
namespace PeerRing.Text

/-- Why a hexadecimal text could not be read. -/
inductive HexError where
  /-- The byte at this position is no hexadecimal digit. -/
  | invalidChar (c : Char) (index : Nat)
  /-- The text has an odd number of bytes. -/
  | oddLength
  /-- The text does not have two characters for each expected byte. -/
  | invalidLength
deriving DecidableEq, Repr

/-- The text of a hexadecimal reading error. -/
def HexError.message : HexError → String
  | .invalidChar c i => "Invalid character " ++ quoteChar c ++ " at position " ++ toString i
  | .oddLength => "Odd number of digits"
  | .invalidLength => "Invalid string length"

/-- The value of a hexadecimal digit byte, of either case. -/
def hexValue (b : UInt8) : Option Nat :=
  let n := b.toNat
  if 48 ≤ n ∧ n ≤ 57 then some (n - 48)
  else if 97 ≤ n ∧ n ≤ 102 then some (n - 87)
  else if 65 ≤ n ∧ n ≤ 70 then some (n - 55)
  else none

/-- The lowercase digit of a number below 16. -/
def hexChar (n : Nat) : Char :=
  if n < 10 then Char.ofNat (48 + n) else Char.ofNat (87 + n)

/-- The number written by a list of hexadecimal digit values, most significant first. -/
def hexNumber (ds : List Nat) : Nat :=
  ds.foldl (fun acc d => acc * 16 + d) 0

/-- Reads the digits of a text that must hold exactly `width` bytes written in hexadecimal,
giving the number they write. -/
def readHexWidth (width : Nat) (data : List UInt8) : Except HexError Nat :=
  if data.length % 2 ≠ 0 then .error .oddLength
  else if data.length / 2 ≠ width then .error .invalidLength
  else
    match data.findIdx? (fun b => (hexValue b).isNone) with
    | some i => .error (.invalidChar (Char.ofNat (data.getD i 0).toNat) i)
    | none => .ok (hexNumber (data.map fun b => (hexValue b).getD 0))

/-- Two lowercase digits for each byte. -/
def hexOfBytes (bytes : List UInt8) : String :=
  String.ofList (bytes.flatMap fun b => [hexChar (b.toNat / 16), hexChar (b.toNat % 16)])

/-- Reads any even number of hexadecimal digits as bytes. -/
def bytesOfHex (s : String) : Option (List UInt8) :=
  let rec go : List Char → Option (List UInt8)
    | [] => some []
    | [_] => none
    | a :: b :: rest => do
      let hi ← hexValue a.toNat.toUInt8
      let lo ← hexValue b.toNat.toUInt8
      if a.toNat < 128 ∧ b.toNat < 128 then
        let tail ← go rest
        pure ((hi * 16 + lo).toUInt8 :: tail)
      else none
  go s.toList

end PeerRing.Text
