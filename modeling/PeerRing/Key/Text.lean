import PeerRing.Key.Basic
import PeerRing.Text.Blank
import PeerRing.Text.Hex
/-! # Key text

A key is written as its 40 lowercase hexadecimal digits. Reading is more lenient: blanks around
the text are dropped, then one leading `0x`, and a shorter text stands for the key with that
many trailing digits (zeros are put in front). A text of more than 40 bytes is refused by its
length before any digit is looked at; otherwise the padded text must be 40 hexadecimal digits.
-/
namespace PeerRing

open Text

/-- Why a text is no key. -/
inductive KeyError where
  /-- The text, after trimming and dropping `0x`, has this many bytes, more than 40. -/
  | tooLong (bytes : Nat)
  /-- The padded text is not 40 hexadecimal digits. -/
  | invalidHex (e : HexError)
deriving DecidableEq, Repr

/-- The text of a key reading error. -/
def KeyError.message : KeyError → String
  | .tooLong n => "key string has " ++ toString n ++ " hex digits, at most 40 allowed"
  | .invalidHex e => "invalid hex in key string: " ++ e.message

namespace Key

/-- The key's 40 lowercase hexadecimal digits, most significant first. -/
def toHex (k : Key) : String :=
  String.ofList ((List.range digits).map fun i => hexChar (k.digit i))

instance : ToString Key := ⟨toHex⟩

/-- The UTF-8 bytes of a list of characters. -/
def utf8Bytes (cs : List Char) : List UInt8 :=
  cs.flatMap String.utf8EncodeChar

/-- The characters of a key text that carry digits: blanks trimmed, then one `0x` dropped. -/
def hexBody (s : String) : List Char :=
  match trimBlankList s.toList with
  | '0' :: 'x' :: rest => rest
  | cs => cs

/-- Reads a key text. -/
def ofHex (s : String) : Except KeyError Key :=
  let body := hexBody s
  let bytes := utf8Bytes body
  if bytes.length > digits then .error (.tooLong bytes.length)
  else
    let padded := List.replicate (digits - body.length) (48 : UInt8) ++ bytes
    match readHexWidth 20 padded with
    | .ok n => .ok (ofNat n)
    | .error e => .error (.invalidHex e)

/-- The key of a 32-bit number: its last eight digits. -/
def ofU32 (n : UInt32) : Key := ofNat n.toNat

end Key

end PeerRing
