import PeerRing.Text.Grapheme
/-! # Quoted diagnostic text

Error messages quote the text they complain about: between quotes, with a backslash before the
quote and the backslash, short escapes for NUL, tab, line feed and carriage return, and
`\u{hex}` for characters that are not printable or that would attach to the character before
them (grapheme extenders).
-/
namespace PeerRing.Text

/-- Lowercase hexadecimal digits of a number, without leading zeros. -/
def hexDigits (n : Nat) : List Char :=
  Nat.toDigits 16 n

/-- The escape written for one character; `quote` is the quote character around the text. -/
def escapeChar (quote : Char) (c : Char) : List Char :=
  if c = '\x00' then ['\\', '0']
  else if c = '\t' then ['\\', 't']
  else if c = '\r' then ['\\', 'r']
  else if c = '\n' then ['\\', 'n']
  else if c = '\\' || c = quote then ['\\', c]
  else if isGraphemeExtend c || !isPrintable c then
    ['\\', 'u', '\x7b'] ++ hexDigits c.toNat ++ ['\x7d']
  else [c]

/-- A text between double quotes, each character escaped. -/
def quoteText (s : String) : String :=
  String.ofList ('"' :: (s.toList.flatMap (escapeChar '"')) ++ ['"'])

/-- A character between single quotes, escaped. -/
def quoteChar (c : Char) : String :=
  String.ofList ('\'' :: escapeChar '\'' c ++ ['\''])

end PeerRing.Text
