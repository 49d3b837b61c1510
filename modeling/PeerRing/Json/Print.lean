import PeerRing.Json.Value
import PeerRing.Decimal.Text
import PeerRing.Text.Hex
/-! # Compact JSON text

Values are written without any blank. In strings the quote and the backslash are escaped, the
controls backspace, form feed, line feed, carriage return and tab have their short escapes,
the other controls below 0x20 are written `\u00XX` with lowercase digits, and every other
character, delete and non-ASCII ones included, is written as it is. Floats are written with
their shortest digits; a float that is not finite is written `null`.
-/
namespace PeerRing.Json

open Text

/-- The escape of one character inside a JSON string. -/
def escapeChar (c : Char) : List Char :=
  if c = '"' then ['\\', '"']
  else if c = '\\' then ['\\', '\\']
  else if c = '\n' then ['\\', 'n']
  else if c = '\r' then ['\\', 'r']
  else if c = '\t' then ['\\', 't']
  else if c = '\x08' then ['\\', 'b']
  else if c = '\x0c' then ['\\', 'f']
  else if c.toNat < 0x20 then
    ['\\', 'u', '0', '0', hexChar (c.toNat / 16), hexChar (c.toNat % 16)]
  else [c]

/-- A JSON string literal. -/
def quote (s : String) : String :=
  String.ofList ('"' :: s.toList.flatMap escapeChar ++ ['"'])

/-- The text of a number. -/
def Number.render : Number → String
  | .nat n => toString n
  | .neg n => toString n
  | .double x => if x.isFinite then Decimal.doubleJsonText x else "null"
  | .single x => if x.isFinite then Decimal.singleText x else "null"

mutual
/-- The compact text of a value. -/
def Value.render : Value → String
  | .null => "null"
  | .bool b => if b then "true" else "false"
  | .num n => n.render
  | .str s => quote s
  | .arr items => "[" ++ renderItems items ++ "]"
  | .obj fields => "\x7b" ++ renderFields fields ++ "\x7d"

/-- Array items separated by commas. -/
def renderItems : List Value → String
  | [] => ""
  | [v] => v.render
  | v :: rest => v.render ++ "," ++ renderItems rest

/-- Object fields separated by commas. -/
def renderFields : List (String × Value) → String
  | [] => ""
  | [(k, v)] => quote k ++ ":" ++ v.render
  | (k, v) :: rest => quote k ++ ":" ++ v.render ++ "," ++ renderFields rest
end

mutual
/-- The same value with the fields of every object ordered by name, the canonical form two
values are compared and sorted by. -/
def Value.sortKeys : Value → Value
  | .arr items => .arr (sortKeysItems items)
  | .obj fields => .obj ((sortKeysFields fields).mergeSort fun a b => !(b.1 < a.1))
  | v => v

/-- Array items in canonical form. -/
def sortKeysItems : List Value → List Value
  | [] => []
  | v :: rest => v.sortKeys :: sortKeysItems rest

/-- Field values in canonical form. -/
def sortKeysFields : List (String × Value) → List (String × Value)
  | [] => []
  | (k, v) :: rest => (k, v.sortKeys) :: sortKeysFields rest
end

def Value.canonical (v : Value) : String := v.sortKeys.render

end PeerRing.Json
