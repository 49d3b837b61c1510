/-! # JSON values

A JSON value as the message format and the configuration answers use it. Numbers keep their
kind: a whole number without sign, a negative whole number, a double, or a single (a 32-bit
float, written with the fewest digits that read back as that single). Objects keep their
fields in order; when a name occurs twice the last field counts.
-/
namespace PeerRing.Json

/-- A JSON number with its kind: a whole number without sign, a negative one, or a 64-bit or
32-bit float. -/
inductive Number where
  | nat (n : Nat)
  | neg (n : Int)
  | double (x : Float)
  | single (x : Float32)

/-- A JSON value. -/
inductive Value where
  | null
  | bool (b : Bool)
  | num (n : Number)
  | str (s : String)
  | arr (items : List Value)
  | obj (fields : List (String × Value))

instance : Inhabited Value := ⟨.null⟩

namespace Value

/-- The value of the last field of that name, if the value is an object that has one. -/
def get? (v : Value) (name : String) : Option Value :=
  match v with
  | .obj fields => (fields.reverse.find? (·.1 == name)).map (·.2)
  | _ => none

/-- The text of a string value. -/
def getStr? : Value → Option String
  | .str s => some s
  | _ => none

/-- A whole number without sign. -/
def getNat? : Value → Option Nat
  | .num (.nat n) => some n
  | _ => none

/-- A boolean. -/
def getBool? : Value → Option Bool
  | .bool b => some b
  | _ => none

/-- The items of an array. -/
def getArr? : Value → Option (List Value)
  | .arr items => some items
  | _ => none

/-- The fields of an object, in order, with repeated names kept. -/
def getObj? : Value → Option (List (String × Value))
  | .obj fields => some fields
  | _ => none

def ofNat (n : Nat) : Value := .num (.nat n)

def ofInt (n : Int) : Value := if n < 0 then .num (.neg n) else .num (.nat n.toNat)

def ofStrs (xs : List String) : Value := .arr (xs.map .str)

/-- An optional text, `null` when absent. -/
def ofStrOpt : Option String → Value
  | some s => .str s
  | none => .null

end Value

end PeerRing.Json
