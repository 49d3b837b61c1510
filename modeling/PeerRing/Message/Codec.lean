import PeerRing.Message.Basic
import PeerRing.Json.Parse
import PeerRing.Json.Print
/-! # The JSON form of messages

A message is written as the object `{"kind":code,"source":key,"destination":key,"args":[…]}`;
an argument as `{"type":tag,"value":…}` with the tags `addr`, `addr_list` and `str`; a host
address as `{"key":…,"addr":…}`. Keys are 40 hexadecimal digits, socket addresses their
usual text.

Reading is more lenient than writing. Fields may come in any order, unknown fields are ignored,
and of repeated fields the last counts. A record may also be given as an array of its fields in
order, with exactly as many items as it has fields; so may an argument, as `[tag, value]`. In
the object form of an argument the tag may also be written as an object with the tag as its
only field, holding null, such as `{"addr":null}`. Keys are read as key text, so `" 0xFF "` and `""` are keys.

Decoding a body reads it as JSON, then requires a `kind` that is a whole number of at most 64
bits, refuses a code that is not one of the seven, reads the message and checks it against its
schema, in this order.
-/
namespace PeerRing.Message

open Json Net

/-- The JSON form of a host address. -/
def nodeAddrJson (a : NodeAddr) : Value :=
  .obj [("key", .str a.key.toHex), ("addr", .str a.addr.toText)]

/-- The JSON form of an argument. -/
def Arg.toJson : Arg → Value
  | .addr a => .obj [("type", .str "addr"), ("value", nodeAddrJson a)]
  | .addrList as => .obj [("type", .str "addr_list"), ("value", .arr (as.map nodeAddrJson))]
  | .str s => .obj [("type", .str "str"), ("value", .str s)]

end Message

namespace Message

open Json Net

/-- The JSON form of a message. -/
def toJson (m : Message) : Value :=
  .obj [("kind", .ofNat m.kind.code), ("source", .str m.source.toHex),
    ("destination", .str m.destination.toHex), ("args", .arr (m.args.map Arg.toJson))]

def encodeText (m : Message) : String := m.toJson.render

/-- The bytes of a message body: the UTF-8 of its compact JSON text. -/
def encode (m : Message) : List UInt8 := m.encodeText.toUTF8.toList

/-- The fields of a record, given either as an object with these names or as an array with
exactly one item per field, in order. -/
def recordFields (names : List String) (v : Value) : Option (List Value) :=
  match v with
  | .obj _ => names.mapM v.get?
  | .arr items => if items.length = names.length then some items else none
  | _ => none

/-- A key given as key text. -/
def keyOfJson? : Value → Option Key
  | .str s => (Key.ofHex s).toOption
  | _ => none

/-- A host address in JSON form. -/
def nodeAddrOfJson? (v : Value) : Option NodeAddr :=
  match recordFields ["key", "addr"] v with
  | some [k, .str a] => do pure ⟨← keyOfJson? k, ← SocketAddr.parse? a⟩
  | _ => none

/-- The tag of an argument: its name as a string, or an object whose only field is named by
it and holds null. -/
def argTagOfJson? : Value → Option String
  | .str t => some t
  | v@(.obj ((name, _) :: rest)) =>
    if rest.all (·.1 == name) then
      match v.get? name with
      | some .null => some name
      | _ => none
    else none
  | _ => none

/-- An argument in JSON form: tag and value, as an object or a pair. Only the object form
takes a tag written as an object; the pair needs the tag as a string. -/
def argOfJson? (v : Value) : Option Arg := do
  let (tag, content) ← match v with
    | .obj _ => do pure (← argTagOfJson? (← v.get? "type"), ← v.get? "value")
    | .arr [.str t, c] => pure (t, c)
    | _ => none
  match tag, content with
  | "addr", c => Arg.addr <$> nodeAddrOfJson? c
  | "addr_list", .arr items => Arg.addrList <$> items.mapM nodeAddrOfJson?
  | "str", .str s => pure (Arg.str s)
  | _, _ => none

/-- A kind given as its code. -/
def kindOfJson? : Value → Option Kind
  | .num (.nat n) => Kind.ofCode? n
  | _ => none

/-- A message in JSON form, not checked against its schema. -/
def ofJson? (v : Value) : Option Message :=
  match recordFields ["kind", "source", "destination", "args"] v with
  | some [k, s, d, .arr args] => do
    pure ⟨← kindOfJson? k, ← keyOfJson? s, ← keyOfJson? d, ← args.mapM argOfJson?⟩
  | _ => none

/-- Reads a message from a JSON value: the kind first, then the whole message, then its
schema. -/
def ofValue (v : Value) : Except Error Message :=
  match (v.get? "kind").bind Value.getNat? with
  | none => .error (.decode .missingKind)
  | some code =>
    if (Kind.ofCode? code).isNone then .error (.unknownKind (min code 255))
    else
      match ofJson? v with
      | none => .error (.decode .badShape)
      | some m => m.validate.map fun _ => m

/-- Decodes a message body. -/
def decode (body : List UInt8) : Except Error Message :=
  match Json.parseBytes body with
  | none => .error (.decode .notJson)
  | some v => ofValue v

end Message

end PeerRing
