import PeerRing.Message.Kind
import PeerRing.Host.Addr
/-! # Messages

A message has a kind, a source key, a destination key and a list of arguments, each a host
address, a list of host addresses or a text. A received message is checked against its kind's
schema before anything acts on it: first the number of arguments, then the type of each
argument in order.
-/
namespace PeerRing.Message

/-- A message argument. -/
inductive Arg where
  | addr (a : NodeAddr)
  | addrList (as : List NodeAddr)
  | str (s : String)
deriving DecidableEq

/-- The type of an argument. -/
def Arg.type : Arg → ArgType
  | .addr _ => .addr
  | .addrList _ => .addrList
  | .str _ => .str

/-- Why a message body could not be read. -/
inductive DecodeFailure where
  /-- The body is not one JSON value. -/
  | notJson
  /-- The body has no `kind` that is a whole number of at most 64 bits. -/
  | missingKind
  /-- The body does not have the shape of a message. -/
  | badShape
deriving DecidableEq, Repr

/-- Why a message was refused. -/
inductive Error where
  /-- The kind code is not one of the seven, shown capped at 255. -/
  | unknownKind (code : Nat)
  /-- The message has the wrong number of arguments. -/
  | argCount (kind : Kind) (expected got : Nat)
  /-- An argument has the wrong type. -/
  | argType (kind : Kind) (index : Nat) (expected got : ArgType)
  /-- The body could not be read. -/
  | decode (why : DecodeFailure)
deriving DecidableEq, Repr

/-- The text of a message error, where one is shown: a body that is not JSON or has not the
shape of a message gets none. -/
def Error.message? : Error → Option String
  | .unknownKind n => some ("unknown message kind " ++ toString n)
  | .argCount k e g =>
    some (k.name ++ " expects " ++ toString e ++ " arguments, got " ++ toString g)
  | .argType k i e g =>
    some (k.name ++ " argument " ++ toString i ++ " should be " ++ e.name ++ ", got " ++ g.name)
  | .decode .missingKind => some "malformed message body: missing message kind"
  | .decode _ => none

/-- The name of the kind of a message error. -/
def Error.kindName : Error → String
  | .unknownKind _ => "UnknownKind"
  | .argCount .. => "ArgCount"
  | .argType .. => "ArgType"
  | .decode _ => "Decode"

end Message

/-- An overlay message. -/
structure Message where
  kind : Message.Kind
  source : Key
  destination : Key
  args : List Message.Arg
deriving DecidableEq

namespace Message

/-- The first argument whose type differs from the schema, with its position. -/
def firstMismatch : Nat → List Arg → List ArgType → Option (Nat × ArgType × ArgType)
  | i, a :: as, t :: ts => if a.type = t then firstMismatch (i + 1) as ts else some (i, t, a.type)
  | _, _, _ => none

/-- Checks a message against its kind's schema. -/
def validate (m : Message) : Except Error Unit :=
  if m.args.length ≠ m.kind.args.length then
    .error (.argCount m.kind m.kind.args.length m.args.length)
  else
    match firstMismatch 0 m.args m.kind.args with
    | some (i, e, g) => .error (.argType m.kind i e g)
    | none => .ok ()

/-- The host address in argument `i`, if that argument is one. -/
def addrArg (m : Message) (i : Nat) : Option NodeAddr :=
  match m.args[i]? with
  | some (.addr a) => some a
  | _ => none

/-- The list of host addresses in argument `i`, if that argument is one. -/
def addrListArg (m : Message) (i : Nat) : Option (List NodeAddr) :=
  match m.args[i]? with
  | some (.addrList as) => some as
  | _ => none

/-- The text in argument `i`, if that argument is one. -/
def strArg (m : Message) (i : Nat) : Option String :=
  match m.args[i]? with
  | some (.str s) => some s
  | _ => none

/-- A join request for `joiner`. -/
def join (src dst : Key) (joiner : NodeAddr) : Message := ⟨.join, src, dst, [.addr joiner]⟩
/-- The answer to a join: the hosts the joiner should know. -/
def joinAck (src dst : Key) (addrs : List NodeAddr) : Message := ⟨.joinAck, src, dst, [.addrList addrs]⟩
/-- A refused join. -/
def joinNack (src dst : Key) (joiner : NodeAddr) : Message := ⟨.joinNack, src, dst, [.addr joiner]⟩
/-- An announcement of the sender. -/
def update (src dst : Key) (me : NodeAddr) : Message := ⟨.update, src, dst, [.addr me]⟩
/-- The sender's view of its neighbourhood. -/
def piggy (src dst : Key) (addrs : List NodeAddr) : Message := ⟨.piggy, src, dst, [.addrList addrs]⟩
/-- A liveness probe. -/
def ping (src dst : Key) (me : NodeAddr) : Message := ⟨.ping, src, dst, [.addr me]⟩
/-- A payload routed towards a key. -/
def route (src dst : Key) (payload : String) : Message := ⟨.route, src, dst, [.str payload]⟩

end Message

end PeerRing
