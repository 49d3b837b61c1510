/-! # Message kinds and their schema

Every message has one of seven kinds, each with a one-byte code, a name, the types of its
arguments and two flags: whether the receiver acknowledges it, and whether it travels towards
its destination key hop by hop instead of going straight to its addressee.
-/
namespace PeerRing.Message

/-- The kinds of overlay messages. -/
inductive Kind where
  | join
  | joinAck
  | update
  | piggy
  | joinNack
  | ping
  | route
deriving DecidableEq, Repr

/-- The types of message arguments: one host (key and socket address), a list of hosts, or a
text. -/
inductive ArgType where
  | addr
  | addrList
  | str
deriving DecidableEq, Repr

/-- The name of an argument type. -/
def ArgType.name : ArgType → String
  | .addr => "Addr"
  | .addrList => "AddrList"
  | .str => "Str"

/-- Flag bit: the receiver acknowledges the message. -/
def flagRequestAck : Nat := 1

/-- Flag bit: the message is routed towards its destination key. -/
def flagMustRoute : Nat := 2

namespace Kind

def all : List Kind := [.join, .joinAck, .update, .piggy, .joinNack, .ping, .route]

/-- The one-byte code of a kind. -/
def code : Kind → Nat
  | .join => 1
  | .joinAck => 2
  | .update => 3
  | .piggy => 4
  | .joinNack => 5
  | .ping => 6
  | .route => 7

def ofCode? (n : Nat) : Option Kind := all.find? (·.code == n)

/-- The name of a kind. -/
def name : Kind → String
  | .join => "JOIN"
  | .joinAck => "JOIN_ACK"
  | .update => "UPDATE"
  | .piggy => "PIGGY"
  | .joinNack => "JOIN_NACK"
  | .ping => "PING"
  | .route => "ROUTE"

/-- The argument types a kind expects, in order. -/
def args : Kind → List ArgType
  | .join => [.addr]
  | .joinAck => [.addrList]
  | .update => [.addr]
  | .piggy => [.addrList]
  | .joinNack => [.addr]
  | .ping => [.addr]
  | .route => [.str]

/-- The flags of a kind. -/
def flags : Kind → Nat
  | .join => flagRequestAck ||| flagMustRoute
  | .route => flagRequestAck ||| flagMustRoute
  | _ => flagRequestAck

def requestsAck (k : Kind) : Bool := k.flags &&& flagRequestAck != 0

def mustRoute (k : Kind) : Bool := k.flags &&& flagMustRoute != 0

theorem ofCode?_code (k : Kind) : ofCode? k.code = some k := by
  cases k <;> rfl

end Kind

end PeerRing.Message
