import PeerRing.Key.Text
import PeerRing.Net.SocketAddr
import PeerRing.Text.Escape
/-! # Host addresses

A host address names an overlay member: its ring key and its socket address, written
`<40 hex digits>@<socket address>`. Reading splits the text at its first `@`, reads the key
part as key text (so blanks around it and a `0x` are allowed, and an empty key is zero) and the
rest as a socket address, with no blanks allowed.
-/
namespace PeerRing

open Net

/-- Key and socket address of an overlay member. -/
structure NodeAddr where
  key : Key
  addr : SocketAddr
deriving DecidableEq

/-- Why a text is no host address. -/
inductive HostError where
  /-- The text has no `@`. -/
  | missingSeparator (text : String)
  /-- The part before the first `@` is no key. -/
  | key (e : KeyError)
  /-- The part after the first `@` is no socket address. -/
  | addr
deriving DecidableEq

/-- The text of a host address reading error. -/
def HostError.message : HostError → String
  | .missingSeparator s => "encoded host " ++ Text.quoteText s ++ " is missing the '@' separator"
  | .key e => "invalid key in encoded host: " ++ e.message
  | .addr => "invalid socket address in encoded host: invalid socket address syntax"

namespace NodeAddr

/-- The address of a peer whose key is not known yet. -/
def unkeyed (addr : SocketAddr) : NodeAddr := ⟨Key.zero, addr⟩

def toText (a : NodeAddr) : String := a.key.toHex ++ "@" ++ a.addr.toText

instance : ToString NodeAddr := ⟨toText⟩

/-- Reads a host address text. -/
def parse (s : String) : Except HostError NodeAddr :=
  let cs := s.toList
  if '@' ∉ cs then .error (.missingSeparator s)
  else
    let keyPart := String.ofList (cs.takeWhile (· ≠ '@'))
    let addrPart := String.ofList ((cs.dropWhile (· ≠ '@')).drop 1)
    match Key.ofHex keyPart with
    | .error e => .error (.key e)
    | .ok k =>
      match SocketAddr.parse? addrPart with
      | some a => .ok ⟨k, a⟩
      | none => .error .addr

end NodeAddr

end PeerRing
