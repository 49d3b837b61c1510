import PeerRing.Host.Addr
import PeerRing.Host.Stats
import PeerRing.Decimal.Text
/-! # Peer records

A peer record describes one overlay member: its socket address, which never changes, its ring
key, which may, and its link statistics. Every structure that knows a peer refers to the same
record, so a change of key or statistics is seen everywhere at once, and two records are the
same peer only if they are the same record: records are told apart by their identity, not by
their contents. A registry holds all records and hands out identities in order of creation.
-/
namespace PeerRing.Host

open Net

/-- The identity of a peer record. -/
structure Id where
  idx : Nat
deriving DecidableEq, Repr, Inhabited

/-- One peer record. -/
structure Record where
  addr : SocketAddr
  key : Key
  stats : Stats

def Record.ofNodeAddr (a : NodeAddr) : Record := ⟨a.addr, a.key, Stats.initial⟩

/-- The diagnostic text of a record:
`Host { addr: A, key: Key(K), success_avg: S, latency: L }`. -/
def Record.debugText (r : Record) : String :=
  "Host \x7b addr: " ++ r.addr.toText ++ ", key: Key(" ++ r.key.toHex ++ "), success_avg: " ++
    Decimal.singleText r.stats.successAvg ++ ", latency: " ++ Decimal.doubleText r.stats.latency ++
    " \x7d"

instance : Inhabited Record := ⟨Record.ofNodeAddr ⟨Key.zero, default⟩⟩

/-- All peer records, indexed by identity. -/
structure Registry where
  records : Array Record := #[]

namespace Registry

/-- Creates a record; its identity is the number of records created before it. -/
def create (reg : Registry) (a : NodeAddr) : Registry × Id :=
  (⟨reg.records.push (Record.ofNodeAddr a)⟩, ⟨reg.records.size⟩)

def get (reg : Registry) (h : Id) : Record := reg.records.getD h.idx default

/-- Changes the record of an identity. -/
def modify (reg : Registry) (h : Id) (f : Record → Record) : Registry :=
  ⟨reg.records.modify h.idx f⟩

def key (reg : Registry) (h : Id) : Key := (reg.get h).key

def addr (reg : Registry) (h : Id) : SocketAddr := (reg.get h).addr

def stats (reg : Registry) (h : Id) : Stats := (reg.get h).stats

def nodeAddr (reg : Registry) (h : Id) : NodeAddr := ⟨reg.key h, reg.addr h⟩

def encode (reg : Registry) (h : Id) : String := (reg.nodeAddr h).toText

/-- Gives a record a new key. -/
def setKey (reg : Registry) (h : Id) (k : Key) : Registry :=
  reg.modify h fun r => { r with key := k }

/-- Changes the statistics of a record. -/
def modifyStats (reg : Registry) (h : Id) (f : Stats → Stats) : Registry :=
  reg.modify h fun r => { r with stats := f r.stats }

def successAvg (reg : Registry) (h : Id) : Float32 := (reg.stats h).successAvg

end Registry

end PeerRing.Host
