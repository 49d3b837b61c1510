import PeerRing.Overlay.Routing
import PeerRing.Host.Cache
import PeerRing.Config.Basic
/-! # Overlay nodes

A node owns everything one overlay member needs: its own peer record, a registry of the
records it knows with the bounded cache that finds them by address, its routing state and its
configuration. The node's own record, everything in its routing state and the host it joins
through are pinned in the cache; so is any record a running handler still holds.

A peer seen again under a new key is placed again in routing state; a host counts as the node
itself when it has the node's address or the node's key.
-/
namespace PeerRing

open Overlay Net

/-- The state of one overlay member: besides its records and routing state, the host it joins
through (kept for retries), the timers of its stabilization job and of its last join retry, and
the checks run by hand since the last leafset broadcast. -/
structure Node where
  config : Config.Overlay
  reg : Host.Registry
  cache : Host.Cache
  me : Host.Id
  routing : Routing
  bootstrap : Option Host.Id := none
  checkJob : Option Nat := none
  joinRetry : Option Nat := none
  checkRuns : Nat := 0

namespace Node

/-- A fresh node with its own record as the first cache entry, once its leafset has room. -/
def create (a : NodeAddr) (config : Config.Overlay) : Node :=
  let (cache, reg, me) := (Host.Cache.new config.hostCacheSize).getHost {} a fun _ => false
  { config, reg, cache, me, routing := Routing.new me config.leafsetHalfSize }

/-- Makes a node; fails as reserving room for its leafset does, when the half size is too
large for that room. -/
def new? (a : NodeAddr) (config : Config.Overlay) : Except String Node :=
  match Leafset.reserveError? config.leafsetHalfSize with
  | some e => .error e
  | none => .ok (create a config)

def view (n : Node) : PeerView := .ofRegistry n.reg

def key (n : Node) : Key := n.reg.key n.me

def addr (n : Node) : SocketAddr := n.reg.addr n.me

def meAddr (n : Node) : NodeAddr := n.reg.nodeAddr n.me

def isMe (n : Node) (a : NodeAddr) : Bool := a.addr == n.addr || a.key == n.key

/-- Whether the node itself refers to a record: its own, one in routing state, or its
bootstrap host. -/
def refersTo (n : Node) (h : Host.Id) : Bool :=
  h == n.me || h == n.routing.me || h == n.routing.leafset.me || h == n.routing.table.me ||
    n.routing.leafset.hosts.contains h || n.routing.table.hosts.contains h ||
    n.bootstrap == some h

/-- The record for a host address, created if needed; `held` are records a running handler
holds, which the cache must not evict. -/
def getHost (n : Node) (a : NodeAddr) (held : List Host.Id) : Node × Host.Id :=
  let (cache, reg, h) := n.cache.getHost n.reg a fun h => n.refersTo h || held.contains h
  ({ n with cache, reg }, h)

/-- The record for a host address, placed again in routing state if it re-keyed. -/
def peer (n : Node) (a : NodeAddr) (held : List Host.Id) : Node × Host.Id :=
  let (n, h) := n.getHost a held
  ({ n with routing := (n.routing.refresh n.view h).1 }, h)

/-- Offers a record to routing state. -/
def addPeer (n : Node) (h : Host.Id) : Node × Bool :=
  let (r, ok) := n.routing.add n.view h
  ({ n with routing := r }, ok)

/-- Removes a record from routing state. -/
def removePeer (n : Node) (h : Host.Id) : Node × Bool :=
  let (r, ok) := n.routing.remove n.view h
  ({ n with routing := r }, ok)

def nextHop (n : Node) (k : Key) : Host.Id := n.routing.routeLookup n.view k

/-- Records one send outcome on a record. -/
def recordOutcome (n : Node) (h : Host.Id) (ok : Bool) : Node :=
  { n with reg := n.reg.modifyStats h (·.record ok) }

/-- Notes a failure of a record at virtual time `now`. -/
def markFailed (n : Node) (h : Host.Id) (now : Nat) : Node :=
  { n with reg := n.reg.modifyStats h (·.markFailed now) }

/-- Whether a record failed within the grace period before `now`. -/
def failedRecently (n : Node) (h : Host.Id) (now : Nat) : Bool :=
  (n.reg.stats h).failedWithin now n.config.gracePeriodMs

def isBadLink (n : Node) (h : Host.Id) : Bool := (n.reg.stats h).isBadLink n.config.badLink

/-- Gives the node a new key and rebuilds routing state around it. -/
def rekey (n : Node) (k : Key) : Node :=
  let n := { n with reg := n.reg.setKey n.me k }
  { n with routing := n.routing.keyUpdate n.view n.me }

def leafsetHosts (n : Node) : List Host.Id := n.routing.leafset.hosts

def tableHosts (n : Node) : List Host.Id := n.routing.table.hosts

/-- The peers to check: leafset members, then table entries not already listed, without the
node itself. -/
def checkPeers (n : Node) : List Host.Id :=
  let hs := n.tableHosts.foldl (fun acc h => if acc.contains h then acc else acc ++ [h])
    n.leafsetHosts
  hs.filter (· != n.me)

def started (n : Node) : Bool := n.checkJob.isSome

end Node

end PeerRing
