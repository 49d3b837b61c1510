import PeerRing.Node.Basic
import PeerRing.Json.Value
/-! # Node status

A snapshot of a node's overlay state: its key and address, whether stabilization runs, its
leafset and routing table members with their link statistics, and how full its host cache is.
A peer counts as healthy when its success average is above 0.8, and as recently failed when it
failed within the grace period.
-/
namespace PeerRing

open Json

/-- The link statistics of one routing member. -/
structure PeerStatus where
  key : Key
  addr : Net.SocketAddr
  successAvg : Float32
  healthy : Bool
  latency : Float
  recentlyFailed : Bool

/-- A snapshot of a node. -/
structure NodeStatus where
  key : Key
  addr : Net.SocketAddr
  started : Bool
  leafset : List PeerStatus
  routingTable : List PeerStatus
  cachedHosts : Nat
  cacheCapacity : Nat

namespace Node

/-- The status of one of a node's records at virtual time `now`. -/
def peerStatus (n : Node) (now : Nat) (h : Host.Id) : PeerStatus :=
  let s := n.reg.stats h
  { key := n.reg.key h, addr := n.reg.addr h, successAvg := s.successAvg, healthy := s.healthy,
    latency := s.latency, recentlyFailed := s.failedWithin now n.config.gracePeriodMs }

/-- A node's status at virtual time `now`. -/
def status (n : Node) (now : Nat) : NodeStatus :=
  { key := n.key, addr := n.addr, started := n.started,
    leafset := n.leafsetHosts.map (n.peerStatus now),
    routingTable := n.tableHosts.map (n.peerStatus now),
    cachedHosts := n.cache.size, cacheCapacity := n.cache.capacity }

end Node

/-- The JSON form of a peer's status. -/
def PeerStatus.toJson (p : PeerStatus) : Value :=
  .obj [("key", .str p.key.toHex), ("addr", .str p.addr.toText),
    ("success_avg", .num (.single p.successAvg)), ("healthy", .bool p.healthy),
    ("latency", .num (.double p.latency)), ("recently_failed", .bool p.recentlyFailed)]

/-- The JSON form of a node's status. -/
def NodeStatus.toJson (s : NodeStatus) : Value :=
  .obj [("key", .str s.key.toHex), ("addr", .str s.addr.toText), ("started", .bool s.started),
    ("leafset", .arr (s.leafset.map (·.toJson))),
    ("routing_table", .arr (s.routingTable.map (·.toJson))),
    ("cached_hosts", .ofNat s.cachedHosts), ("cache_capacity", .ofNat s.cacheCapacity)]

end PeerRing
