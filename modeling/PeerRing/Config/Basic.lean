import PeerRing.Net.SocketAddr
/-! # Configuration

A node's configuration has two parts. The node part says where it listens, its key as text
(empty for a random key) and the member to join through (empty to start a new ring). The
overlay part sets the leafset half size, the grace period in seconds during which a failed
peer is not accepted again, the seconds between two stabilization checks (at least one), how
many checks pass between two leafset broadcasts, the success average below which a peer is
dropped, the number of host records kept once unreferenced, and how long a send waits for its
acknowledgement.
-/
namespace PeerRing.Config

/-- Settings of the overlay. -/
structure Overlay where
  leafsetHalfSize : Nat := 4
  gracePeriodSecs : Nat := 30
  checkIntervalSecs : Nat := 20
  piggyEvery : Nat := 3
  badLink : Float32 := 0.3
  hostCacheSize : Nat := 64
  pingTimeoutMs : Nat := 1000

/-- Settings of the node itself. -/
structure Node where
  listenAddr : Net.SocketAddr := .v4 (0, 0, 0, 0) 4555
  key : String := ""
  bootstrap : String := ""

/-- A whole configuration. -/
structure Ring where
  node : Node := {}
  overlay : Overlay := {}

namespace Overlay

def gracePeriodMs (c : Overlay) : Nat := c.gracePeriodSecs * 1000

/-- The time between two checks in milliseconds; at least one second. -/
def checkIntervalMs (c : Overlay) : Nat := Nat.max c.checkIntervalSecs 1 * 1000

/-- A count of milliseconds as reported, in 64 bits: a longer time wraps around. -/
def reportedMs (ms : Nat) : Nat := ms % Nat.pow 2 64

def piggyPeriod (c : Overlay) : Nat := Nat.max c.piggyEvery 1

end Overlay

end PeerRing.Config
