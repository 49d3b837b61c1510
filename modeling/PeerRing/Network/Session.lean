import PeerRing.Network.Clock
import PeerRing.Node.Status
/-! # Driving a network

The operations an application performs on the nodes of a simulated network: creating,
starting, stopping and dropping nodes, joining a ring, sending and routing messages, reading
and changing routing state and link statistics, and letting time pass.

A step runs one operation and then all the work it queued, and reports what was sent and
delivered meanwhile. Operations on a node that no longer exists do nothing.
-/
namespace PeerRing.Network

open Net

def World.empty (config : Config.Overlay) : World := { config }

/-- Creates a node at an address; a node already there is dropped. Fails, changing nothing, when
the node cannot be made. -/
def addNode (a : NodeAddr) : NetM (Except String NodeRef) := do
  let w ← get
  match Node.new? a w.config with
  | .error e => return .error e
  | .ok node =>
    let nodes := match w.liveAt? a.addr with
      | some old => w.nodes.setIfInBounds old none
      | none => w.nodes
    set { w with nodes := nodes.push (some node), addrs := (a.addr, nodes.size) :: w.addrs }
    return .ok nodes.size

/-- Drops a node: it stops answering, and its timers do nothing. -/
def dropNode (r : NodeRef) : NetM Unit :=
  modify fun w => { w with nodes := w.nodes.setIfInBounds r none }

/-- Marks an address as unreachable, or reachable again. -/
def setDown (a : SocketAddr) (down : Bool) : NetM Unit :=
  modify fun w =>
    let others := w.down.filter (· != a)
    { w with down := if down then a :: others else others }

/-- A node's record for a host address, created if needed; a nonzero key re-keys it. -/
def hostAt (r : NodeRef) (a : NodeAddr) : NetM (Option Host.Id) := onNode r (·.getHost a [])

/-- Sends a join request through the member listening at `bootstrap`; true if it arrived. -/
def join (r : NodeRef) (bootstrap : SocketAddr) : NetM Bool := do
  let some h ← onNode r (fun n =>
      let (n, h) := n.getHost (NodeAddr.unkeyed bootstrap) []
      ({ n with bootstrap := some h }, h)) | return false
  sendJoin r h

/-- Sends a message to a host. -/
def sendTo (r : NodeRef) (a : NodeAddr) (msg : Message) : NetM Bool := do
  let some h ← hostAt r a | return false
  send r h msg

/-- Pings a host. -/
def pingAt (r : NodeRef) (a : NodeAddr) : NetM Bool := do
  let some h ← hostAt r a | return false
  ping r h

/-- Offers a host to routing state. -/
def addAt (r : NodeRef) (a : NodeAddr) : NetM Bool := do
  let some h ← hostAt r a | return false
  addToRouting r h

/-- Removes the cached record of an address from routing state; none if it is not cached. -/
def removeAt (r : NodeRef) (a : SocketAddr) : NetM (Option Bool) := do
  let some n ← getNode r | return none
  match n.cache.lookup a with
  | some h => return some (← removeFromRouting r h)
  | none => return none

/-- The next hop towards a key, as host text. -/
def lookup (r : NodeRef) (k : Key) : NetM (Option String) := do
  let some n ← getNode r | return none
  return some (n.reg.encode (n.nextHop k))

/-- The table row for the prefix a key shares with the node's key, as host texts. -/
def row (r : NodeRef) (k : Key) : NetM (List String) := do
  let some n ← getNode r | return []
  return (n.routing.rowLookup n.view k).map n.reg.encode

def rekey (r : NodeRef) (k : Key) : NetM Unit := modifyNode r (·.rekey k)

/-- Notes a failure of a host now. -/
def failAt (r : NodeRef) (a : NodeAddr) : NetM Unit := do
  let some h ← hostAt r a | return
  let now := (← get).now
  modifyNode r (·.markFailed h now)

/-- Records `times` outcomes of one kind for a host; gives its success average. -/
def recordAt (r : NodeRef) (a : NodeAddr) (success : Bool) (times : Nat) : NetM Float32 := do
  let some h ← hostAt r a | return 0
  let n? ← onNode r fun n =>
    let n := { n with reg := n.reg.modifyStats h (·.recordTimes success times) }
    (n, n.reg.successAvg h)
  return n?.getD 0

/-- Folds a round-trip sample into a host's latency; gives the new latency. -/
def sampleLatency (r : NodeRef) (a : NodeAddr) (sample : Float) : NetM Float := do
  let some h ← hostAt r a | return 0
  let n? ← onNode r fun n =>
    let n := { n with reg := n.reg.modifyStats h (·.updateLatency sample) }
    (n, (n.reg.stats h).latency)
  return n?.getD 0

/-- One stabilization check by hand; these checks keep their own count of runs. -/
def check (r : NodeRef) : NetM Unit := do
  let some n ← getNode r | return
  let runs ← checkRun r n.checkRuns
  modifyNode r fun n => { n with checkRuns := runs }

/-- A node's status now. -/
def status (r : NodeRef) : NetM (Option NodeStatus) := do
  let w ← get
  return (w.node? r).map (·.status w.now)

/-- The record for an encoded host, as host text. -/
def decodeHost (r : NodeRef) (s : String) : NetM (Except HostError String) := do
  match NodeAddr.parse s with
  | .error e => return .error e
  | .ok a =>
    let some h ← hostAt r a | return .ok ""
    let some n ← getNode r | return .ok ""
    return .ok (n.reg.encode h)

/-- What a step did, and whether it made more sends than allowed. -/
structure Outcome (α : Type) where
  result : α
  events : List Event
  deliveries : List Delivery
  stormed : Bool

/-- Runs an operation and the work it queued, and reports what happened. -/
def runStep (op : NetM α) : NetM (Outcome α) := do
  modify fun w => { w with events := #[], deliveries := #[], sends := 0 }
  let a ← op
  drain
  let w ← get
  return ⟨a, w.events.toList, w.deliveries.toList, w.stormed⟩

end PeerRing.Network
