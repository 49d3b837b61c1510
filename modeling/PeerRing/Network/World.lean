import PeerRing.Node.Basic
import PeerRing.Message.Basic
/-! # A simulated network of nodes

Nodes live on one in-memory network with a virtual clock in milliseconds. Every node created
gets a reference; an address names the last node created there. A send from one node to a
socket address fails when either end is marked down or when the node created there was
dropped; otherwise the receiver registers the sender's address (without key) in its cache at
once and the handling of the message is queued. Work runs one task at a time, each to
completion. Background work waits on timers or is spawned to run at once; either has a handle
that can abort it.

What a send to an address where no node was ever created answers, whether a step's sends are
capped, and whether datagrams can leave the nodes at all are settings of the network's medium.
The nodes' own test network has no phantom peers and no cap; a test network that guards
against messages circling for ever caps each step's sends, and a later send of that step fails
without being logged or delivered.
-/
namespace PeerRing.Network

open Net

/-- A node of the network, by order of creation. -/
abbrev NodeRef := Nat

/-- Something that happened on the network during a step. -/
inductive Event where
  /-- A send, with its outcome. -/
  | sent (src dst : SocketAddr) (ok : Bool) (msg : Message)
  /-- A delivered message that its receiver refused. -/
  | refused (receiver : SocketAddr) (e : Message.Error)

/-- A payload that reached the node responsible for its key. -/
structure Delivery where
  receiver : SocketAddr
  source : Key
  destination : Key
  payload : String

/-- Work ready to run: a node handles a received message, or a spawned join retry, by its
handle, sends the join request again. -/
inductive Task where
  | deliver (node : NodeRef) (msg : Message)
  | retryJoin (node : NodeRef) (handle : Nat)

/-- The handle of a spawned task, if it has one. -/
def Task.handle? : Task → Option Nat
  | .deliver _ _ => none
  | .retryJoin _ id => some id

/-- Background work waiting on a timer: the stabilization job, with its checks since the last
leafset broadcast, or a join retry. -/
inductive Job where
  | check (runs : Nat)
  | retryJoin

/-- A timer of a node's background work. -/
structure Timer where
  id : Nat
  due : Nat
  node : NodeRef
  job : Job

/-- How sends travel: whether a send to an address where no node was ever created succeeds,
the most sends a step may make (none: no bound), and whether any datagram can leave a node. -/
structure Medium where
  phantomOk : Bool := false
  sendCap : Option Nat := none
  reachable : Bool := true

namespace Medium

/-- Whether a step that made `sends` sends so far may make another. -/
def admits (m : Medium) (sends : Nat) : Bool :=
  match m.sendCap with
  | some cap => sends < cap
  | none => true

/-- Tasks a step may have to run beyond those queued at its start. Each is queued by a send
that reached its receiver, so a cap bounds them; without a cap a run need not end (a message
may circle the ring for ever) and is cut after 2^64 tasks. -/
def taskBudget (m : Medium) : Nat :=
  match m.sendCap with
  | some cap => 2 * cap + 1
  | none => Nat.pow 2 64

end Medium

/-- The whole network. `nodes` holds the nodes by reference, none once dropped or replaced;
`addrs` the last node created at each address; `events` and `deliveries` what happened in the
current step, in order, and `sends` how many sends it made. -/
structure World where
  config : Config.Overlay
  medium : Medium := {}
  now : Nat := 0
  nodes : Array (Option Node) := #[]
  addrs : List (SocketAddr × NodeRef) := []
  down : List SocketAddr := []
  ready : List Task := []
  timers : List Timer := []
  nextHandle : Nat := 0
  events : Array Event := #[]
  deliveries : Array Delivery := #[]
  sends : Nat := 0

abbrev NetM := StateM World

namespace World

def node? (w : World) (r : NodeRef) : Option Node := (w.nodes.getD r none)

/-- The reference of the last node created at an address. -/
def refAt? (w : World) (a : SocketAddr) : Option NodeRef := (w.addrs.find? (·.1 == a)).map (·.2)

/-- The live node at an address. -/
def liveAt? (w : World) (a : SocketAddr) : Option NodeRef :=
  match w.refAt? a with
  | some r => if (w.node? r).isSome then some r else none
  | none => none

/-- Whether the current step made more sends than its medium allows. -/
def stormed (w : World) : Bool :=
  match w.medium.sendCap with
  | some cap => w.sends > cap
  | none => false

end World

def getNode (r : NodeRef) : NetM (Option Node) := do return (← get).node? r

/-- Replaces the node behind a reference. -/
def setNode (r : NodeRef) (n : Node) : NetM Unit :=
  modify fun w => { w with nodes := w.nodes.setIfInBounds r (some n) }

/-- Changes the node behind a reference, if it is live. -/
def modifyNode (r : NodeRef) (f : Node → Node) : NetM Unit := do
  if let some n ← getNode r then setNode r (f n)

/-- Applies an operation to a live node, keeping the new state; none if the node is gone. -/
def onNode (r : NodeRef) (f : Node → Node × α) : NetM (Option α) := do
  match ← getNode r with
  | some n =>
    let (n, a) := f n
    setNode r n
    return some a
  | none => return none

def logEvent (e : Event) : NetM Unit := modify fun w => { w with events := w.events.push e }

def enqueue (t : Task) : NetM Unit := modify fun w => { w with ready := w.ready ++ [t] }

/-- Spawns a task that is ready at once, and gives its handle. -/
def spawn (t : Nat → Task) : NetM Nat := do
  let w ← get
  set { w with ready := w.ready ++ [t w.nextHandle], nextHandle := w.nextHandle + 1 }
  return w.nextHandle

/-- Starts a timer and gives its handle. -/
def startTimer (r : NodeRef) (due : Nat) (job : Job) : NetM Nat := do
  let w ← get
  let t : Timer := { id := w.nextHandle, due := due, node := r, job := job }
  set { w with timers := w.timers ++ [t], nextHandle := w.nextHandle + 1 }
  return t.id

/-- Aborts background work by its handle: a timer still waiting, or a spawned task that has not
run yet. -/
def abort (id : Nat) : NetM Unit :=
  modify fun w => { w with timers := w.timers.filter (·.id != id),
                           ready := w.ready.filter (·.handle? != some id) }

/-- Carries a message from `src` to the address `dst` and tells whether it arrived. -/
def transmit (src dst : SocketAddr) (msg : Message) : NetM Bool := do
  let w ← get
  set { w with sends := w.sends + 1 }
  if !w.medium.admits w.sends then return false
  let ok ← if !w.medium.reachable || w.down.contains src || w.down.contains dst then pure false
    else match w.refAt? dst with
      | none => pure w.medium.phantomOk
      | some r =>
        match w.node? r with
        | none => pure false
        | some recv =>
          let (recv, _) := recv.getHost (NodeAddr.unkeyed src) []
          setNode r recv
          enqueue (.deliver r msg)
          pure true
  logEvent (.sent src dst ok msg)
  return ok

/-- A node sends a message to one of its records and records the outcome on it. -/
def send (r : NodeRef) (target : Host.Id) (msg : Message) : NetM Bool := do
  let some n ← getNode r | return false
  let ok ← transmit n.addr (n.reg.addr target) msg
  modifyNode r (·.recordOutcome target ok)
  return ok

/-- A node pings one of its records. -/
def ping (r : NodeRef) (target : Host.Id) : NetM Bool := do
  let some n ← getNode r | return false
  send r target (Message.ping n.key (n.reg.key target) n.meAddr)

/-- A node sends its join request to a record. -/
def sendJoin (r : NodeRef) (target : Host.Id) : NetM Bool := do
  let some n ← getNode r | return false
  send r target (Message.join n.key n.key n.meAddr)

/-- Starts a node's stabilization job, unless it runs already; the first check is one period
from now. -/
def start (r : NodeRef) : NetM Unit := do
  let some n ← getNode r | return
  if n.checkJob.isSome then return
  let id ← startTimer r ((← get).now + n.config.checkIntervalMs) (.check 0)
  modifyNode r fun n => { n with checkJob := some id }

/-- Stops a node's background work: its stabilization job and its last join retry. -/
def shutdown (r : NodeRef) : NetM Unit := do
  let some n ← getNode r | return
  if let some id := n.checkJob then abort id
  if let some id := n.joinRetry then abort id
  modifyNode r fun n => { n with checkJob := none, joinRetry := none }

end PeerRing.Network
