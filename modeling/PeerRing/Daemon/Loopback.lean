import PeerRing.Network.Session
import PeerRing.Daemon.Transport
/-! # Daemon nodes on one host

The daemon runs one node per datagram socket. Its transport numbers each message, sends it as a
DATA frame and waits for the matching ACK; its listener answers DATA frames with ACKs, resolves
the ACK frames it reads, drops malformed datagrams, and hands the messages of DATA frames to the
node. Sockets bind to loopback addresses with ports the host picks, so they are known by name.

The host either delivers datagrams between its sockets or refuses every send with an error of
its own. On a host that delivers, a send reaches a node whose listener still reads, and the ACK
comes back at once; a socket that never reads (a silent one, or a stopped listener's) leaves
the sender to time out, and so does an address where nothing listens. A send to port 0 is
refused by the socket itself. Each send runs through its node's transport, in the order the
node made them, so the transport's table shows the sends still waiting; between steps none is.
-/
namespace PeerRing.Daemon

open Net Network

def firstPort : Nat := 40000

/-- Named sockets, the nodes behind some of them with their transports, and the network that
carries their sends. `refusal` is the error of a host that refuses every send; `names` and
`nodes` list the latest first. -/
structure Loopback where
  world : World
  refusal : Option String
  nextPort : Nat := firstPort
  names : List (SocketAddr × String) := []
  nodes : List (String × NodeRef) := []
  transports : List (NodeRef × Transport) := []
  stopped : List NodeRef := []

namespace Loopback

/-- An empty host whose nodes share one overlay configuration; `refusal` is the error of a host
that cannot send datagrams at all. -/
def new (config : Config.Overlay) (refusal : Option String) : Loopback :=
  { world := { World.empty config with medium := { reachable := refusal.isNone } }, refusal }

/-- Binds a new socket and gives its address. -/
def bindFresh (h : Loopback) : Loopback × SocketAddr :=
  ({ h with nextPort := h.nextPort + 1 }, SocketAddr.v4 (127, 0, 0, 1) h.nextPort.toUInt16)

/-- Binds a new socket under a name and gives its address. -/
def bind (h : Loopback) (name : String) : Loopback × SocketAddr :=
  let (h, a) := h.bindFresh
  ({ h with names := (a, name) :: h.names }, a)

/-- Binds a socket that never reads: sends to it are never acknowledged. -/
def bindSilent (h : Loopback) (name : String) : Loopback :=
  let (h, a) := h.bind name
  { h with world := { h.world with down := a :: h.world.down } }

/-- The name of a socket address; `anon` for one the host did not name. -/
def nameOf (h : Loopback) (a : SocketAddr) : String :=
  ((h.names.find? (·.1 == a)).map (·.2)).getD "anon"

/-- The address of a named socket. -/
def addrOf? (h : Loopback) (name : String) : Option SocketAddr :=
  (h.names.find? (·.2 == name)).map (·.1)

/-- The node of a name. -/
def node? (h : Loopback) (name : String) : Option NodeRef :=
  (h.nodes.find? (·.1 == name)).map (·.2)

/-- The transport of a node. -/
def transport (h : Loopback) (r : NodeRef) : Transport :=
  ((h.transports.find? (·.1 == r)).map (·.2)).getD .new

/-- Replaces the transport of a node. -/
def setTransport (h : Loopback) (r : NodeRef) (t : Transport) : Loopback :=
  { h with transports := (r, t) :: h.transports.filter (·.1 != r) }

/-- Binds a socket and starts a node with its key on it, listening; fails as making the node
does. -/
def addNode (h : Loopback) (name : String) (k : Key) : Except String (Loopback × NodeRef) := do
  let (h, a) := h.bind name
  let (r, world) := (Network.addNode ⟨k, a⟩).run h.world
  let r ← r
  pure ({ h with world, nodes := (name, r) :: h.nodes, transports := (r, .new) :: h.transports }, r)

/-- Stops a node's listener; true if it was listening. Nothing reads its socket afterwards, so
no send to it and no acknowledgement for it arrives any more. -/
def stop (h : Loopback) (r : NodeRef) : Loopback × Bool :=
  if h.stopped.contains r then (h, false) else
    let down := match h.world.node? r with
      | some n => n.addr :: h.world.down
      | none => h.world.down
    ({ h with stopped := r :: h.stopped, world := { h.world with down } }, true)

/-- Whether the socket takes a datagram for this address: not on a host that refuses them, and
never for port 0. -/
def takes (h : Loopback) (dst : SocketAddr) : Bool := h.refusal.isNone && dst.port != 0

/-- Runs a send of the step's log through the transport of the node that made it. -/
def replaySend (h : Loopback) : Network.Event → Loopback
  | .sent src dst ok msg =>
    match h.nodes.find? fun p => (h.world.node? p.2).map (·.addr) == some src with
    | some (_, r) => h.setTransport r ((h.transport r).sendAlone msg (h.takes dst) ok)
    | none => h
  | .refused _ _ => h

/-- Runs a network operation as one step, its sends through the nodes' transports. -/
def run (h : Loopback) (op : NetM α) : Loopback × Outcome α :=
  let (o, world) := (runStep op).run h.world
  (o.events.foldl replaySend { h with world }, o)

def pendingAcks (h : Loopback) (r : NodeRef) : Nat := (h.transport r).pending.length

/-- The listener of a node resolves an acknowledgement that arrived for it. -/
def resolve (h : Loopback) (r : NodeRef) (seq : UInt64) : Loopback :=
  h.setTransport r ((h.transport r).resolveAck seq)

/-- The node listening at an address, if its listener still reads. -/
def listenerAt? (h : Loopback) (a : SocketAddr) : Option NodeRef :=
  match h.world.liveAt? a with
  | some r => if h.stopped.contains r then none else some r
  | none => none

/-- Sends a datagram from a fresh socket and gives the frame that came back within the wait, if
any, with what the step of its handling did. A listener answers a DATA frame whose kind asks
for it with an ACK, files the sender's address and handles the message; it resolves an ACK
frame; it drops anything else. -/
def sendRaw (h : Loopback) (dst : SocketAddr) (bytes : List UInt8) :
    Loopback × Except String (Option Frame × List Delivery) :=
  let (h, src) := h.bindFresh
  match h.refusal with
  | some e => (h, .error e)
  | none =>
    match h.listenerAt? dst, Frame.decode bytes with
    | some r, .ok (.ack seq) => (h.resolve r seq, .ok (none, []))
    | some r, .ok (.data seq m) =>
      let (h, o) := h.run do
        discard <| hostAt r (NodeAddr.unkeyed src)
        enqueue (.deliver r m)
      (h, .ok (if m.kind.requestsAck then some (.ack seq) else none, o.deliveries))
    | _, _ => (h, .ok (none, []))

/-- A host record as text, its socket by name. -/
def hostText (h : Loopback) (n : PeerRing.Node) (id : Host.Id) : String :=
  (n.reg.key id).toHex ++ "@" ++ h.nameOf (n.reg.addr id)

end Loopback

end PeerRing.Daemon
