import PeerRing.Network.World
/-! # Handling received messages

A received message is checked against its kind's argument list first. JOIN and ROUTE travel
towards the node responsible for their destination key: a node that is not the next hop passes
them on, and a JOIN also stops at the node just before its joiner, so it never goes back to the
joiner itself. Every other kind is handled where it arrives.

* JOIN: the node closest to the joiner's key answers with its leafset and itself, or refuses a
  joiner that failed within the grace period.
* JOIN_ACK: the joiner adopts the listed hosts, announces itself with UPDATE to everyone it now
  knows and starts stabilization.
* JOIN_NACK: the joiner asks again through its bootstrap host once the grace period passed.
* UPDATE and PIGGY: the listed hosts are offered to routing state, except hosts that failed
  within the grace period for PIGGY.
* PING: the sender's record is refreshed.
* ROUTE: the payload is delivered to the application.

Seeing a message twice leaves routing state as seeing it once.
-/
namespace PeerRing.Network

open Net

/-- A node's record for a host address, placed again in routing state if it re-keyed. -/
def peerOf (r : NodeRef) (a : NodeAddr) (held : List Host.Id) : NetM (Option Host.Id) :=
  onNode r (·.peer a held)

/-- Offers a record to a node's routing state; true if anything changed. -/
def addToRouting (r : NodeRef) (h : Host.Id) : NetM Bool := do
  return (← onNode r (·.addPeer h)).getD false

/-- Removes a record from a node's routing state; true if it was there. -/
def removeFromRouting (r : NodeRef) (h : Host.Id) : NetM Bool := do
  return (← onNode r (·.removePeer h)).getD false

/-- JOIN at the node closest to the joiner's key. -/
def onJoin (r : NodeRef) (msg : Message) : NetM Unit := do
  let some a := msg.addrArg 0 | return
  let some n ← getNode r | return
  if n.isMe a then return
  let some j ← peerOf r a [] | return
  let some n ← getNode r | return
  if n.failedRecently j (← get).now then
    discard <| send r j (Message.joinNack n.key a.key a)
  else
    let addrs := n.leafsetHosts.map n.reg.nodeAddr ++ [n.meAddr]
    discard <| send r j (Message.joinAck n.key a.key addrs)

/-- JOIN_ACK at the joiner. -/
def onJoinAck (r : NodeRef) (msg : Message) : NetM Unit := do
  let some addrs := msg.addrListArg 0 | return
  let mut peers : List Host.Id := []
  for a in addrs do
    let some n ← getNode r | return
    if n.isMe a then continue
    let some h ← peerOf r a peers | return
    discard <| addToRouting r h
    if !peers.contains h then peers := peers ++ [h]
  let some n ← getNode r | return
  for h in n.tableHosts do
    if !peers.contains h then peers := peers ++ [h]
  for h in peers do
    let some n ← getNode r | return
    discard <| send r h (Message.update n.key (n.reg.key h) n.meAddr)
  start r

/-- JOIN_NACK at the joiner: a retry of the join is spawned, to run once the grace period
passed (at once for no grace period), and its handle is kept so that shutdown can abort it. -/
def onJoinNack (r : NodeRef) : NetM Unit := do
  let some n ← getNode r | return
  let grace := n.config.gracePeriodMs
  let id ← if grace = 0 then spawn (.retryJoin r) else startTimer r ((← get).now + grace) .retryJoin
  modifyNode r fun n => { n with joinRetry := some id }

/-- UPDATE: the announced host is offered to routing state. -/
def onUpdate (r : NodeRef) (msg : Message) : NetM Unit := do
  let some a := msg.addrArg 0 | return
  let some n ← getNode r | return
  if n.isMe a then return
  let some h ← peerOf r a [] | return
  discard <| addToRouting r h

/-- PIGGY: a neighbour's leafset is merged, without hosts that failed recently. -/
def onPiggy (r : NodeRef) (msg : Message) : NetM Unit := do
  let some addrs := msg.addrListArg 0 | return
  for a in addrs do
    let some n ← getNode r | return
    if n.isMe a then continue
    let some h ← peerOf r a [] | return
    let some n ← getNode r | return
    if n.failedRecently h (← get).now then continue
    discard <| addToRouting r h

/-- PING: the sender's record is refreshed. -/
def onPing (r : NodeRef) (msg : Message) : NetM Unit := do
  if let some a := msg.addrArg 0 then discard <| peerOf r a []

/-- ROUTE at its final hop: the payload, the last argument, is delivered. -/
def onRoute (r : NodeRef) (msg : Message) : NetM Unit := do
  let some (.str payload) := msg.args.getLast? | return
  let some n ← getNode r | return
  let d : Delivery := ⟨n.addr, msg.source, msg.destination, payload⟩
  modify fun w => { w with deliveries := w.deliveries.push d }

/-- Handles a message at the node it is meant for. -/
def dispatch (r : NodeRef) (msg : Message) : NetM Unit :=
  match msg.kind with
  | .join => onJoin r msg
  | .joinAck => onJoinAck r msg
  | .joinNack => onJoinNack r
  | .update => onUpdate r msg
  | .piggy => onPiggy r msg
  | .ping => onPing r msg
  | .route => onRoute r msg

/-- One routing step: handles the message here if this node is its last hop, otherwise sends
it to the next hop. True if it was handled here or the next hop received it. -/
def routeMessage (r : NodeRef) (msg : Message) : NetM Bool := do
  let some n ← getNode r | return false
  let next := n.nextHop msg.destination
  if next == n.me || (msg.kind == .join && n.reg.key next == msg.source) then
    dispatch r msg
    return true
  else send r next msg

/-- Entry point for every received message: checks it, then routes or handles it. -/
def handle (r : NodeRef) (msg : Message) : NetM (Except Message.Error Unit) := do
  match msg.validate with
  | .error e => return .error e
  | .ok () =>
    if msg.kind.mustRoute then discard <| routeMessage r msg else dispatch r msg
    return .ok ()

/-- Routes a payload from a node towards the node responsible for `destination`; false if the
first hop could not be reached. -/
def route (r : NodeRef) (destination : Key) (payload : String) : NetM Bool := do
  let some n ← getNode r | return false
  routeMessage r (Message.route n.key destination payload)

end PeerRing.Network
