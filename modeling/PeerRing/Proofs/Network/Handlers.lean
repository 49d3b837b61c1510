import PeerRing.Proofs.Network.Transport
import Mathlib
/-! # The join handlers on an open network

How the members of a ring that know each other answer a join, what the joiner does with the
answer, and how the others take an announced member in. Each handler is specified by what one
run of it does to the network: the nodes it changes, the deliveries it queues and the sends it
makes.
-/
namespace PeerRing.Network

open Net Node Key

section Kinds

end Kinds

section Peers

variable {ns : List NodeAddr} {L : Nat} {w : World} {r : NodeRef} {a b : NodeAddr}
  {P : List NodeAddr} {n : Node}

theorem addToRouting_run (hn : w.node? r = some n) (h : Host.Id) :
    (addToRouting r h).run w = ((n.addPeer h).2, w.withNode r (n.addPeer h).1) := by
  unfold addToRouting
  rw [run_bind, onNode_run hn]
  rfl

end Peers

section Chatter

variable {ns : List NodeAddr} {L : Nat} {w : World} {r : NodeRef} {a b : NodeAddr}
  {P A : List NodeAddr} {n : Node}

/-- A PING is handled where it arrives: the node files its address argument. -/
theorem handle_ping_run (hn : w.node? r = some n) (src dst : Key) (b : NodeAddr) :
    (handle r (Message.ping src dst b)).run w = (.ok (), w.withNode r (n.peer b []).1) := by
  have hv : (Message.ping src dst b).validate = .ok () := rfl
  have hlocal : Message.Kind.ping.mustRoute = false := rfl
  simp only [handle, hv]
  simp [hlocal, dispatch, onPing, peerOf, Message.addrArg, Message.ping, discard_run, onNode_run hn]
  rfl

end Chatter

section Route

variable {w w' : World} {r : NodeRef} {n : Node} {msg : Message}

/-- One routing step: the node handles the message when its next hop is the node itself, or a
JOIN's next hop is a record under the joiner's key, and sends it on to the next hop otherwise. -/
theorem routeMessage_run (hn : w.node? r = some n) :
    (routeMessage r msg).run w =
      if (n.nextHop msg.destination == n.me ||
          (msg.kind == .join && n.reg.key (n.nextHop msg.destination) == msg.source)) = true then
        (true, ((dispatch r msg).run w).2)
      else (send r (n.nextHop msg.destination) msg).run w := by
  unfold routeMessage
  rw [run_bind, getNode_run, hn]
  dsimp only
  split <;> rfl

end Route

section Join

variable {ns : List NodeAddr} {L : Nat} {w : World} {r j : NodeRef} {a b : NodeAddr}
  {P : List NodeAddr} {n J : Node}

end Join

section JoinAck

variable {ns : List NodeAddr} {L : Nat} {w : World} {j : NodeRef} {a : NodeAddr}
  {P A : List NodeAddr} {J : Node}

end JoinAck

section Bootstrap

variable {ns : List NodeAddr} {L : Nat} {w : World} {j i : NodeRef} {a : NodeAddr}
  {P : List NodeAddr} {J recv : Node}

end Bootstrap

end PeerRing.Network
