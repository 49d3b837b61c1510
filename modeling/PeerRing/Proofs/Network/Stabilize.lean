import PeerRing.Proofs.Network.Handlers
import PeerRing.Network.Clock
import Mathlib
/-! # A member's checks on an open network

A started member checks its peers on every run of its stabilization job: it pings each of them,
and every few runs it sends each of them its leafset and itself. On an open network where every
peer it knows is a live node, each of these sends arrives. The member then only notes the
successes, each peer only files the member's bare address, and each send queues a PING naming
the member or a PIGGY listing the member and peers of it; nothing is removed from routing
state.
-/
namespace PeerRing.Network

open Net Node Key

/-- The tasks the checks of the member at `c`, knowing the peers `P`, queue: a PING naming `c`,
or a PIGGY listing `c` and peers of it, delivered to a peer. -/
def Chatter (ref : NodeAddr → NodeRef) (c : NodeAddr) (P : List NodeAddr) (t : Task) : Prop :=
  ∃ p ∈ P, ∃ s d, t = .deliver (ref p) (Message.ping s d c) ∨
    ∃ A, (∀ b ∈ A, b ∈ P ∨ b = c) ∧ t = .deliver (ref p) (Message.piggy s d A)

/-- Every peer in `P` is a live node other than the one at `r`, at the reference `ref` gives
it. -/
def Reaches (w : World) (r : NodeRef) (ref : NodeAddr → NodeRef) (P : List NodeAddr) : Prop :=
  ∀ p ∈ P, w.refAt? p.addr = some (ref p) ∧ ref p ≠ r ∧ ∃ y, w.node? (ref p) = some y

/-- What the sends of the member at `r`, once the node `n`, to its peers have done so far: the
member only noted outcomes, every other node only filed its address, and each send queued
chatter. -/
structure Sending (ns : List NodeAddr) (L : Nat) (r : NodeRef) (ref : NodeAddr → NodeRef)
    (c : NodeAddr) (P : List NodeAddr) (n : Node) (w w' : World) : Prop where
  frame : Frame w w'
  kept : KeptBut ns L r w w'
  node : ∃ n', w'.node? r = some n' ∧ Keeps ns L n n' ∧ ∀ h, n'.reg.nodeAddr h = n.reg.nodeAddr h
  ready : ∃ sent, w'.ready = w.ready ++ sent ∧ ∀ t ∈ sent, Chatter ref c P t
  timers : w'.timers = w.timers

section Sends

variable {ns : List NodeAddr} {L : Nat} {r : NodeRef} {ref : NodeAddr → NodeRef} {c : NodeAddr}
  {P : List NodeAddr} {n : Node} {w w₁ : World}

theorem Sending.refl (hn : w.node? r = some n) : Sending ns L r ref c P n w w :=
  ⟨Frame.refl w, KeptBut.refl ns L r w, ⟨n, hn, Keeps.refl ns L n, fun _ => rfl⟩,
    ⟨[], by simp, by simp⟩, rfl⟩

/-- One more send of chatter to a peer arrives. -/
theorem Sending.send (hs : Sending ns L r ref c P n w w₁) (haddrs : (ns.map (·.addr)).Nodup)
    (hm : Member ns L c P n) (hreach : Reaches w r ref P) (hopen : w.medium.Open)
    (hdown : w.down = []) {n₁ : Node} (hn₁ : w₁.node? r = some n₁) {h : Host.Id}
    (hh : n.reg.nodeAddr h ∈ P) (msg : Message)
    (hmsg : Chatter ref c P (.deliver (ref (n.reg.nodeAddr h)) msg)) :
    ∃ w₂, (send r h msg).run w₁ = (true, w₂) ∧ Sending ns L r ref c P n w w₂ := by
  obtain ⟨hframe, hkept, ⟨n', hn', hkeep, haddr⟩, ⟨sent, hready, hsent⟩, htimers⟩ := hs
  rw [hn₁, Option.some.injEq] at hn'
  subst hn'
  obtain ⟨hto, hne, y, hy⟩ := hreach _ hh
  obtain ⟨y', hy', -⟩ := hkept _ hne y hy
  have hr : w₁.refAt? (n₁.reg.addr h) = some (ref (n.reg.nodeAddr h)) := by
    rw [hframe.refAt, show n₁.reg.addr h = (n.reg.nodeAddr h).addr from
      congrArg NodeAddr.addr (haddr h)]
    exact hto
  obtain ⟨w₂, hsend, hframe₂, hkept₂, hnode₂, hready₂, htimers₂⟩ := send_spec (L := L) haddrs hn₁
    (hframe.medium ▸ hopen) (hframe.down.trans hdown) hr hy' hne msg
  have hm₁ : Member ns L c P n₁ := hkeep.member c P hm
  refine ⟨w₂, hsend, ⟨hframe.trans hframe₂, hkept.trans hkept₂,
    ⟨_, hnode₂, hkeep.trans (Keeps.recordOutcome n₁ h true), fun h' => ?_⟩,
    ⟨sent ++ [.deliver (ref (n.reg.nodeAddr h)) msg], by rw [hready₂, hready, List.append_assoc],
      fun t ht => ?_⟩, htimers₂.trans htimers⟩⟩
  · rw [(hm₁.truthful.recordOutcome h true).2]
    exact haddr h'
  · rcases List.mem_append.mp ht with ht | ht
    · exact hsent t ht
    · rw [List.mem_singleton.mp ht]
      exact hmsg

end Sends

end PeerRing.Network
