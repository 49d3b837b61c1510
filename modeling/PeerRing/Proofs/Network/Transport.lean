import PeerRing.Network.Session
import PeerRing.Proofs.Node.Knowledge
import Mathlib
/-! # Sending on an open network

The first `m` members of a ring are wired into a network when member `i` is the node at
reference `i`, every address of a member leads to its node, the addresses of later members lead
nowhere yet, nothing is down and the medium neither caps sends nor keeps datagrams in. On such a
network a send from one member to another always arrives: the receiver files the sender's bare
address, the delivery joins the back of the queue, and the sender notes a success. Every node
that is not the sender stays all it was.

Loops of handlers that always go on are run through an invariant indexed by the part of the list
still to come.
-/
namespace PeerRing.Network

open Net Node

/-- The network with the node at `r` replaced. -/
def World.withNode (w : World) (r : NodeRef) (n : Node) : World :=
  { w with nodes := w.nodes.setIfInBounds r (some n) }

section Nodes

variable {w : World} {r : NodeRef} {n n' : Node}

theorem node?_withNode (hr : r < w.nodes.size) (n : Node) (r' : NodeRef) :
    (w.withNode r n).node? r' = if r' = r then some n else w.node? r' := by
  simp only [World.withNode, World.node?, Array.getD_eq_getD_getElem?,
    Array.getElem?_setIfInBounds]
  by_cases h : r = r'
  · subst h
    simp [hr]
  · simp [h, Ne.symm h]

@[simp] theorem size_withNode (w : World) (r : NodeRef) (n : Node) :
    (w.withNode r n).nodes.size = w.nodes.size := by
  simp [World.withNode]

theorem withNode_withNode (w : World) (r : NodeRef) (n n' : Node) :
    (w.withNode r n).withNode r n' = w.withNode r n' := by
  simp [World.withNode, Array.setIfInBounds_setIfInBounds]

theorem lt_size_of_node? (h : w.node? r = some n) : r < w.nodes.size := by
  by_contra hr
  simp [World.node?, Array.getD_eq_getD_getElem?, Array.getElem?_eq_none (Nat.le_of_not_lt hr)] at h

theorem getElem?_of_node? (h : w.node? r = some n) : w.nodes[r]? = some (some n) := by
  simp only [World.node?, Array.getD_eq_getD_getElem?] at h
  cases hx : w.nodes[r]? with
  | none => simp [hx] at h
  | some x =>
    simp only [hx, Option.getD_some] at h
    rw [h]

theorem withNode_self (h : w.node? r = some n) : w.withNode r n = w := by
  have hget := getElem?_of_node? h
  unfold World.withNode
  congr 1
  apply Array.ext_getElem?
  intro i
  rw [Array.getElem?_setIfInBounds]
  split
  next hri =>
    subst hri
    rw [if_pos (lt_size_of_node? h)]
    exact hget.symm
  next => rfl

theorem node?_withNode_self (hn : w.node? r = some n) (n' : Node) :
    (w.withNode r n').node? r = some n' := by
  rw [node?_withNode (lt_size_of_node? hn), if_pos rfl]

end Nodes

section Operations

variable {w : World} {r : NodeRef} {n : Node}

theorem run_bind {α β : Type} (x : NetM α) (f : α → NetM β) (w : World) :
    (x >>= f).run w = (f (x.run w).1).run (x.run w).2 := rfl

theorem get_bind_run {β : Type} (f : World → NetM β) (w : World) :
    (get >>= f).run w = (f w).run w := rfl

theorem getNode_run (r : NodeRef) (w : World) : (getNode r).run w = (w.node? r, w) := rfl

theorem onNode_run {α : Type} (hn : w.node? r = some n) (f : Node → Node × α) :
    (onNode r f).run w = (some (f n).2, w.withNode r (f n).1) := by
  simp [onNode, getNode, setNode, hn]
  rfl

theorem modifyNode_run (hn : w.node? r = some n) (f : Node → Node) :
    (modifyNode r f).run w = ((), w.withNode r (f n)) := by
  simp [modifyNode, getNode, setNode, hn]
  rfl

/-- A datagram changes no node but the one its destination leads to, which files the sender's
bare address. -/
theorem transmit_node (src dst : SocketAddr) (msg : Message) (q : NodeRef) :
    ((transmit src dst msg).run w).2.node? q = w.node? q ∨
      (w.refAt? dst = some q ∧ ∃ m, w.node? q = some m ∧
        ((transmit src dst msg).run w).2.node? q = some (m.getHost (NodeAddr.unkeyed src) []).1) := by
  unfold transmit
  rw [get_bind_run, run_bind]
  dsimp only [StateT.run, set, StateT.set, pure, StateT.pure]
  split
  · exact Or.inl rfl
  · split
    · exact Or.inl rfl
    · cases hr : w.refAt? dst with
      | none => exact Or.inl rfl
      | some r =>
        dsimp only
        cases hrecv : w.node? r with
        | none => exact Or.inl rfl
        | some recv =>
          have hnode := node?_withNode (lt_size_of_node? hrecv)
            (recv.getHost (NodeAddr.unkeyed src) []).1 q
          by_cases hq : q = r
          · subst hq
            rw [if_pos rfl] at hnode
            exact Or.inr ⟨rfl, recv, hrecv, hnode⟩
          · rw [if_neg hq] at hnode
            exact Or.inl hnode

/-- A send whose destination does not lead back to the sender leaves the sender as it was, with
the outcome noted. -/
theorem send_node_of_ne {t : Host.Id} (hn : w.node? r = some n)
    (hdst : w.refAt? (n.reg.addr t) ≠ some r) (msg : Message) :
    ∃ ok, ((send r t msg).run w).2.node? r = some (n.recordOutcome t ok) := by
  have hn₁ : ((transmit n.addr (n.reg.addr t) msg).run w).2.node? r = some n := by
    rcases transmit_node (w := w) n.addr (n.reg.addr t) msg r with hsame | ⟨hto, -⟩
    · rw [hsame, hn]
    · exact absurd hto hdst
  refine ⟨((transmit n.addr (n.reg.addr t) msg).run w).1, ?_⟩
  unfold send
  rw [run_bind, getNode_run, hn]
  dsimp only
  rw [run_bind, run_bind, modifyNode_run hn₁]
  exact node?_withNode_self hn₁ _

theorem addNode_fails {a : NodeAddr} {e : String}
    (he : Overlay.Leafset.reserveError? w.config.leafsetHalfSize = some e) :
    (addNode a).run w = (.error e, w) := by
  simp [addNode, Node.new?, he]
  rfl

/-- A new node at an address where none was ever created takes the next reference, once its
leafset has room. -/
theorem addNode_run (a : NodeAddr) (hfits : Overlay.Leafset.reserveError? w.config.leafsetHalfSize = none)
    (hfresh : w.refAt? a.addr = none) :
    (addNode a).run w = (.ok w.nodes.size, { w with
      nodes := w.nodes.push (some (Node.create a w.config))
      addrs := (a.addr, w.nodes.size) :: w.addrs }) := by
  simp [addNode, Node.new?, hfits, World.liveAt?, hfresh]
  rfl

theorem refAt?_of_addrs {w' : World} {x : SocketAddr} {r : NodeRef}
    (h : w'.addrs = (x, r) :: w.addrs) (y : SocketAddr) :
    w'.refAt? y = if x = y then some r else w.refAt? y := by
  unfold World.refAt?
  rw [h, List.find?_cons]
  by_cases hxy : x = y
  · simp [hxy]
  · simp [beq_false_of_ne hxy, hxy]

/-- A new node at an address where none was ever created: its address leads to it, and every
other address and node stays. -/
theorem addNode_spec (a : NodeAddr) (hfits : Overlay.Leafset.reserveError? w.config.leafsetHalfSize = none)
    (hfresh : w.refAt? a.addr = none) :
    ∃ w', (addNode a).run w = (.ok w.nodes.size, w') ∧ w'.config = w.config ∧ w'.down = w.down ∧
      w'.medium = w.medium ∧ w'.ready = w.ready ∧ w'.timers = w.timers ∧
      w'.nodes.size = w.nodes.size + 1 ∧
      (∀ y, w'.refAt? y = if a.addr = y then some w.nodes.size else w.refAt? y) ∧
      ∀ i, w'.node? i = if i = w.nodes.size then some (Node.create a w.config) else w.node? i := by
  refine ⟨_, addNode_run a hfits hfresh, rfl, rfl, rfl, rfl, rfl, by simp, refAt?_of_addrs rfl,
    fun i => ?_⟩
  simp only [World.node?, Array.getD_eq_getD_getElem?, Array.getElem?_push]
  by_cases hi : i = w.nodes.size
  · simp [hi]
  · simp [hi]

end Operations

section Loops

end Loops

section Frame

/-- What the work of a step leaves alone: the configuration, the addresses, what is down, the
medium and the references that hold nodes. -/
structure Frame (w w' : World) : Prop where
  config : w'.config = w.config
  addrs : w'.addrs = w.addrs
  down : w'.down = w.down
  medium : w'.medium = w.medium
  size : w'.nodes.size = w.nodes.size

theorem Frame.refl (w : World) : Frame w w := ⟨rfl, rfl, rfl, rfl, rfl⟩

theorem Frame.trans {w w' w'' : World} (h : Frame w w') (h' : Frame w' w'') : Frame w w'' :=
  ⟨h'.config.trans h.config, h'.addrs.trans h.addrs, h'.down.trans h.down,
    h'.medium.trans h.medium, h'.size.trans h.size⟩

theorem Frame.withNode (w : World) (r : NodeRef) (n : Node) : Frame w (w.withNode r n) :=
  ⟨rfl, rfl, rfl, rfl, size_withNode w r n⟩

/-- A medium that carries every send between live nodes: it caps no step's sends and lets
datagrams leave. -/
structure Medium.Open (m : Medium) : Prop where
  uncapped : m.sendCap = none
  reachable : m.reachable = true

theorem Medium.Open.admits {m : Medium} (h : m.Open) (sends : Nat) : m.admits sends = true := by
  simp [Medium.admits, h.uncapped]

/-- The first `m` members of the ring `ns` are the nodes of the network, member `i` at reference
`i`; later members have no address yet; the medium is open and nothing is down. -/
structure Wired (ns : List NodeAddr) (m : Nat) (w : World) : Prop where
  medium : w.medium.Open
  down : w.down = []
  size : w.nodes.size = m
  refAt : ∀ i a, ns[i]? = some a → i < m → w.refAt? a.addr = some i
  fresh : ∀ i a, ns[i]? = some a → m ≤ i → w.refAt? a.addr = none

theorem Frame.refAt {w w' : World} (hf : Frame w w') (x : SocketAddr) : w'.refAt? x = w.refAt? x := by
  unfold World.refAt?
  rw [hf.addrs]

theorem Wired.frame {ns : List NodeAddr} {m : Nat} {w w' : World} (hw : Wired ns m w)
    (hf : Frame w w') : Wired ns m w' where
  medium := hf.medium ▸ hw.medium
  down := hf.down.trans hw.down
  size := hf.size.trans hw.size
  refAt i a ha hi := by
    unfold World.refAt?
    rw [hf.addrs]
    exact hw.refAt i a ha hi
  fresh i a ha hi := by
    unfold World.refAt?
    rw [hf.addrs]
    exact hw.fresh i a ha hi

/-- Every node but the one at `r` is still there and is all it was as a member of the ring. -/
def KeptBut (ns : List NodeAddr) (L : Nat) (r : NodeRef) (w w' : World) : Prop :=
  ∀ r', r' ≠ r → ∀ y, w.node? r' = some y → ∃ y', w'.node? r' = some y' ∧ Keeps ns L y y'

theorem KeptBut.refl (ns : List NodeAddr) (L : Nat) (r : NodeRef) (w : World) :
    KeptBut ns L r w w :=
  fun _ _ y hy => ⟨y, hy, Keeps.refl ns L y⟩

theorem KeptBut.trans {ns : List NodeAddr} {L : Nat} {r : NodeRef} {w w' w'' : World}
    (h : KeptBut ns L r w w') (h' : KeptBut ns L r w' w'') : KeptBut ns L r w w'' := by
  intro r' hr' y hy
  obtain ⟨y', hy', hk⟩ := h r' hr' y hy
  obtain ⟨y'', hy'', hk'⟩ := h' r' hr' y' hy'
  exact ⟨y'', hy'', hk.trans hk'⟩

theorem KeptBut.withNode {ns : List NodeAddr} {L : Nat} {w : World} {r : NodeRef} (hr : r < w.nodes.size)
    (n : Node) : KeptBut ns L r w (w.withNode r n) := by
  intro r' hr' y hy
  refine ⟨y, ?_, Keeps.refl ns L y⟩
  rw [node?_withNode hr, if_neg hr']
  exact hy

end Frame

section Send

variable {ns : List NodeAddr} {L : Nat} {w : World} {r i : NodeRef} {n recv : Node}
  {target : Host.Id}

/-- A send between two live nodes of an open network arrives: the receiver files the sender's
bare address, the delivery is queued last, and the sender notes a success. -/
theorem send_spec (haddrs : (ns.map (·.addr)).Nodup) (hn : w.node? r = some n)
    (hopen : w.medium.Open) (hdown : w.down = [])
    (hr : w.refAt? (n.reg.addr target) = some i) (hi : w.node? i = some recv) (hne : i ≠ r)
    (msg : Message) :
    ∃ w', (send r target msg).run w = (true, w') ∧ Frame w w' ∧ KeptBut ns L r w w' ∧
      w'.node? r = some (n.recordOutcome target true) ∧
      w'.ready = w.ready ++ [.deliver i msg] ∧ w'.timers = w.timers := by
  have hsize := lt_size_of_node? hn
  have hisize := lt_size_of_node? hi
  have hget := getElem?_of_node? hn
  have higet := getElem?_of_node? hi
  set recv' := (recv.getHost (NodeAddr.unkeyed n.addr) []).1
  set w₁ : World := { w.withNode i recv' with
    sends := w.sends + 1
    ready := w.ready ++ [.deliver i msg]
    events := w.events.push (.sent n.addr (n.reg.addr target) true msg) } with hw₁
  have hsize₁ : r < w₁.nodes.size := by simpa [w₁] using hsize
  have hisize₁ : i < w₁.nodes.size := by simpa [w₁] using hisize
  have hnode₁ : ∀ r', w₁.node? r' = if r' = i then some recv' else w.node? r' :=
    node?_withNode hisize recv'
  refine ⟨w₁.withNode r (n.recordOutcome target true), ?_, ⟨rfl, rfl, rfl, rfl, by simp [w₁]⟩,
    ?_, ?_, rfl, rfl⟩
  · simp [send, transmit, getNode, modifyNode, setNode, hopen.admits, hopen.reachable, hdown, hr,
      hget, higet, enqueue, logEvent, World.node?, World.withNode, hne, w₁, recv']
    rfl
  · intro r' hr' y hy
    rw [node?_withNode hsize₁, if_neg hr', hnode₁]
    by_cases hri : r' = i
    · subst hri
      rw [hi] at hy
      cases hy
      exact ⟨_, if_pos rfl, Keeps.getHost_unkeyed haddrs recv n.addr []⟩
    · exact ⟨y, by rw [if_neg hri]; exact hy, Keeps.refl ns L y⟩
  · rw [node?_withNode hsize₁, if_pos rfl]

end Send

section Handle

variable {w w' : World}

theorem discard_run {α : Type} (x : NetM α) (w : World) : (discard x).run w = ((), (x.run w).2) :=
  rfl

variable {r : NodeRef} {msg : Message}

/-- A message that passes its check and is handled where it arrives is never refused. -/
theorem handle_dispatch (hh : (dispatch r msg).run w = ((), w')) (hv : msg.validate = .ok ())
    (hk : msg.kind.mustRoute = false) : (handle r msg).run w = (.ok (), w') := by
  unfold handle
  rw [hv]
  simp only [hk, Bool.false_eq_true, if_false]
  rw [run_bind, hh]
  rfl

/-- A message that passes its check and travels towards its key is never refused. -/
theorem handle_route {b : Bool} (hh : (routeMessage r msg).run w = (b, w'))
    (hv : msg.validate = .ok ()) (hk : msg.kind.mustRoute = true) :
    (handle r msg).run w = (.ok (), w') := by
  unfold handle
  rw [hv]
  simp only [hk, if_true]
  rw [run_bind, discard_run, hh]
  rfl

end Handle

end PeerRing.Network
