import PeerRing.Network.Session
import PeerRing.Proofs.Node.Identity
import PeerRing.Proofs.Network.Handlers
import Mathlib
/-! # A node's own key under the messages it handles

Handling a message that passes its check keeps the node's own record: its key and address
stay, and it never enters the node's routing state. The one exception is a PING whose address
argument is the node's own socket address under another non-zero key: the node files it as it
files any sender and so gives its own record that key. Filing a sender's bare address, as
every receiver does, keeps the own record too.

The runs of the network are reasoned about through `RunsTo P x Q`: every run of `x` from a
network where `P` holds ends in one where `Q` holds. Its rules follow the shape of the
handlers: binds, reads of a node, loops over lists, and the few operations that change a node.
-/
namespace PeerRing.Network

open Net Node

/-- Every run of `x` from a network where `P` holds ends in one where `Q` holds. -/
def RunsTo {α : Type} (P : World → Prop) (x : NetM α) (Q : World → Prop) : Prop :=
  ∀ w, P w → Q (x.run w).2

section Calculus

variable {α β : Type} {P P' Q R : World → Prop}

theorem runsTo_pure (h : ∀ w, P w → Q w) (a : α) : RunsTo P (pure a : NetM α) Q := h

theorem RunsTo.weaken {x : NetM α} (hx : RunsTo P x Q) (hP : ∀ w, P' w → P w) : RunsTo P' x Q :=
  fun w hw => hx w (hP w hw)

theorem RunsTo.bind {x : NetM α} {f : α → NetM β} (hx : RunsTo P x R) (hf : ∀ a, RunsTo R (f a) Q) :
    RunsTo P (x >>= f) Q := fun w hw => by
  rw [run_bind]
  exact hf _ _ (hx w hw)

theorem RunsTo.discard {x : NetM α} (hx : RunsTo P x Q) : RunsTo P (Functor.discard x) Q :=
  fun w hw => by
    rw [discard_run]
    exact hx w hw

/-- A read of a node: what follows may use the node read. -/
theorem runsTo_getNode_bind {r : NodeRef} {f : Option Node → NetM β}
    (hf : ∀ o, RunsTo (fun w => P w ∧ w.node? r = o) (f o) Q) : RunsTo P (getNode r >>= f) Q :=
  fun w hw => by
    rw [run_bind, getNode_run]
    exact hf _ w ⟨hw, rfl⟩

theorem runsTo_get : RunsTo P (get : NetM World) P := fun _ hw => hw

/-- A read of the whole network: what follows may use the network read. -/
theorem runsTo_get_bind {f : World → NetM β} (hf : ∀ w₀, RunsTo (fun w => P w ∧ w = w₀) (f w₀) Q) :
    RunsTo P (get >>= f) Q :=
  fun w hw => hf w w ⟨hw, rfl⟩

theorem runsTo_set {w₁ : World} (h : ∀ w, P w → Q w₁) : RunsTo P (set w₁ : NetM PUnit) Q := h

theorem RunsTo.forIn {xs : List α} {f : α → β → NetM (ForInStep β)} (hf : ∀ a b, RunsTo P (f a b) P)
    (init : β) : RunsTo P (forIn xs init f) P := by
  induction xs generalizing init with
  | nil => exact runsTo_pure (fun _ hw => hw) init
  | cons a xs ih =>
    rw [List.forIn_cons]
    refine (hf a init).bind fun step => ?_
    cases step with
    | done b => exact runsTo_pure (fun _ hw => hw) b
    | yield b => exact ih b

end Calculus

section At

variable {P : Node → Prop} {r q : NodeRef} {w : World}

/-- There is a node at `r`, and it satisfies `P`. -/
def NodeAt (P : Node → Prop) (r : NodeRef) (w : World) : Prop :=
  ∃ n, w.node? r = some n ∧ P n

theorem NodeAt.own {n : Node} (hw : NodeAt P r w) (hn : w.node? r = some n) : P n := by
  obtain ⟨n', hn', hk⟩ := hw
  rw [hn] at hn'
  exact Option.some.inj hn' ▸ hk

theorem NodeAt.of_nodes {w' : World} (hw : NodeAt P r w) (h : w'.nodes = w.nodes) :
    NodeAt P r w' := by
  obtain ⟨n, hn, hk⟩ := hw
  exact ⟨n, by rwa [World.node?, h], hk⟩

theorem NodeAt.withNode {n : Node} (hw : NodeAt P r w) (hn : q = r → P n) :
    NodeAt P r (w.withNode q n) := by
  obtain ⟨n₀, hn₀, hk₀⟩ := hw
  by_cases hq : q < w.nodes.size
  · by_cases he : r = q
    · exact ⟨n, by rw [node?_withNode hq, if_pos he], hn he.symm⟩
    · exact ⟨n₀, by rw [node?_withNode hq, if_neg he]; exact hn₀, hk₀⟩
  · have hsame : (w.withNode q n).nodes = w.nodes := by
      simp [World.withNode, Array.setIfInBounds, hq]
    exact NodeAt.of_nodes ⟨n₀, hn₀, hk₀⟩ hsame

theorem runsTo_modify {f : World → World} (hf : ∀ w, (f w).nodes = w.nodes) :
    RunsTo (NodeAt P r) (modify f : NetM Unit) (NodeAt P r) :=
  fun w hw => hw.of_nodes (hf w)

theorem runsTo_setNode {n : Node} (hn : q = r → P n) :
    RunsTo (NodeAt P r) (setNode q n) (NodeAt P r) :=
  fun _ hw => hw.withNode hn

theorem runsTo_modifyNode {f : Node → Node} (hf : q = r → ∀ n, P n → P (f n)) :
    RunsTo (NodeAt P r) (modifyNode q f) (NodeAt P r) := by
  intro w hw
  cases hn : w.node? q with
  | none =>
    have hrun : (modifyNode q f).run w = ((), w) := by
      simp [modifyNode, getNode, hn]
      rfl
    rw [hrun]
    exact hw
  | some n =>
    rw [modifyNode_run hn]
    exact hw.withNode fun he => hf he n (hw.own (he ▸ hn))

theorem runsTo_onNode {γ : Type} {f : Node → Node × γ} (hf : q = r → ∀ n, P n → P (f n).1) :
    RunsTo (NodeAt P r) (onNode q f) (NodeAt P r) := by
  intro w hw
  cases hn : w.node? q with
  | none =>
    have hrun : (onNode q f).run w = (none, w) := by
      simp [onNode, getNode, hn]
      rfl
    rw [hrun]
    exact hw
  | some n =>
    rw [onNode_run hn]
    exact hw.withNode fun he => hf he n (hw.own (he ▸ hn))

theorem runsTo_enqueue (t : Task) : RunsTo (NodeAt P r) (enqueue t) (NodeAt P r) :=
  runsTo_modify fun _ => rfl

theorem runsTo_startTimer (due : Nat) (job : Job) :
    RunsTo (NodeAt P r) (startTimer q due job) (NodeAt P r) :=
  fun _ hw => hw.of_nodes rfl

theorem runsTo_spawn (t : Nat → Task) : RunsTo (NodeAt P r) (spawn t) (NodeAt P r) :=
  fun _ hw => hw.of_nodes rfl

theorem runsTo_onJoinNack (hretry : ∀ n, P n → ∀ id, P { n with joinRetry := some id }) :
    RunsTo (NodeAt P r) (onJoinNack r) (NodeAt P r) := by
  unfold onJoinNack
  refine runsTo_getNode_bind fun o => ?_
  cases o with
  | none => exact runsTo_pure (fun _ hw => hw.1) ()
  | some n =>
    dsimp only
    have hset : ∀ id, RunsTo (NodeAt P r) (modifyNode r fun n => { n with joinRetry := some id })
        (NodeAt P r) := fun id => runsTo_modifyNode fun _ n hk => hretry n hk id
    split
    · exact ((runsTo_spawn _).weaken fun _ hw => hw.1).bind hset
    · exact (runsTo_get.weaken fun _ hw => hw.1).bind fun _ => (runsTo_startTimer _ _).bind hset

theorem runsTo_onRoute (msg : Message) : RunsTo (NodeAt P r) (onRoute r msg) (NodeAt P r) := by
  unfold onRoute
  split
  · refine runsTo_getNode_bind fun o => ?_
    cases o with
    | none => exact runsTo_pure (fun _ hw => hw.1) ()
    | some n => exact (runsTo_modify fun _ => rfl).weaken fun _ hw => hw.1
  · exact runsTo_pure (fun _ hw => hw) ()

/-- A datagram changes no node but its receiver, which files the sender's bare address. -/
theorem runsTo_transmit (hP : ∀ n, P n → ∀ src, P (n.getHost (NodeAddr.unkeyed src) []).1)
    (src dst : SocketAddr) (msg : Message) : RunsTo (NodeAt P r) (transmit src dst msg) (NodeAt P r) := by
  intro w hw
  rcases transmit_node (w := w) src dst msg r with hsame | ⟨-, m, hm, hnew⟩
  · obtain ⟨n, hn, hk⟩ := hw
    exact ⟨n, hsame.trans hn, hk⟩
  · exact ⟨_, hnew, hP m (hw.own hm) src⟩

/-- A send changes no node but its receiver and the sender, which notes the outcome. -/
theorem runsTo_send (hP : ∀ n, P n → ∀ src, P (n.getHost (NodeAddr.unkeyed src) []).1)
    (hrec : q = r → ∀ n, P n → ∀ t ok, P (n.recordOutcome t ok))
    (target : Host.Id) (msg : Message) : RunsTo (NodeAt P r) (send q target msg) (NodeAt P r) := by
  unfold send
  refine runsTo_getNode_bind fun o => ?_
  cases o with
  | none => exact runsTo_pure (fun _ hw => hw.1) false
  | some n =>
    refine ((runsTo_transmit hP _ _ msg).weaken fun _ hw => hw.1).bind fun ok => ?_
    exact (runsTo_modifyNode fun he n hk => hrec he n hk target ok).bind fun _ =>
      runsTo_pure (fun _ hw => hw) ok

end At

section Kept

variable {a0 : NodeAddr} {L : Nat} {r q : NodeRef}

/-- There is a node at `r`, and it keeps its own record `a0` with half size `L`. -/
abbrev KeptAt (a0 : NodeAddr) (L : Nat) : NodeRef → World → Prop := NodeAt (OwnKept a0 L)

theorem keptAt_send (target : Host.Id) (msg : Message) :
    RunsTo (KeptAt a0 L r) (send q target msg) (KeptAt a0 L r) :=
  runsTo_send (fun _ hk _ => hk.getHost (Or.inr (Or.inl rfl)) [])
    (fun _ _ hk t ok => hk.recordOutcome t ok) target msg

theorem keptAt_start : RunsTo (KeptAt a0 L r) (start q) (KeptAt a0 L r) := by
  unfold start
  refine runsTo_getNode_bind fun o => ?_
  cases o with
  | none => exact runsTo_pure (fun _ hw => hw.1) ()
  | some n =>
    dsimp only
    split
    · exact runsTo_pure (fun _ hw => hw.1) ()
    · refine (runsTo_get.weaken fun _ hw => hw.1).bind fun _ => ?_
      exact (runsTo_startTimer _ _).bind fun _ =>
        runsTo_modifyNode fun _ n hk => hk.congr rfl rfl rfl rfl

/-- Filing a host address that does not re-key the own record keeps it. -/
theorem runsTo_peerOf {a : NodeAddr} (hsafe : a.addr ≠ a0.addr ∨ a.key.isZero = true ∨ a.key = a0.key)
    (held : List Host.Id) : RunsTo (KeptAt a0 L r) (peerOf q a held) (KeptAt a0 L r) :=
  runsTo_onNode fun _ _ hk => hk.peer hsafe held

/-- Filing a host address that the node at `r` does not take for itself keeps its own record. -/
theorem runsTo_peerOf_notMe {n : Node} {a : NodeAddr} (hme : n.isMe a = false) (held : List Host.Id) :
    RunsTo (fun w => KeptAt a0 L r w ∧ w.node? r = some n) (peerOf r a held) (KeptAt a0 L r) := by
  intro w ⟨hw, hn⟩
  have haddr : n.addr = a0.addr := congrArg NodeAddr.addr (hw.own hn).self
  simp only [Node.isMe, Bool.or_eq_false_iff, beq_eq_false_iff_ne] at hme
  exact runsTo_peerOf (Or.inl (haddr ▸ hme.1)) held w hw

theorem runsTo_addToRouting (h : Host.Id) :
    RunsTo (KeptAt a0 L r) (addToRouting q h) (KeptAt a0 L r) :=
  (runsTo_onNode fun _ _ hk => hk.addPeer h).bind fun _ => runsTo_pure (fun _ hw => hw) _

end Kept

section Handlers

variable {a0 : NodeAddr} {L : Nat} {r : NodeRef}

theorem runsTo_onUpdate (msg : Message) :
    RunsTo (KeptAt a0 L r) (onUpdate r msg) (KeptAt a0 L r) := by
  unfold onUpdate
  split
  · refine runsTo_getNode_bind fun o => ?_
    cases o with
    | none => exact runsTo_pure (fun _ hw => hw.1) ()
    | some n =>
      dsimp only
      split
      · exact runsTo_pure (fun _ hw => hw.1) ()
      · next hme =>
        refine (runsTo_peerOf_notMe (by simpa using hme) []).bind fun o => ?_
        cases o with
        | none => exact runsTo_pure (fun _ hw => hw) ()
        | some h => exact (runsTo_addToRouting h).discard
  · exact runsTo_pure (fun _ hw => hw) ()

theorem runsTo_onPiggy (msg : Message) :
    RunsTo (KeptAt a0 L r) (onPiggy r msg) (KeptAt a0 L r) := by
  unfold onPiggy
  split
  · refine (RunsTo.forIn (fun a s => ?_) _).bind fun s => ?_
    · -- one listed host: filed unless it is the node itself, then offered unless it failed
      refine runsTo_getNode_bind fun o => ?_
      cases o with
      | none => exact runsTo_pure (fun _ hw => hw.1) _
      | some n =>
        dsimp only
        split
        · exact runsTo_pure (fun _ hw => hw.1) _
        · next hme =>
          refine (runsTo_peerOf_notMe (by simpa using hme) []).bind fun o => ?_
          cases o with
          | none => exact runsTo_pure (fun _ hw => hw) _
          | some h =>
            dsimp only
            refine runsTo_getNode_bind fun o => ?_
            cases o with
            | none => exact runsTo_pure (fun _ hw => hw.1) _
            | some n' =>
              dsimp only
              refine (runsTo_get.weaken fun _ hw => hw.1).bind fun _ => ?_
              split
              · exact runsTo_pure (fun _ hw => hw) _
              · exact (runsTo_addToRouting h).discard.bind fun _ => runsTo_pure (fun _ hw => hw) _
    · dsimp only
      split <;> exact runsTo_pure (fun _ hw => hw) _
  · exact runsTo_pure (fun _ hw => hw) ()

theorem runsTo_onJoin (msg : Message) :
    RunsTo (KeptAt a0 L r) (onJoin r msg) (KeptAt a0 L r) := by
  unfold onJoin
  split
  · refine runsTo_getNode_bind fun o => ?_
    cases o with
    | none => exact runsTo_pure (fun _ hw => hw.1) ()
    | some n =>
      dsimp only
      split
      · exact runsTo_pure (fun _ hw => hw.1) ()
      · next hme =>
        refine (runsTo_peerOf_notMe (by simpa using hme) []).bind fun o => ?_
        cases o with
        | none => exact runsTo_pure (fun _ hw => hw) ()
        | some j =>
          dsimp only
          refine runsTo_getNode_bind fun o => ?_
          cases o with
          | none => exact runsTo_pure (fun _ hw => hw.1) ()
          | some n' =>
            dsimp only
            refine (runsTo_get.weaken fun _ hw => hw.1).bind fun _ => ?_
            split
            · exact (keptAt_send _ _).discard
            · exact (keptAt_send _ _).discard
  · exact runsTo_pure (fun _ hw => hw) ()

theorem runsTo_onJoinAck (msg : Message) :
    RunsTo (KeptAt a0 L r) (onJoinAck r msg) (KeptAt a0 L r) := by
  unfold onJoinAck
  split
  · dsimp only
    refine (RunsTo.forIn (fun a s => ?_) _).bind fun s => ?_
    · -- one listed host: filed and offered unless it is the node itself
      refine runsTo_getNode_bind fun o => ?_
      cases o with
      | none => exact runsTo_pure (fun _ hw => hw.1) _
      | some n =>
        dsimp only
        split
        · exact runsTo_pure (fun _ hw => hw.1) _
        · next hme =>
          refine (runsTo_peerOf_notMe (by simpa using hme) _).bind fun o => ?_
          cases o with
          | none => exact runsTo_pure (fun _ hw => hw) _
          | some h =>
            dsimp only
            refine (runsTo_addToRouting h).discard.bind fun _ => ?_
            split <;> exact runsTo_pure (fun _ hw => hw) _
    · split
      · exact runsTo_pure (fun _ hw => hw) _
      · refine runsTo_getNode_bind fun o => ?_
        cases o with
        | none => exact runsTo_pure (fun _ hw => hw.1) ()
        | some n =>
          dsimp only
          refine ((RunsTo.forIn (fun h s => ?_) _).weaken fun _ hw => hw.1).bind fun s => ?_
          · split <;> exact runsTo_pure (fun _ hw => hw) _
          · -- the announcements go out, then stabilization starts
            refine (RunsTo.forIn (fun h s => ?_) _).bind fun s => ?_
            · refine runsTo_getNode_bind fun o => ?_
              cases o with
              | none => exact runsTo_pure (fun _ hw => hw.1) _
              | some n =>
                dsimp only
                exact ((keptAt_send _ _).discard.weaken fun _ hw => hw.1).bind fun _ =>
                  runsTo_pure (fun _ hw => hw) _
            · split
              · exact runsTo_pure (fun _ hw => hw) _
              · exact keptAt_start
  · exact runsTo_pure (fun _ hw => hw) ()

theorem runsTo_onPing {msg : Message}
    (hsafe : ∀ a, msg.addrArg 0 = some a → a.addr ≠ a0.addr ∨ a.key.isZero = true ∨ a.key = a0.key) :
    RunsTo (KeptAt a0 L r) (onPing r msg) (KeptAt a0 L r) := by
  unfold onPing
  split
  · next a ha => exact (runsTo_peerOf (hsafe a ha) []).discard
  · exact runsTo_pure (fun _ hw => hw) ()

/-- A PING whose address argument is the socket address of `a0` under a non-zero key other
than `a0`'s. -/
def RekeysSelf (a0 : NodeAddr) (msg : Message) : Prop :=
  msg.kind = .ping ∧ ∃ a, msg.addrArg 0 = some a ∧ a.addr = a0.addr ∧ a.key.isZero = false ∧
    a.key ≠ a0.key

theorem safe_of_not_rekeysSelf {msg : Message} (h : ¬ RekeysSelf a0 msg) (hk : msg.kind = .ping) :
    ∀ a, msg.addrArg 0 = some a → a.addr ≠ a0.addr ∨ a.key.isZero = true ∨ a.key = a0.key := by
  intro a ha
  by_contra hno
  simp only [not_or, ne_eq, not_not, Bool.not_eq_true] at hno
  exact h ⟨hk, a, ha, hno.1, hno.2.1, hno.2.2⟩

theorem runsTo_dispatch {msg : Message} (h : ¬ RekeysSelf a0 msg) :
    RunsTo (KeptAt a0 L r) (dispatch r msg) (KeptAt a0 L r) := by
  unfold dispatch
  split
  · exact runsTo_onJoin msg
  · exact runsTo_onJoinAck msg
  · exact runsTo_onJoinNack fun _ hk _ => hk.congr rfl rfl rfl rfl
  · exact runsTo_onUpdate msg
  · exact runsTo_onPiggy msg
  · next hk => exact runsTo_onPing (safe_of_not_rekeysSelf h hk)
  · exact runsTo_onRoute msg

theorem runsTo_routeMessage {msg : Message} (h : ¬ RekeysSelf a0 msg) :
    RunsTo (KeptAt a0 L r) (routeMessage r msg) (KeptAt a0 L r) := by
  unfold routeMessage
  refine runsTo_getNode_bind fun o => ?_
  cases o with
  | none => exact runsTo_pure (fun _ hw => hw.1) false
  | some n =>
    dsimp only
    split
    · exact ((runsTo_dispatch h).weaken fun _ hw => hw.1).bind fun _ =>
        runsTo_pure (fun _ hw => hw) true
    · exact (keptAt_send _ _).weaken fun _ hw => hw.1

/-- Handling a message keeps the own record, unless the message is a PING that names the
node's socket address under another non-zero key. -/
theorem runsTo_handle {msg : Message} (h : ¬ RekeysSelf a0 msg) :
    RunsTo (KeptAt a0 L r) (handle r msg) (KeptAt a0 L r) := by
  unfold handle
  split
  · exact runsTo_pure (fun _ hw => hw) _
  · dsimp only
    split
    · exact (runsTo_routeMessage h).discard.bind fun _ => runsTo_pure (fun _ hw => hw) _
    · exact (runsTo_dispatch h).bind fun _ => runsTo_pure (fun _ hw => hw) _

end Handlers

section Runs

/-- What reaches a node from outside: a message to handle, or the bare socket address of a
sender to file. -/
inductive Input
  | message (msg : Message)
  | sender (src : SocketAddr)

/-- Feeds one input to the node at `r`. -/
def Input.feed (r : NodeRef) : Input → NetM Unit
  | .message msg => discard (handle r msg)
  | .sender src => discard (hostAt r (NodeAddr.unkeyed src))

variable {a0 : NodeAddr} {L : Nat} {r : NodeRef}

theorem runsTo_feed {i : Input} (h : ∀ msg, i = .message msg → ¬ RekeysSelf a0 msg) :
    RunsTo (KeptAt a0 L r) (i.feed r) (KeptAt a0 L r) := by
  cases i with
  | message msg => exact (runsTo_handle (h msg rfl)).discard
  | sender src =>
    -- a bare address asks for no key
    exact (runsTo_onNode fun _ _ hk => hk.getHost (Or.inr (Or.inl rfl)) []).discard

/-- A sequence of inputs keeps the own record when none of its messages re-keys it. -/
theorem runsTo_feedAll {ins : List Input} (h : ∀ msg, Input.message msg ∈ ins → ¬ RekeysSelf a0 msg) :
    RunsTo (KeptAt a0 L r) (forM ins (Input.feed r)) (KeptAt a0 L r) := by
  induction ins with
  | nil => exact runsTo_pure (fun _ hw => hw) ()
  | cons i ins ih =>
    rw [List.forM_cons]
    refine (runsTo_feed fun msg he => h msg (he ▸ List.mem_cons_self)).bind fun _ => ?_
    exact ih fun msg hm => h msg (List.mem_cons_of_mem _ hm)

theorem node?_addNode {a : NodeAddr} {w w₁ : World} (h : (addNode a).run w = (.ok r, w₁)) :
    w₁.node? r = some (Node.create a w.config) := by
  cases hfits : Overlay.Leafset.reserveError? w.config.leafsetHalfSize with
  | some e =>
    rw [addNode_fails hfits] at h
    cases h
  | none =>
    obtain ⟨ns, hrun⟩ : ∃ ns : Array (Option Node), (addNode a).run w =
        (.ok ns.size, { w with nodes := ns.push (some (Node.create a w.config))
                               addrs := (a.addr, ns.size) :: w.addrs }) := by
      cases hl : w.liveAt? a.addr with
      | none => exact ⟨w.nodes, by simp [addNode, Node.new?, hfits, hl]; rfl⟩
      | some old => exact ⟨w.nodes.setIfInBounds old none, by simp [addNode, Node.new?, hfits, hl]; rfl⟩
    rw [hrun] at h
    cases h
    simp [World.node?]

theorem keptAt_addNode {a : NodeAddr} {w w₁ : World} (h : (addNode a).run w = (.ok r, w₁)) :
    KeptAt a w.config.leafsetHalfSize r w₁ :=
  ⟨_, node?_addNode h, OwnKept.create a w.config⟩

/-- A node created at `a0` keeps its own record under every sequence of messages and sender
addresses in which no PING names its socket address under another non-zero key: the record
keeps its key and address, and it never becomes a leafset member or a routing-table entry. -/
theorem own_record_kept {w w₁ : World} (hr : (addNode a0).run w = (.ok r, w₁)) (ins : List Input)
    (h : ∀ msg, Input.message msg ∈ ins → ¬ RekeysSelf a0 msg) :
    ∃ n, ((forM ins (Input.feed r)).run w₁).2.node? r = some n ∧
      n.meAddr = a0 ∧ n.me ∉ n.leafsetHosts ∧ n.me ∉ n.tableHosts := by
  have hkept : KeptAt a0 w.config.leafsetHalfSize r w₁ := keptAt_addNode hr
  obtain ⟨n, hn, hk⟩ := runsTo_feedAll h w₁ hkept
  obtain ⟨-, hls, htab⟩ := hk.not_mem
  exact ⟨n, hn, hk.self, hls, htab⟩

/-- The host address `1000…0@127.0.0.1:5001`. -/
def sampleHost : NodeAddr := ⟨Key.ofNat (16 ^ 39), .v4 (127, 0, 0, 1) 5001⟩

/-- A sender's address, then a PING from key 2 naming `127.0.0.1:5002`. -/
def sampleInputs : List Input :=
  [.sender (.v4 (127, 0, 0, 1) 5002),
    .message (Message.ping (Key.ofNat 2) sampleHost.key ⟨Key.ofNat 2, .v4 (127, 0, 0, 1) 5002⟩)]

theorem own_record_kept_sample :
    (∀ msg, Input.message msg ∈ sampleInputs → ¬ RekeysSelf sampleHost msg) ∧
      ∃ n, ((forM sampleInputs (Input.feed 0)).run ((addNode sampleHost).run { config := {} }).2).2.node? 0 =
        some n ∧ n.meAddr = sampleHost ∧ n.me ∉ n.leafsetHosts ∧ n.me ∉ n.tableHosts := by
  have h : ∀ msg, Input.message msg ∈ sampleInputs → ¬ RekeysSelf sampleHost msg := by
    rintro msg hm ⟨-, a, ha, haddr, -⟩
    simp only [sampleInputs, List.mem_cons, Input.message.injEq, reduceCtorEq, List.not_mem_nil,
      or_false, false_or] at hm
    subst hm
    simp only [Message.addrArg, Message.ping, List.getElem?_cons_zero, Option.some.injEq] at ha
    subst ha
    exact absurd haddr (by decide)
  have hr : (addNode sampleHost).run { config := {} } =
      (.ok 0, ((addNode sampleHost).run { config := {} }).2) := rfl
  exact ⟨h, own_record_kept hr sampleInputs h⟩

/-- A PING naming the node's own socket address under a non-zero key gives the node's own record
that key, whenever the cache holds the own record under that address. -/
theorem handle_ping_rekeys {w : World} {n : Node} (hn : w.node? r = some n) (hk : OwnKept a0 L n)
    (hc : n.cache.lookup a0.addr = some n.me) (src dst : Key) {k : Key} (hz : k.isZero = false) :
    ∃ n', ((handle r (Message.ping src dst ⟨k, a0.addr⟩)).run w).2.node? r = some n' ∧ n'.key = k := by
  refine ⟨_, ?_, hk.key_peer_self hc hz []⟩
  rw [handle_ping_run hn, node?_withNode (lt_size_of_node? hn), if_pos rfl]

/-- A new node with key `1000…0` at `127.0.0.1:5001`, sent a PING naming that address under key
`7700…0`, takes that key for itself. -/
theorem ping_rekeys_new_node :
    ∃ n, ((handle 0 (Message.ping (Key.ofNat (0x77 * 16 ^ 38)) sampleHost.key
        ⟨Key.ofNat (0x77 * 16 ^ 38), sampleHost.addr⟩)).run
        ((addNode sampleHost).run { config := {} }).2).2.node? 0 = some n ∧ n.key ≠ sampleHost.key := by
  have hn := node?_addNode (show (addNode sampleHost).run { config := {} } =
    (.ok 0, ((addNode sampleHost).run { config := {} }).2) from rfl)
  obtain ⟨n, hn', hkey⟩ := handle_ping_rekeys hn (OwnKept.create sampleHost {})
    (Node.lookup_create sampleHost {}) (Key.ofNat (0x77 * 16 ^ 38)) sampleHost.key
    (k := Key.ofNat (0x77 * 16 ^ 38)) (by decide)
  refine ⟨n, hn', ?_⟩
  rw [hkey]
  decide

end Runs

end PeerRing.Network
