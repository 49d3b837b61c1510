import PeerRing.Proofs.Overlay.Idempotence
import PeerRing.Proofs.Overlay.Fallback
import PeerRing.Proofs.Network.Identity
import Mathlib
/-! # Handling a message twice

A node handed the same message twice in a row, of any kind but PIGGY and JOIN_ACK, ends the
second handling with the routing state, the own record and the record keys that the first one
left, whatever the network did in between: other nodes, the queue, the clock and the outcomes of
every send.

Filing an address a second time finds its record under the address with the asked key, and
refreshing the record finds it where its key belongs. UPDATE and PING do nothing else, so the
second handling leaves the node exactly as the first did. A JOIN the node answers is answered
again; a message passed on is passed on again, since where a message goes reads only the routing
state and the keys; a ROUTE delivered and a JOIN_NACK change no routing state at all.

The node's routing state has the shape every routing state keeps, its cache files each entry
under a record at the entry's address, and only its own address leads to it.
-/
namespace PeerRing

open Overlay Host Net

namespace Node

variable {n m : Node} {a : NodeAddr} {held : List Id}

theorem peer_def (n : Node) (a : NodeAddr) (held : List Id) :
    n.peer a held = ({ (n.getHost a held).1 with routing := ((n.getHost a held).1.routing.refresh
      (n.getHost a held).1.view (n.getHost a held).2).1 }, (n.getHost a held).2) := rfl

theorem addPeer_def (n : Node) (h : Id) :
    n.addPeer h = ({ n with routing := (n.routing.add n.view h).1 }, (n.routing.add n.view h).2) :=
  rfl

/-- Filing an address a second time answers the same record and changes nothing, whatever the
node changed in between besides its cache and its records. -/
theorem getHost_again (hc : m.cache = (n.getHost a held).1.cache)
    (hreg : m.reg = (n.getHost a held).1.reg) (held' : List Id) :
    m.getHost a held' = (m, (n.getHost a held).2) := by
  have hg := @Cache.getHost_getHost n.cache n.reg a
    (fun h => n.refersTo h || held.contains h) (fun h => m.refersTo h || held'.contains h)
  simp only [Node.getHost] at hc hreg ⊢
  rw [hc, hreg, hg, ← hc, ← hreg]

theorem peer_peer (hs : n.routing.Shaped) (held' : List Id) :
    (n.peer a held).1.peer a held' = n.peer a held := by
  have hs' : (n.getHost a held).1.routing.Shaped := hs
  rw [peer_def (n.peer a held).1, @getHost_again n (n.peer a held).1 a held rfl rfl held',
    peer_def n a held]
  simp only [Node.view]
  rw [Routing.refresh_refresh hs']

theorem addPeer_addPeer (hs : n.routing.Shaped) (h : Id) :
    ((n.addPeer h).1.addPeer h).1 = (n.addPeer h).1 := by
  rw [addPeer_def n h]
  dsimp only
  rw [addPeer_def]
  simp only [Node.view]
  rw [Routing.add_add hs]

/-- Once an address is filed and its record offered, filing it again changes nothing: the record
is in front of the cache with its key, and routing state is at rest for it. -/
theorem peer_addPeer (hs : n.routing.Shaped) (held' : List Id) :
    ((n.peer a held).1.addPeer (n.peer a held).2).1.peer a held' =
      (((n.peer a held).1.addPeer (n.peer a held).2).1, (n.peer a held).2) := by
  have hs' : (n.getHost a held).1.routing.Shaped := hs
  rw [peer_def ((n.peer a held).1.addPeer (n.peer a held).2).1,
    @getHost_again n ((n.peer a held).1.addPeer (n.peer a held).2).1 a held rfl rfl held',
    addPeer_def, peer_def n a held]
  simp only [Node.view]
  rw [Routing.refresh_of_fresh ((Routing.fresh_refresh hs').add hs'.refresh)]

/-- What an UPDATE naming `a` does to a node: unless `a` names the node itself, the address is
filed, its record placed again if it re-keyed, and offered to routing state. -/
def takeUpdate (a : NodeAddr) (n : Node) : Node :=
  if n.isMe a then n else ((n.peer a []).1.addPeer (n.peer a []).2).1

theorem shaped_takeUpdate (hs : n.routing.Shaped) : (n.takeUpdate a).routing.Shaped := by
  unfold takeUpdate
  split
  · exact hs
  · exact hs.refresh.add

theorem takeUpdate_takeUpdate (hs : n.routing.Shaped) :
    (n.takeUpdate a).takeUpdate a = n.takeUpdate a := by
  unfold takeUpdate
  by_cases hme : n.isMe a = true
  · simp only [hme, if_true]
  · simp only [hme, Bool.false_eq_true, if_false]
    split
    · rfl
    · rw [peer_addPeer hs []]
      exact addPeer_addPeer hs.refresh _

/-- What a second handling must keep of `n` in `m`: the routing state, the own record and the
key of every record; `m` still files each cache entry under a record at its address. -/
structure Agrees (n m : Node) : Prop where
  routing : m.routing = n.routing
  me : m.me = n.me
  key : ∀ h, m.reg.key h = n.reg.key h
  filed : Cache.Filed m.reg m.cache

theorem Agrees.refl (hf : Cache.Filed n.reg n.cache) : Agrees n n := ⟨rfl, rfl, fun _ => rfl, hf⟩

theorem Agrees.trans {m' : Node} (h₁ : Agrees n m) (h₂ : Agrees m m') : Agrees n m' :=
  ⟨h₂.routing.trans h₁.routing, h₂.me.trans h₁.me, fun x => (h₂.key x).trans (h₁.key x), h₂.filed⟩

theorem Agrees.nextHop (hag : Agrees n m) (k : Key) : m.nextHop k = n.nextHop k := by
  unfold Node.nextHop
  rw [hag.routing]
  exact Routing.routeLookup_congr (funext hag.key) _ _

/-- Agreeing nodes handle the same messages and pass on the others to the same record. -/
theorem Agrees.routes (hag : Agrees n m) (msg : Message) :
    (m.nextHop msg.destination == m.me ||
        (msg.kind == .join && m.reg.key (m.nextHop msg.destination) == msg.source)) =
      (n.nextHop msg.destination == n.me ||
        (msg.kind == .join && n.reg.key (n.nextHop msg.destination) == msg.source)) := by
  rw [hag.nextHop, hag.me, hag.key]

theorem Agrees.recordOutcome (hag : Agrees n m) (t : Id) (ok : Bool) :
    Agrees n (m.recordOutcome t ok) :=
  ⟨hag.routing, hag.me, fun x => (Registry.key_modifyStats _ _ _ _).trans (hag.key x),
    hag.filed.mono (fun _ he => he) (by simp [Node.recordOutcome, Registry.modifyStats])
      fun _ _ => Registry.addr_modifyStats _ _ _ _⟩

/-- Filing a bare socket address, as the receiver of every datagram does, keeps all that agreeing
nodes share. -/
theorem Agrees.getHost_unkeyed (hag : Agrees n m) (s : SocketAddr) (held : List Id) :
    Agrees n (m.getHost (NodeAddr.unkeyed s) held).1 :=
  ⟨hag.routing, hag.me,
    fun x => (Cache.key_getHost_unkeyed hag.filed s (fun h => m.refersTo h || held.contains h) x).trans
      (hag.key x),
    (Cache.getHost_spec (NodeAddr.unkeyed s) (fun h => m.refersTo h || held.contains h) hag.filed).1⟩

theorem filed_peer (hf : Cache.Filed n.reg n.cache) (a : NodeAddr) (held : List Id) :
    Cache.Filed (n.peer a held).1.reg (n.peer a held).1.cache :=
  (Cache.getHost_spec a (fun h => n.refersTo h || held.contains h) hf).1

theorem filed_takeUpdate (hf : Cache.Filed n.reg n.cache) (a : NodeAddr) :
    Cache.Filed (n.takeUpdate a).reg (n.takeUpdate a).cache := by
  unfold takeUpdate
  split
  · exact hf
  · exact filed_peer hf a []

/-- `n` files `a` under the record `h`, which has the key of `a` unless `a` carries none, and
its routing state holds `h` nowhere under another key. -/
structure Rests (a : NodeAddr) (h : Id) (n : Node) : Prop where
  lookup : n.cache.lookup a.addr = some h
  key : a.key.isZero = true ∨ n.reg.key h = a.key ∨ ¬ h.idx < n.reg.records.size
  fresh : Routing.Fresh n.view n.routing h

theorem rests_peer (hs : n.routing.Shaped) (a : NodeAddr) (held : List Id) :
    Rests a (n.peer a held).2 (n.peer a held).1 :=
  ⟨Cache.lookup_getHost (fun h => n.refersTo h || held.contains h),
    Cache.key_getHost (fun h => n.refersTo h || held.contains h),
    Routing.fresh_refresh (show (n.getHost a held).1.routing.Shaped from hs)⟩

theorem Rests.recordOutcome {h : Id} (hr : Rests a h n) (t : Id) (ok : Bool) :
    Rests a h (n.recordOutcome t ok) := by
  have hsize : (n.recordOutcome t ok).reg.records.size = n.reg.records.size := by
    simp [Node.recordOutcome, Registry.modifyStats]
  have hkey : ∀ x, (n.recordOutcome t ok).reg.key x = n.reg.key x :=
    fun x => Registry.key_modifyStats _ _ x _
  refine ⟨hr.lookup, ?_, (Routing.fresh_congr (funext fun x => (hkey x).symm)).mp hr.fresh⟩
  rw [hsize, hkey]
  exact hr.key

/-- Filing an address at rest again answers its record and keeps all that agreeing nodes share. -/
theorem Rests.peer {h : Id} (hr : Rests a h n) (hf : Cache.Filed n.reg n.cache) (held : List Id) :
    (n.peer a held).2 = h ∧ Agrees n (n.peer a held).1 := by
  have hg := Cache.getHost_of_settled hr.lookup hr.key (fun x => n.refersTo x || held.contains x)
  have hreg : (n.getHost a held).1.reg = n.reg := congrArg Prod.fst hg
  have hid : (n.getHost a held).2 = h := congrArg Prod.snd hg
  have hfresh : Routing.Fresh (n.getHost a held).1.view n.routing (n.getHost a held).2 := by
    rw [Node.view, hreg, hid]
    exact hr.fresh
  exact ⟨hid, Routing.refresh_of_fresh hfresh, rfl, fun x => congrArg (Registry.key · x) hreg,
    filed_peer hf a held⟩

end Node

namespace Network

open Node

section Again

variable {w w' : World} {r : NodeRef} {n m : Node} {msg : Message} {a : NodeAddr} {α : Type}

theorem onUpdate_world (hn : w.node? r = some n) (ha : msg.addrArg 0 = some a) :
    ((onUpdate r msg).run w).2 = w.withNode r (n.takeUpdate a) := by
  unfold onUpdate
  simp only [ha]
  rw [run_bind, getNode_run, hn]
  unfold takeUpdate
  by_cases hme : n.isMe a = true
  · simp only [hme, if_true]
    exact (withNode_self hn).symm
  · have hng := node?_withNode_self hn (n.peer a []).1
    simp only [hme, Bool.false_eq_true, if_false]
    rw [run_bind]
    unfold peerOf
    rw [onNode_run hn]
    dsimp only
    rw [discard_run, addToRouting_run hng, withNode_withNode]

theorem onPing_world (hn : w.node? r = some n) (ha : msg.addrArg 0 = some a) :
    ((onPing r msg).run w).2 = w.withNode r (n.peer a []).1 := by
  unfold onPing peerOf
  simp only [ha]
  rw [discard_run, onNode_run hn]

/-- Running `x` again, from any network with the node `m` at `r`, leaves there a node that
agrees with `m`. -/
def Repeats (r : NodeRef) (x : NetM α) (m : Node) : Prop :=
  RunsTo (fun w => w.node? r = some m) x (NodeAt (Agrees m) r)

/-- Running `x` from `w` leaves at `r` a node, filing its cache truthfully, that running `x` again
keeps. -/
def Settles (r : NodeRef) (x : NetM α) (w : World) : Prop :=
  ∃ m, (x.run w).2.node? r = some m ∧ Cache.Filed m.reg m.cache ∧ Repeats r x m

theorem Settles.congr {β : Type} {x : NetM α} {y : NetM β} (hxy : ∀ w, (y.run w).2 = (x.run w).2)
    (hx : Settles r x w) : Settles r y w := by
  obtain ⟨m, hm, hf, hrep⟩ := hx
  refine ⟨m, by rw [hxy]; exact hm, hf, fun w' hw' => ?_⟩
  rw [hxy]
  exact hrep w' hw'

/-- A run that keeps every node at `r` agreeing with what it agreed with settles. -/
theorem settles_of_agrees {x : NetM α}
    (hx : ∀ n, RunsTo (NodeAt (Agrees n) r) x (NodeAt (Agrees n) r))
    (hn : w.node? r = some n) (hf : Cache.Filed n.reg n.cache) : Settles r x w := by
  obtain ⟨m, hm, hnm⟩ := hx n w ⟨n, hn, Agrees.refl hf⟩
  exact ⟨m, hm, hnm.filed, fun w' hw' => hx m w' ⟨m, hw', Agrees.refl hnm.filed⟩⟩

/-- A run that replaces the node at `r` by `f` of it settles where `f` is idempotent. -/
theorem settles_of_map {x : NetM α} (f : Node → Node)
    (hrun : ∀ w m, w.node? r = some m → (x.run w).2 = w.withNode r (f m))
    (hn : w.node? r = some n) (hff : f (f n) = f n) (hf : Cache.Filed (f n).reg (f n).cache) :
    Settles r x w := by
  refine ⟨f n, ?_, hf, fun w' hw' => ⟨f n, ?_, Agrees.refl hf⟩⟩
  · rw [hrun w n hn]
    exact node?_withNode_self hn _
  · rw [hrun w' (f n) hw', hff, withNode_self hw']
    exact hw'

theorem agrees_send (q : NodeRef) (t : Id) (msg : Message) :
    RunsTo (NodeAt (Agrees n) r) (send q t msg) (NodeAt (Agrees n) r) :=
  runsTo_send (fun _ hag s => hag.getHost_unkeyed s [])
    (fun _ _ hag t ok => hag.recordOutcome t ok) t msg

theorem settles_onUpdate (hn : w.node? r = some n) (hs : n.routing.Shaped)
    (hf : Cache.Filed n.reg n.cache) : Settles r (onUpdate r msg) w := by
  cases ha : msg.addrArg 0 with
  | none =>
    have hrun : ∀ w, ((onUpdate r msg).run w).2 = w := fun w => by
      unfold onUpdate
      simp only [ha]
      rfl
    exact settles_of_map id (fun w _ hm => (hrun w).trans (withNode_self hm).symm) hn rfl hf
  | some a =>
    exact settles_of_map (takeUpdate a) (fun _ _ hm => onUpdate_world hm ha) hn
      (takeUpdate_takeUpdate hs) (filed_takeUpdate hf a)

theorem settles_onPing (hn : w.node? r = some n) (hs : n.routing.Shaped)
    (hf : Cache.Filed n.reg n.cache) : Settles r (onPing r msg) w := by
  cases ha : msg.addrArg 0 with
  | none =>
    have hrun : ∀ w, ((onPing r msg).run w).2 = w := fun w => by
      unfold onPing
      simp only [ha]
      rfl
    exact settles_of_map id (fun w _ hm => (hrun w).trans (withNode_self hm).symm) hn rfl hf
  | some a =>
    exact settles_of_map (fun m => (m.peer a []).1) (fun _ _ hm => onPing_world hm ha) hn
      (congrArg Prod.fst (peer_peer hs [])) (filed_peer hf a [])

/-- A JOIN that names no joiner, or names the node itself, changes nothing. -/
theorem onJoin_run_idle (hn : w.node? r = some n)
    (hidle : ∀ a, msg.addrArg 0 = some a → n.isMe a = true) : (onJoin r msg).run w = ((), w) := by
  unfold onJoin
  cases ha : msg.addrArg 0 with
  | none => rfl
  | some a =>
    dsimp only
    rw [run_bind, getNode_run, hn]
    simp only [hidle a ha, if_true]
    rfl

/-- A JOIN naming another joiner: the node files the joiner and sends it one answer. -/
theorem onJoin_run_answer (hn : w.node? r = some n) (ha : msg.addrArg 0 = some a)
    (hme : n.isMe a = false) :
    ∃ msg', (onJoin r msg).run w =
      ((), ((send r (n.peer a []).2 msg').run (w.withNode r (n.peer a []).1)).2) := by
  unfold onJoin
  simp only [ha]
  rw [run_bind, getNode_run, hn]
  simp only [hme, Bool.false_eq_true, if_false]
  rw [run_bind]
  unfold peerOf
  rw [onNode_run hn]
  dsimp only
  rw [run_bind, getNode_run, node?_withNode_self hn]
  dsimp only
  rw [get_bind_run]
  split
  · exact ⟨_, discard_run _ _⟩
  · exact ⟨_, discard_run _ _⟩

/-- A JOIN handled again where its joiner is at rest files the joiner to no effect and sends the
answer again. -/
theorem repeats_onJoin (hf : Cache.Filed m.reg m.cache)
    (hrest : ∀ a, msg.addrArg 0 = some a → m.isMe a = false → ∃ j, Rests a j m) :
    Repeats r (onJoin r msg) m := by
  intro w hw
  by_cases hidle : ∀ a, msg.addrArg 0 = some a → m.isMe a = true
  · rw [onJoin_run_idle hw hidle]
    exact ⟨m, hw, Agrees.refl hf⟩
  · obtain ⟨a, ha, hme⟩ : ∃ a, msg.addrArg 0 = some a ∧ m.isMe a = false := by
      simpa using hidle
    obtain ⟨j, hr⟩ := hrest a ha hme
    obtain ⟨msg', hrun⟩ := onJoin_run_answer hw ha hme
    rw [hrun]
    exact agrees_send r _ msg' _ ⟨_, node?_withNode_self hw _, (hr.peer hf []).2⟩

/-- A JOIN leaves its joiner at rest at the node that handles it: the answer goes to the
joiner's address, and only the node's own address leads to the node. -/
theorem settles_onJoin (hn : w.node? r = some n) (hs : n.routing.Shaped)
    (hf : Cache.Filed n.reg n.cache) (hto : ∀ x, w.refAt? x = some r → x = n.addr) :
    Settles r (onJoin r msg) w := by
  by_cases hidle : ∀ a, msg.addrArg 0 = some a → n.isMe a = true
  · refine ⟨n, by rw [onJoin_run_idle hn hidle]; exact hn, hf,
      repeats_onJoin hf fun a ha hme => ?_⟩
    exact absurd (hidle a ha) (by simp [hme])
  · obtain ⟨a, ha, hme⟩ : ∃ a, msg.addrArg 0 = some a ∧ n.isMe a = false := by
      simpa using hidle
    set p := n.peer a []
    have hrest : Rests a p.2 p.1 := rests_peer hs a []
    have hdst : (w.withNode r p.1).refAt? (p.1.reg.addr p.2) ≠ some r := by
      intro hself
      have haddr : p.1.reg.addr p.2 = a.addr :=
        (filed_peer hf a [] _ (Cache.mem_of_lookup hrest.lookup)).2
      have hna : a.addr = n.addr := haddr ▸ hto _ hself
      simp [Node.isMe, hna] at hme
    obtain ⟨msg', hrun⟩ := onJoin_run_answer hn ha hme
    obtain ⟨ok, hsent⟩ := send_node_of_ne (node?_withNode_self hn p.1) hdst msg'
    have hf₁ := ((Agrees.refl (filed_peer hf a [])).recordOutcome p.2 ok).filed
    refine ⟨_, by rw [hrun]; exact hsent, hf₁, repeats_onJoin hf₁ fun a' ha' _ => ?_⟩
    rw [ha, Option.some.injEq] at ha'
    exact ⟨p.2, ha' ▸ hrest.recordOutcome p.2 ok⟩

/-- A message that the node would handle again if it handled it the first time settles when
handling it settles; otherwise it is passed on both times. -/
theorem settles_routeMessage (hn : w.node? r = some n) (hf : Cache.Filed n.reg n.cache)
    (hd : Settles r (dispatch r msg) w) : Settles r (routeMessage r msg) w := by
  by_cases hc : (n.nextHop msg.destination == n.me ||
      (msg.kind == .join && n.reg.key (n.nextHop msg.destination) == msg.source)) = true
  · obtain ⟨m, hm, hfm, hrep⟩ := hd
    refine ⟨m, by rw [routeMessage_run hn, if_pos hc]; exact hm, hfm, fun w' hw' => ?_⟩
    rw [routeMessage_run hw']
    split
    · exact hrep w' hw'
    · exact agrees_send r _ msg w' ⟨m, hw', Agrees.refl hfm⟩
  · obtain ⟨m, hm, hag⟩ := agrees_send r (n.nextHop msg.destination) msg w ⟨n, hn, Agrees.refl hf⟩
    refine ⟨m, by rw [routeMessage_run hn, if_neg hc]; exact hm, hag.filed, fun w' hw' => ?_⟩
    rw [routeMessage_run hw', hag.routes msg, if_neg hc]
    exact agrees_send r _ msg w' ⟨m, hw', Agrees.refl hag.filed⟩

theorem settles_dispatch (hk : msg.kind ≠ .piggy ∧ msg.kind ≠ .joinAck) (hn : w.node? r = some n)
    (hs : n.routing.Shaped) (hf : Cache.Filed n.reg n.cache)
    (hto : ∀ x, w.refAt? x = some r → x = n.addr) : Settles r (dispatch r msg) w := by
  unfold dispatch
  split
  · exact settles_onJoin hn hs hf hto
  · next he => exact absurd he hk.2
  · exact settles_of_agrees (fun _ => runsTo_onJoinNack fun _ hag _ =>
      ⟨hag.routing, hag.me, hag.key, hag.filed⟩) hn hf
  · exact settles_onUpdate hn hs hf
  · next he => exact absurd he hk.1
  · exact settles_onPing hn hs hf
  · exact settles_of_agrees (fun _ => runsTo_onRoute msg) hn hf

theorem settles_handle (hk : msg.kind ≠ .piggy ∧ msg.kind ≠ .joinAck) (hn : w.node? r = some n)
    (hs : n.routing.Shaped) (hf : Cache.Filed n.reg n.cache)
    (hto : ∀ x, w.refAt? x = some r → x = n.addr) : Settles r (handle r msg) w := by
  cases hv : msg.validate with
  | error e =>
    have hrun : ∀ w, (handle r msg).run w = (.error e, w) := fun w => by
      unfold handle
      rw [hv]
      rfl
    exact settles_of_agrees (fun _ w hw => by rw [hrun]; exact hw) hn hf
  | ok u =>
    have hd := settles_dispatch hk hn hs hf hto
    cases hroute : msg.kind.mustRoute with
    | true =>
      exact (settles_routeMessage hn hf hd).congr fun w => by rw [handle_route rfl hv hroute]; rfl
    | false => exact hd.congr fun w => by rw [handle_dispatch rfl hv hroute]; rfl

/-- Handling a message a second time, of any kind but PIGGY and JOIN_ACK and whether the node
handles it or passes it on, keeps the routing state and the key of every record as the first
handling left them. In between, the network may change in any way that keeps the node. -/
theorem handle_again_keeps_routing (hk : msg.kind ≠ .piggy ∧ msg.kind ≠ .joinAck)
    (hn : w.node? r = some n) (hs : n.routing.Shaped) (hf : Cache.Filed n.reg n.cache)
    (hto : ∀ x, w.refAt? x = some r → x = n.addr)
    (hn' : w'.node? r = ((handle r msg).run w).2.node? r) :
    ∃ n₁ n₂, ((handle r msg).run w).2.node? r = some n₁ ∧
      ((handle r msg).run w').2.node? r = some n₂ ∧
      n₂.routing = n₁.routing ∧ ∀ h, n₂.reg.key h = n₁.reg.key h := by
  obtain ⟨n₁, hn₁, -, hrep⟩ := settles_handle hk hn hs hf hto
  obtain ⟨n₂, hn₂, hag⟩ := hrep w' (hn'.trans hn₁)
  exact ⟨n₁, n₂, hn₁, hn₂, hag.routing, hag.key⟩

/-- A network of one new node, with key 1 at `127.0.0.1:5001`. -/
def loneNode : World :=
  { config := {}, nodes := #[some (Node.create ⟨Key.ofNat 1, .v4 (127, 0, 0, 1) 5001⟩ {})] }

/-- A JOIN from key 2 at `127.0.0.1:5002`. -/
def joinSample : Message :=
  Message.join (Key.ofNat 2) (Key.ofNat 2) ⟨Key.ofNat 2, .v4 (127, 0, 0, 1) 5002⟩

theorem join_again_on_lone_node :
    (joinSample.kind ≠ .piggy ∧ joinSample.kind ≠ .joinAck) ∧
      loneNode.node? 0 = some (Node.create ⟨Key.ofNat 1, .v4 (127, 0, 0, 1) 5001⟩ {}) ∧
      (Node.create ⟨Key.ofNat 1, .v4 (127, 0, 0, 1) 5001⟩ {}).routing.Shaped ∧
      Cache.Filed (Node.create ⟨Key.ofNat 1, .v4 (127, 0, 0, 1) 5001⟩ {}).reg
        (Node.create ⟨Key.ofNat 1, .v4 (127, 0, 0, 1) 5001⟩ {}).cache ∧
      (∀ x, loneNode.refAt? x = some 0 →
        x = (Node.create ⟨Key.ofNat 1, .v4 (127, 0, 0, 1) 5001⟩ {}).addr) ∧
      ∃ n₁ n₂, ((handle 0 joinSample).run loneNode).2.node? 0 = some n₁ ∧
        ((handle 0 joinSample).run ((handle 0 joinSample).run loneNode).2).2.node? 0 = some n₂ ∧
        n₂.routing = n₁.routing ∧ ∀ h, n₂.reg.key h = n₁.reg.key h := by
  have hk : joinSample.kind ≠ .piggy ∧ joinSample.kind ≠ .joinAck := by decide
  have hkept := OwnKept.create ⟨Key.ofNat 1, .v4 (127, 0, 0, 1) 5001⟩ {}
  have hto : ∀ x, loneNode.refAt? x = some 0 →
      x = (Node.create ⟨Key.ofNat 1, .v4 (127, 0, 0, 1) 5001⟩ {}).addr := by
    intro x hx
    simp [World.refAt?, loneNode] at hx
  exact ⟨hk, rfl, hkept.wellformed.shaped, hkept.filed, hto,
    handle_again_keeps_routing hk rfl hkept.wellformed.shaped hkept.filed hto rfl⟩

end Again

end Network

end PeerRing
