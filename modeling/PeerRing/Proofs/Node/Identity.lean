import PeerRing.Node.Basic
import PeerRing.Proofs.Host.Cache
import PeerRing.Proofs.Overlay.Invariant
import Mathlib
/-! # A node's own record

A node keeps its own record when that record still holds the node's host address, the cache
files every record under the record's address, and the routing state is well formed around
the own record, which it therefore never holds. Filing a host address keeps all of this unless
the address is the node's own socket address under another non-zero key: the cache then hands
out the node's own record and gives it that key. Offering or refreshing a record in routing
state and noting the outcome of a send keep it always.
-/
namespace PeerRing

open Overlay Host Net

namespace Host.Cache

/-- Filing a host address leaves a record alone unless the address is that record's socket
address under another non-zero key. -/
theorem getHost_get_of_safe {c : Cache} {reg : Registry} (hf : Filed reg c) {h0 : Id}
    (hlt : h0.idx < reg.records.size) {a : NodeAddr}
    (hsafe : a.addr ≠ reg.addr h0 ∨ a.key.isZero = true ∨ a.key = reg.key h0) (pinned : Id → Bool) :
    (c.getHost reg a pinned).2.1.get h0 = reg.get h0 ∧
      h0.idx < (c.getHost reg a pinned).2.1.records.size := by
  cases hl : c.lookup a.addr with
  | some h =>
    obtain ⟨-, haddr⟩ := hf _ (mem_of_lookup hl)
    rw [getHost_of_lookup_some hl]
    by_cases hh : h = h0
    · -- the record at the address is `h0` itself: it is asked for no new key
      subst hh
      have hno : reg.offerKey h a.key = reg := by
        refine Registry.offerKey_eq_self ?_
        rcases hsafe with hne | hz | hk
        · exact absurd haddr.symm hne
        · exact Or.inl hz
        · exact Or.inr (Or.inl hk.symm)
      simp [hno, hlt]
    · exact ⟨Registry.get_offerKey_of_ne (Ne.symm hh), by simpa using hlt⟩
  | none =>
    rw [getHost_of_lookup_none hl]
    refine ⟨?_, by simp; omega⟩
    rw [Registry.get_create, if_neg (by omega)]

end Host.Cache

namespace Node

/-- The node's own record holds `a0`, its cache files every record under the record's address,
and its routing state, with half size `L`, is well formed around the own record. -/
structure OwnKept (a0 : NodeAddr) (L : Nat) (n : Node) : Prop where
  self : n.meAddr = a0
  me_lt : n.me.idx < n.reg.records.size
  filed : Cache.Filed n.reg n.cache
  routing_me : n.routing.me = n.me
  wellformed : Routing.Wellformed n.view L n.routing

variable {a0 : NodeAddr} {L : Nat} {n : Node}

/-- Only the records, the cache, the own record and the routing state matter. -/
theorem OwnKept.congr {n' : Node} (hk : OwnKept a0 L n) (hreg : n'.reg = n.reg)
    (hcache : n'.cache = n.cache) (hme : n'.me = n.me) (hrouting : n'.routing = n.routing) :
    OwnKept a0 L n' := by
  obtain ⟨hself, hlt, hfiled, hrme, hwf⟩ := hk
  exact ⟨by rw [Node.meAddr, hreg, hme]; exact hself, by rw [hreg, hme]; exact hlt,
    by rw [hreg, hcache]; exact hfiled, by rw [hrouting, hme]; exact hrme,
    by rw [Node.view, hreg, hrouting]; exact hwf⟩

/-- The own record is never a leafset member nor a routing-table entry. -/
theorem OwnKept.not_mem (hk : OwnKept a0 L n) :
    n.key = a0.key ∧ n.me ∉ n.leafsetHosts ∧ n.me ∉ n.tableHosts := by
  refine ⟨congrArg NodeAddr.key hk.self, ?_, ?_⟩
  · rw [← hk.routing_me]
    exact hk.wellformed.me_leafset
  · intro hm
    obtain ⟨i, j, hg⟩ := Table.mem_hosts.mp hm
    exact hk.wellformed.me_table i j (hk.routing_me ▸ hg)

/-- Filing a host address keeps the own record unless the address is the node's socket
address under another non-zero key. -/
theorem OwnKept.getHost (hk : OwnKept a0 L n) {a : NodeAddr}
    (hsafe : a.addr ≠ a0.addr ∨ a.key.isZero = true ∨ a.key = a0.key) (held : List Id) :
    OwnKept a0 L (n.getHost a held).1 := by
  have hme : n.reg.nodeAddr n.me = a0 := hk.self
  have hsafe' : a.addr ≠ n.reg.addr n.me ∨ a.key.isZero = true ∨ a.key = n.reg.key n.me := by
    rw [show n.reg.addr n.me = a0.addr from congrArg NodeAddr.addr hme,
      show n.reg.key n.me = a0.key from congrArg NodeAddr.key hme]
    exact hsafe
  set pinned := fun h => n.refersTo h || held.contains h
  obtain ⟨hget, hlt⟩ := Cache.getHost_get_of_safe hk.filed hk.me_lt hsafe' pinned
  obtain ⟨hfiled, hother, hnew⟩ := Cache.getHost_spec a pinned hk.filed
  -- every member keeps a non-zero key: a fresh record had none, a filed one keeps or gets one
  have hlive : ∀ m ∈ n.routing.leafset.members,
      ((n.cache.getHost n.reg a pinned).2.1.get m.host).key ≠ Key.zero := by
    intro m hm
    have hold : n.reg.key m.host ≠ Key.zero := hk.wellformed.live_ne_zero m hm
    by_cases hh : m.host = (n.cache.getHost n.reg a pinned).2.2
    · rcases hnew with ⟨-, hdef⟩ | ⟨-, -, hrec⟩
      · exact absurd (by rw [Registry.key, hh, hdef]; rfl) hold
      · rw [hh, hrec]
        dsimp only
        split
        · rw [← hh]
          exact hold
        next hz => exact Routing.isZero_eq_false_iff.mp (by simpa using hz)
    · rw [hother _ hh]
      exact hold
  exact {
    self := by
      show Registry.nodeAddr (n.cache.getHost n.reg a pinned).2.1 n.me = a0
      rw [← hme]
      simp only [Registry.nodeAddr, Registry.key, Registry.addr, hget]
    me_lt := hlt
    filed := hfiled
    routing_me := hk.routing_me
    wellformed := hk.wellformed.of_view
      (by rw [hk.routing_me]; exact congrArg Record.key hget) hlive }

/-- The exception: filing the node's own socket address under a non-zero key gives the own
record that key, whenever the cache holds the own record under that address. -/
theorem OwnKept.key_peer_self (hk : OwnKept a0 L n) (hc : n.cache.lookup a0.addr = some n.me)
    {k : Key} (hz : k.isZero = false) (held : List Id) : (n.peer ⟨k, a0.addr⟩ held).1.key = k := by
  show (n.getHost ⟨k, a0.addr⟩ held).1.key = k
  have hl : n.cache.lookup (NodeAddr.mk k a0.addr).addr = some n.me := hc
  simp only [Node.getHost, Cache.getHost_of_lookup_some hl, Node.key]
  rw [Registry.key_offerKey_self hk.me_lt, hz, if_neg Bool.false_ne_true]

@[simp] theorem me_forgetStale (v : PeerView) (r : Routing) (h : Id) :
    (r.forgetStale v h).1.me = r.me := by
  unfold Routing.forgetStale
  split <;> rfl

@[simp] theorem me_insert (v : PeerView) (r : Routing) (h : Id) : (r.insert v h).1.me = r.me := by
  unfold Routing.insert
  split
  · rfl
  · split <;> rfl

theorem me_refresh (v : PeerView) (r : Routing) (h : Id) : (r.refresh v h).1.me = r.me := by
  rcases Routing.refresh_fst v r h with he | ⟨-, he⟩ <;> simp [he]

theorem me_add (v : PeerView) (r : Routing) (h : Id) : (r.add v h).1.me = r.me := by
  rw [Routing.add_fst]
  split <;> simp

theorem OwnKept.refresh (hk : OwnKept a0 L n) (h : Id) :
    OwnKept a0 L { n with routing := (n.routing.refresh n.view h).1 } :=
  { hk with
    routing_me := (me_refresh _ _ _).trans hk.routing_me
    wellformed := hk.wellformed.refresh }

/-- Filing a peer and refreshing its place keeps the own record, under the condition of
`OwnKept.getHost`. -/
theorem OwnKept.peer (hk : OwnKept a0 L n) {a : NodeAddr}
    (hsafe : a.addr ≠ a0.addr ∨ a.key.isZero = true ∨ a.key = a0.key) (held : List Id) :
    OwnKept a0 L (n.peer a held).1 :=
  (hk.getHost hsafe held).refresh _

theorem OwnKept.addPeer (hk : OwnKept a0 L n) (h : Id) : OwnKept a0 L (n.addPeer h).1 :=
  { hk with
    routing_me := (me_add _ _ _).trans hk.routing_me
    wellformed := hk.wellformed.add }

theorem OwnKept.recordOutcome (hk : OwnKept a0 L n) (h : Id) (ok : Bool) :
    OwnKept a0 L (n.recordOutcome h ok) where
  self := by
    rw [← hk.self]
    simp [Node.meAddr, Node.recordOutcome, Registry.nodeAddr]
  me_lt := by simpa [Node.recordOutcome, Registry.modifyStats] using hk.me_lt
  filed := hk.filed.mono (fun e he => he) (by simp [Node.recordOutcome, Registry.modifyStats])
    fun h' _ => by simp [Node.recordOutcome]
  routing_me := hk.routing_me
  wellformed := hk.wellformed.of_view (by simp [Node.view, Node.recordOutcome, PeerView.ofRegistry])
    fun m hm => by
      simpa [Node.view, Node.recordOutcome, PeerView.ofRegistry] using hk.wellformed.live_ne_zero m hm

theorem OwnKept.create (a : NodeAddr) (c : Config.Overlay) :
    OwnKept a c.leafsetHalfSize (Node.create a c) where
  self := rfl
  me_lt := show 0 < 1 from Nat.zero_lt_one
  filed := (@Cache.getHost_spec (Cache.new c.hostCacheSize) {} a (fun _ => false)
    fun _ he => absurd he List.not_mem_nil).1
  routing_me := rfl
  wellformed := Routing.wellformed_new _ _ _

theorem lookup_create (a : NodeAddr) (c : Config.Overlay) :
    (Node.create a c).cache.lookup a.addr = some (Node.create a c).me := by
  simp [Node.create, Cache.getHost, Cache.lookup, Cache.new]

end Node

end PeerRing
