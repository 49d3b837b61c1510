import PeerRing.Node.Basic
import PeerRing.Proofs.Host.Cache
import PeerRing.Proofs.Overlay.Delivery
import PeerRing.Proofs.Overlay.Invariant
import PeerRing.Proofs.Overlay.Idempotence
import Mathlib
/-! # What a node knows of a ring

A ring is a list of host addresses with distinct keys and distinct socket addresses. A node is
truthful about it when every record with a key is the host address of a member, its cache files
each record under its own address, and no failure was ever noted. A node knows the peers `P`
when its leafset holds one member for each of them, under the key its record has, and its table
is empty: this is how every node of a ring smaller than a leafset ends up.

Getting a member's host address keeps a truthful node truthful and keeps what it knows, and
offering a record of a new member to a node that knows fewer peers than its half size makes it
know that member as well. A node that knows the other members sends a key to the one nearest to
it, by the order `NearerTo`.
-/
namespace PeerRing.Node

open Overlay Host Key

/-- A key `g` of `K` nearer to `k` than every other key of `K`. -/
def Nearest (K : List Key) (k g : Key) : Prop := g ∈ K ∧ ∀ x ∈ K, x ≠ g → NearerTo k g x

theorem Nearest.unique {K : List Key} {k g g' : Key} (hg : Nearest K k g) (hg' : Nearest K k g') :
    g = g' := by
  by_contra hne
  exact (hg.2 g' hg'.1 (Ne.symm hne)).asymm (hg'.2 g hg.1 hne)

theorem Nearest.perm {K K' : List Key} {k g : Key} (hK : K.Perm K') (hg : Nearest K k g) :
    Nearest K' k g :=
  ⟨hK.mem_iff.mp hg.1, fun x hx hne => hg.2 x (hK.mem_iff.mpr hx) hne⟩

/-- Every record with a key is the host address of a member of `ns`; the cache files each record
under its own address; no failure was noted. -/
structure Truthful (ns : List NodeAddr) (n : Node) : Prop where
  keyed : ∀ h, n.reg.key h ≠ zero → n.reg.nodeAddr h ∈ ns
  filed : Cache.Filed n.reg n.cache
  unfailed : ∀ h, (n.reg.stats h).failedAt = none

/-- The node knows exactly the peers `P`: its leafset holds one member for each, under the key
its record has, in order around the node within the half size `max L 1`, and its table is
empty. -/
structure Knows (L : Nat) (P : List NodeAddr) (n : Node) : Prop where
  routing_me : n.routing.me = n.me
  leafset_me : n.routing.leafset.me = n.me
  table_me : n.routing.table.me = n.me
  halfSize : n.routing.leafset.halfSize = Nat.max L 1
  me_keyed : n.reg.key n.me ≠ zero
  placed : Leafset.Placed (n.reg.key n.me) n.routing.leafset
  live : ∀ m ∈ n.routing.leafset.members, n.reg.key m.host = m.key
  keyed : ∀ m ∈ n.routing.leafset.members, m.key ≠ zero
  peers : (n.routing.leafset.hosts.map n.reg.nodeAddr).Perm P
  sized : n.routing.table.Sized
  table : ∀ i j, n.routing.table.get i j = none

/-- Two members of a ring at one socket address are the same member. -/
theorem eq_of_addr_eq {ns : List NodeAddr} (haddrs : (ns.map (·.addr)).Nodup) {a b : NodeAddr}
    (ha : a ∈ ns) (hb : b ∈ ns) (he : a.addr = b.addr) : a = b :=
  List.inj_on_of_nodup_map haddrs ha hb he

section Records

variable {ns : List NodeAddr} {n : Node}

theorem nodeAddr_eq_of_get {reg reg' : Registry} {h : Id} (hget : reg'.get h = reg.get h) :
    reg'.nodeAddr h = reg.nodeAddr h := by
  simp [Registry.nodeAddr, Registry.key, Registry.addr, hget]

/-- What a truthful node gets for a host address of the ring, or for a bare socket address: a
record at that address, under the asked key when one is asked. The node stays truthful, and no
record with a key moves to another host address. -/
theorem Truthful.getHost (ht : Truthful ns n) (haddrs : (ns.map (·.addr)).Nodup) {a : NodeAddr}
    (ha : a.key ≠ zero → a ∈ ns) (held : List Id) :
    let p := n.getHost a held
    Truthful ns p.1 ∧ p.1.reg.addr p.2 = a.addr ∧ (a.key ≠ zero → p.1.reg.key p.2 = a.key) ∧
      (∀ h, n.reg.key h ≠ zero → p.1.reg.nodeAddr h = n.reg.nodeAddr h) ∧
      p.1.routing = n.routing ∧ p.1.me = n.me := by
  intro p
  obtain ⟨hfiled, hother, hnew⟩ := Cache.getHost_spec a
    (fun h => n.refersTo h || held.contains h) ht.filed
  change Cache.Filed p.1.reg p.1.cache at hfiled
  change ∀ h, h ≠ p.2 → p.1.reg.get h = n.reg.get h at hother
  change (p.1.reg.get p.2 = Record.ofNodeAddr a ∧ n.reg.get p.2 = default) ∨
    (p.2.idx < n.reg.records.size ∧ n.reg.addr p.2 = a.addr ∧
      p.1.reg.get p.2 = { n.reg.get p.2 with key := if a.key.isZero then n.reg.key p.2 else a.key })
    at hnew
  have hz : a.key ≠ zero → a.key.isZero = false := Routing.isZero_eq_false_iff.mpr
  have hself : p.1.reg.addr p.2 = a.addr ∧ (a.key ≠ zero → p.1.reg.key p.2 = a.key) ∧
      (p.1.reg.key p.2 ≠ zero → p.1.reg.nodeAddr p.2 ∈ ns) ∧
      (p.1.reg.stats p.2).failedAt = none ∧
      (n.reg.key p.2 ≠ zero → p.1.reg.nodeAddr p.2 = n.reg.nodeAddr p.2) := by
    rcases hnew with ⟨hfresh, hdef⟩ | ⟨-, haddr, hrec⟩
    · have hna : p.1.reg.nodeAddr p.2 = a := by
        simp only [Registry.nodeAddr, Registry.key, Registry.addr, hfresh]
        rfl
      have hstats : p.1.reg.stats p.2 = Stats.initial := by
        simp only [Registry.stats, hfresh]
        rfl
      have hold : n.reg.key p.2 = zero := by
        simp only [Registry.key, hdef]
        rfl
      refine ⟨congrArg NodeAddr.addr hna, fun _ => congrArg NodeAddr.key hna, fun hk => ?_,
        by rw [hstats]; rfl, fun hk => absurd hold hk⟩
      rw [hna]
      exact ha (by rw [← hna]; exact hk)
    · have hstats : p.1.reg.stats p.2 = n.reg.stats p.2 := by
        simp only [Registry.stats, hrec]
      cases hzk : a.key.isZero
      · have hkne : a.key ≠ zero := (Routing.isZero_eq_false_iff).mp hzk
        have hna : p.1.reg.nodeAddr p.2 = a := by
          simp only [Registry.nodeAddr, Registry.key, Registry.addr, hrec, hzk]
          rw [show (n.reg.get p.2).addr = a.addr from haddr]
          rfl
        refine ⟨congrArg NodeAddr.addr hna, fun _ => congrArg NodeAddr.key hna,
          fun _ => hna ▸ ha hkne, hstats ▸ ht.unfailed p.2, fun hk => ?_⟩
        rw [hna]
        exact (eq_of_addr_eq haddrs (ht.keyed _ hk) (ha hkne) haddr).symm
      · have hsame : p.1.reg.get p.2 = n.reg.get p.2 := by
          rw [hrec, hzk]
          rfl
        refine ⟨(congrArg Record.addr hsame).trans haddr, fun hk => absurd (hz hk) (by simp [hzk]),
          fun hk => ?_, hstats ▸ ht.unfailed p.2, fun _ => nodeAddr_eq_of_get hsame⟩
        rw [nodeAddr_eq_of_get hsame]
        exact ht.keyed _ (by simpa [Registry.key, hsame] using hk)
  obtain ⟨haddr, hkey, hkeyed, hfail, hmoved⟩ := hself
  refine ⟨⟨fun h hh => ?_, hfiled, fun h => ?_⟩, haddr, hkey, fun h hh => ?_, rfl, rfl⟩
  · by_cases hne : h = p.2
    · subst hne
      exact hkeyed hh
    · have hsame := hother h hne
      rw [nodeAddr_eq_of_get hsame]
      exact ht.keyed h (by simpa [Registry.key, hsame] using hh)
  · by_cases hne : h = p.2
    · subst hne
      exact hfail
    · simpa [Registry.stats, hother h hne] using ht.unfailed h
  · by_cases hne : h = p.2
    · subst hne
      exact hmoved hh
    · exact nodeAddr_eq_of_get (hother h hne)

/-- Statistics change no key and no address, and a sent message notes no failure. -/
theorem Truthful.recordOutcome (ht : Truthful ns n) (h : Id) (ok : Bool) :
    Truthful ns (n.recordOutcome h ok) ∧
      ∀ h', (n.recordOutcome h ok).reg.nodeAddr h' = n.reg.nodeAddr h' := by
  have hsame : ∀ h', ((n.recordOutcome h ok).reg.get h').addr = (n.reg.get h').addr ∧
      ((n.recordOutcome h ok).reg.get h').key = (n.reg.get h').key ∧
      ((n.recordOutcome h ok).reg.get h').stats.failedAt = (n.reg.get h').stats.failedAt := by
    intro h'
    by_cases hne : h' = h
    · subst hne
      simp only [Node.recordOutcome, Registry.modifyStats, Registry.modify, Registry.get,
        Array.getD_eq_getD_getElem?, Array.getElem?_modify]
      cases n.reg.records[h'.idx]? <;> exact ⟨rfl, rfl, rfl⟩
    · simp [Node.recordOutcome, Registry.modifyStats, Registry.get_modify_of_ne _ _ hne]
  have hna : ∀ h', (n.recordOutcome h ok).reg.nodeAddr h' = n.reg.nodeAddr h' := fun h' => by
    simp [Registry.nodeAddr, Registry.key, Registry.addr, (hsame h').1, (hsame h').2.1]
  refine ⟨⟨fun h' hh => ?_, ?_, fun h' => ?_⟩, hna⟩
  · rw [hna]
    exact ht.keyed h' (by simpa [Registry.key, (hsame h').2.1] using hh)
  · refine ht.filed.mono (fun e he => he) ?_ fun h' _ => (hsame h').1
    simp [Node.recordOutcome, Registry.modifyStats]
  · simpa [Registry.stats, (hsame h').2.2] using ht.unfailed h'

end Records

section Knowing

variable {L : Nat} {P : List NodeAddr} {n n' : Node}

theorem view_key (n : Node) (h : Id) : n.view.key h = n.reg.key h := rfl

/-- A node whose routing state and own record are untouched, and whose records with a key keep
their host addresses, knows what it knew. -/
theorem Knows.of_keyed (hk : Knows L P n) (hrouting : n'.routing = n.routing) (hme : n'.me = n.me)
    (hkeyed : ∀ h, n.reg.key h ≠ zero → n'.reg.nodeAddr h = n.reg.nodeAddr h) : Knows L P n' := by
  have hkey : ∀ h, n.reg.key h ≠ zero → n'.reg.key h = n.reg.key h := fun h hh =>
    congrArg NodeAddr.key (hkeyed h hh)
  have hmember : ∀ m ∈ n.routing.leafset.members, n'.reg.nodeAddr m.host = n.reg.nodeAddr m.host :=
    fun m hm => hkeyed m.host (by rw [hk.live m hm]; exact hk.keyed m hm)
  have hself : n'.reg.key n'.me = n.reg.key n.me := by
    rw [hme]
    exact hkey n.me hk.me_keyed
  rw [← hrouting] at hmember
  refine ⟨hrouting ▸ hme ▸ hk.routing_me, hrouting ▸ hme ▸ hk.leafset_me,
    hrouting ▸ hme ▸ hk.table_me, hrouting ▸ hk.halfSize, hself ▸ hk.me_keyed,
    hself ▸ hrouting ▸ hk.placed, fun m hm => ?_, hrouting ▸ hk.keyed, ?_, hrouting ▸ hk.sized,
    hrouting ▸ hk.table⟩
  · rw [← hk.live m (hrouting ▸ hm)]
    exact congrArg NodeAddr.key (hmember m hm)
  · have hmap : n'.routing.leafset.hosts.map n'.reg.nodeAddr =
        n.routing.leafset.hosts.map n.reg.nodeAddr := by
      rw [Leafset.hosts, Leafset.hosts, hrouting, List.map_map, List.map_map]
      apply List.map_congr_left
      intro m hm
      exact hmember m (hrouting ▸ hm)
    rw [hmap]
    exact hk.peers

/-- Getting a host address of the ring, or a bare socket address, keeps what a truthful node
knows. -/
theorem Knows.getHost (hk : Knows L P n) (ht : Truthful ns n) (haddrs : (ns.map (·.addr)).Nodup)
    {a : NodeAddr} (ha : a.key ≠ zero → a ∈ ns) (held : List Id) : Knows L P (n.getHost a held).1 :=
  let hg := ht.getHost haddrs ha held
  hk.of_keyed hg.2.2.2.2.1 hg.2.2.2.2.2 hg.2.2.2.1

/-- A node that knows its peers finds none of its records misplaced. -/
theorem Knows.forgetStale (hk : Knows L P n) (h : Id) :
    n.routing.leafset.isStale n.view h = false ∧ n.routing.table.isStale n.view h = false := by
  refine ⟨?_, Table.isStale_eq_false_of_forall fun i j hg => by rw [hk.table i j] at hg; cases hg⟩
  rw [Leafset.isStale, List.any_eq_false]
  intro m hm hstale
  simp only [Bool.and_eq_true, beq_iff_eq, bne_iff_ne, ne_eq] at hstale
  obtain ⟨rfl, hne⟩ := hstale
  exact hne (hk.live m hm).symm

theorem Knows.forgetStale_eq (hk : Knows L P n) (h : Id) :
    n.routing.forgetStale n.view h = (n.routing, false) := by
  obtain ⟨hls, hts⟩ := hk.forgetStale h
  simp [Routing.forgetStale, hls, hts]

/-- Seeing a record again changes nothing in the routing state of a node that knows its peers. -/
theorem Knows.refresh (hk : Knows L P n) (h : Id) : (n.routing.refresh n.view h).1 = n.routing := by
  simp [Routing.refresh, hk.forgetStale_eq h]

theorem peer_eq {a : NodeAddr} {held : List Id} (hk : Knows L P (n.getHost a held).1) :
    n.peer a held = n.getHost a held := by
  show ({ (n.getHost a held).1 with routing := ((n.getHost a held).1.routing.refresh
    (n.getHost a held).1.view (n.getHost a held).2).1 }, (n.getHost a held).2) = n.getHost a held
  rw [hk.refresh]

theorem insert_of_inserted {v : PeerView} {r : Routing} {h : Id}
    (hc : r.leafset.contains (v.key h) = false) (hadm : (r.leafset.add v h).2 = .inserted) :
    (r.insert v h).1 =
      { r with leafset := (r.leafset.add v h).1, table := (r.table.remove v h).1 } := by
  unfold Routing.insert
  rw [if_neg (by simp [hc])]
  generalize r.leafset.add v h = p at hadm
  obtain ⟨ls, adm⟩ := p
  simp only at hadm
  subst hadm
  rfl

theorem length_sideMembers_le (ls : Leafset) (s : Side) :
    (ls.sideMembers s).length ≤ ls.members.length := by
  cases s
  · simp [Leafset.sideMembers, Leafset.members]
  · simp [Leafset.sideMembers, Leafset.members]

/-- Offering the record of a new member to a node that knows fewer peers than its half size makes
it know that member as well. -/
theorem Knows.addPeer (hk : Knows L P n) {h : Id} (hz : n.reg.key h ≠ zero)
    (hme : n.reg.key h ≠ n.reg.key n.me) (hnew : n.reg.key h ∉ P.map (·.key))
    (hroom : P.length < Nat.max L 1) : Knows L (P ++ [n.reg.nodeAddr h]) (n.addPeer h).1 := by
  have hz' : (n.view.key h).isZero = false := Routing.isZero_eq_false_iff.mpr hz
  set r := n.routing
  set ls := r.leafset
  have hlen : ∀ s, (ls.sideMembers s).length ≤ ls.halfSize := hk.placed.length_le
  have hcount : ls.members.length = P.length := by
    rw [← hk.peers.length_eq, List.length_map, Leafset.hosts, List.length_map]
  -- the offered key is new to the leafset, and its side has room
  have hc : ls.contains (n.view.key h) = false := by
    rw [Leafset.contains_eq_false]
    intro m hm he
    have hmem : m.key ∈ P.map (·.key) := by
      rw [← hk.live m hm]
      exact (hk.peers.map NodeAddr.key).mem_iff.mp
        (List.mem_map_of_mem (List.mem_map_of_mem (List.mem_map_of_mem hm)))
    rw [he] at hmem
    exact hnew hmem
  have hsmall : ∀ s, (ls.sideMembers s).length < ls.halfSize := fun s => by
    have := length_sideMembers_le ls s
    rw [hk.halfSize]
    omega
  obtain ⟨hins, hmembers⟩ := Leafset.add_of_room hlen
    (fun he => hme (he.trans (by rw [hk.leafset_me]; rfl))) hc (hsmall _)
  have hrouting : (n.addPeer h).1.routing =
      { r with leafset := (ls.add n.view h).1, table := (r.table.remove n.view h).1 } := by
    show (r.add n.view h).1 = _
    rw [Routing.add_fst, if_neg (by rw [hz']; exact Bool.false_ne_true), hk.forgetStale_eq]
    exact insert_of_inserted hc hins
  have hmem : ∀ m ∈ (ls.add n.view h).1.members, m = ⟨n.view.key h, h⟩ ∨ m ∈ ls.members :=
    fun m hm => List.mem_cons.mp (hmembers.subset hm)
  have hme' : (n.addPeer h).1.me = n.me := rfl
  have hreg : (n.addPeer h).1.reg = n.reg := rfl
  refine ⟨?_, ?_, ?_, ?_, ?_, ?_, fun m hm => ?_, fun m hm => ?_, ?_, ?_, fun i j => ?_⟩
  · rw [hrouting, hme']
    exact hk.routing_me
  · rw [hrouting, hme']
    simp only [Leafset.me_add]
    exact hk.leafset_me
  · rw [hrouting, hme']
    simp only [Table.me_remove]
    exact hk.table_me
  · rw [hrouting]
    simp only [Leafset.halfSize_add]
    exact hk.halfSize
  · exact hk.me_keyed
  · rw [hrouting, hreg, hme']
    have hp : Leafset.Placed (n.view.key ls.me) ls := by
      rw [hk.leafset_me]
      exact hk.placed
    have := hp.add (h := h)
    rwa [hk.leafset_me] at this
  · rw [hrouting] at hm
    rcases hmem m hm with rfl | hm
    · rfl
    · exact hk.live m hm
  · rw [hrouting] at hm
    rcases hmem m hm with rfl | hm
    · exact hz
    · exact hk.keyed m hm
  · rw [hrouting, hreg]
    have hhosts := hmembers.map Member.host
    refine ((hhosts.map n.reg.nodeAddr).trans ?_)
    exact ((hk.peers.cons _).trans (List.perm_append_singleton _ _).symm)
  · rw [hrouting]
    exact Table.sized_remove hk.sized
  · rw [hrouting]
    cases hg : (r.table.remove n.view h).1.get i j with
    | none => rfl
    | some x =>
      have := (Table.get_remove_eq_some hk.sized hg).1
      rw [hk.table i j] at this
      cases this

theorem Knows.nodup (hk : Knows L P n) : P.Nodup := by
  have hkeys : (n.routing.leafset.hosts.map n.reg.nodeAddr).map NodeAddr.key =
      n.routing.leafset.members.map (·.key) := by
    rw [Leafset.hosts, List.map_map, List.map_map]
    exact List.map_congr_left fun m hm => hk.live m hm
  exact hk.peers.nodup_iff.mp (List.Nodup.of_map NodeAddr.key (hkeys ▸ hk.placed.nodup_keys))

theorem Knows.key_ne_self (hk : Knows L P n) {p : NodeAddr} (hp : p ∈ P) : p.key ≠ n.key := by
  obtain ⟨h, hh, rfl⟩ := List.mem_map.mp (hk.peers.mem_iff.mpr hp)
  obtain ⟨m, hm, rfl⟩ := List.mem_map.mp hh
  obtain ⟨s, hs⟩ := Leafset.mem_members.mp hm
  show n.reg.key m.host ≠ n.reg.key n.me
  rw [hk.live m hm]
  exact (hk.placed.side s).ne_me m hs

theorem Knows.contains_key (hk : Knows L P n) {p : NodeAddr} (hp : p ∈ P) :
    n.routing.leafset.contains p.key = true := by
  obtain ⟨h, hh, rfl⟩ := List.mem_map.mp (hk.peers.mem_iff.mpr hp)
  obtain ⟨m, hm, rfl⟩ := List.mem_map.mp hh
  simp only [Leafset.contains, List.any_eq_true, beq_iff_eq]
  exact ⟨m, hm, (hk.live m hm).symm⟩

/-- Offering a record of a peer it knows changes nothing in a node's routing state. -/
theorem Knows.addPeer_of_mem (hk : Knows L P n) {h : Id} (hP : n.reg.nodeAddr h ∈ P) :
    (n.addPeer h).1.routing = n.routing := by
  show (n.routing.add n.view h).1 = n.routing
  rw [Routing.add_fst]
  split
  · rfl
  · rw [hk.forgetStale_eq, Routing.insert_of_contains (hk.contains_key hP)]

/-- A node that knows the peers `P` sends a key to the nearest of itself and its peers: itself,
or a record of a peer. -/
theorem Knows.nextHop (hk : Knows L P n) (k : Key) :
    Nearest (n.reg.key n.me :: P.map (·.key)) k (n.reg.key (n.nextHop k)) ∧
      (n.nextHop k = n.me ∨ n.reg.nodeAddr (n.nextHop k) ∈ P) := by
  set ls := n.routing.leafset
  set N := n.me :: ls.hosts
  have hlive : ls.hosts.map n.reg.key = ls.members.map (·.key) := by
    rw [Leafset.hosts, List.map_map]
    exact List.map_congr_left fun m hm => hk.live m hm
  have hself : ∀ m ∈ ls.members, m.key ≠ n.reg.key n.me := fun m hm => by
    obtain ⟨s, hs⟩ := Leafset.mem_members.mp hm
    exact (hk.placed.side s).ne_me m hs
  have hnotme : ∀ x ∈ ls.hosts, x ≠ n.me := by
    intro x hx he
    obtain ⟨m, hm, rfl⟩ := List.mem_map.mp hx
    exact hself m hm (by rw [← hk.live m hm, he])
  have hkeys : (N.map n.view.key).Nodup := by
    show (n.reg.key n.me :: ls.hosts.map n.reg.key).Nodup
    rw [hlive, List.nodup_cons]
    refine ⟨fun hmem => ?_, hk.placed.nodup_keys⟩
    obtain ⟨m, hm, he⟩ := List.mem_map.mp hmem
    exact hself m hm he
  have hfilter : N.filter (· ≠ n.me) = ls.hosts := by
    simp only [N, List.filter_cons, ne_eq, not_true_eq_false, decide_false, Bool.false_eq_true,
      if_false]
    exact List.filter_eq_self.mpr fun x hx => by simpa using hnotme x hx
  have hm : ls.members.Perm ((N.filter (· ≠ n.me)).map (memberOf n.view)) := by
    rw [hfilter, Leafset.hosts, List.map_map]
    have hsame : ls.members.map (memberOf n.view ∘ Member.host) = ls.members := by
      conv_rhs => rw [← List.map_id ls.members]
      exact List.map_congr_left fun m hm => by
        simp only [Function.comp, memberOf, view_key, hk.live m hm, id]
    rw [hsame]
  have hresp := routeLookup_responsible_of_members hkeys List.mem_cons_self
    ⟨hk.routing_me, hk.leafset_me, hk.table_me⟩ hm hk.table k
  have hperm : (N.map n.view.key).Perm (n.reg.key n.me :: P.map (·.key)) := by
    show (n.reg.key n.me :: ls.hosts.map n.reg.key).Perm _
    refine List.Perm.cons _ ?_
    have hp := hk.peers.map NodeAddr.key
    rwa [List.map_map] at hp
  refine ⟨⟨hperm.mem_iff.mp (List.mem_map_of_mem hresp.1), fun x hx hne => ?_⟩, ?_⟩
  · obtain ⟨y, hy, rfl⟩ := List.mem_map.mp (hperm.mem_iff.mpr hx)
    exact hresp.2 y hy fun he => hne (by rw [he]; rfl)
  · rcases List.mem_cons.mp hresp.1 with he | hmem
    · exact Or.inl he
    · exact Or.inr (hk.peers.mem_iff.mp (List.mem_map_of_mem hmem))

end Knowing

section Create

variable {ns : List NodeAddr}

theorem create_reg (a : NodeAddr) (c : Config.Overlay) :
    (Node.create a c).reg = ⟨#[Record.ofNodeAddr a]⟩ := rfl

theorem Knows.create (a : NodeAddr) (c : Config.Overlay) (ha : a.key ≠ zero) :
    Knows c.leafsetHalfSize [] (Node.create a c) where
  routing_me := rfl
  leafset_me := rfl
  table_me := rfl
  halfSize := rfl
  me_keyed := ha
  placed := Leafset.placed_empty (Leafset.new ⟨0⟩ c.leafsetHalfSize) ⟨0⟩ _
  live _ hm := absurd hm List.not_mem_nil
  keyed _ hm := absurd hm List.not_mem_nil
  peers := List.Perm.nil
  sized := Table.sized_new _
  table := Table.get_new _

/-- A new node at a member's address is truthful about the ring. -/
theorem Truthful.create {a : NodeAddr} (ha : a ∈ ns) (c : Config.Overlay) :
    Truthful ns (Node.create a c) := by
  have hget : ∀ h : Id, (Node.create a c).reg.get h =
      if h.idx = 0 then Record.ofNodeAddr a else default := by
    intro h
    rw [create_reg]
    simp only [Registry.get, Array.getD_eq_getD_getElem?]
    rcases h with ⟨_ | i⟩
    · rfl
    · simp
  refine ⟨fun h hh => ?_, ?_, fun h => ?_⟩
  · by_cases hi : h.idx = 0
    · have hna : (Node.create a c).reg.nodeAddr h = a := by
        simp only [Registry.nodeAddr, Registry.key, Registry.addr, hget, hi, if_true]
        rfl
      rw [hna]
      exact ha
    · simp [Registry.key, hget, hi] at hh
      exact absurd rfl hh
  · exact (@Cache.getHost_spec (Cache.new c.hostCacheSize) {} a (fun _ => false)
      (fun e he => absurd he List.not_mem_nil)).1
  · by_cases hi : h.idx = 0
    · simp [Registry.stats, hget, hi, Record.ofNodeAddr, Stats.initial]
    · simp [Registry.stats, hget, hi]
      rfl

end Create

section Member

variable {ns : List NodeAddr} {L : Nat} {a : NodeAddr} {P : List NodeAddr} {n n' n'' : Node}

/-- A node of the ring `ns` at the host address `a`: truthful about the ring, and knowing the
peers `P`. -/
structure Member (ns : List NodeAddr) (L : Nat) (a : NodeAddr) (P : List NodeAddr) (n : Node) :
    Prop where
  truthful : Truthful ns n
  knows : Knows L P n
  self : n.meAddr = a

theorem Member.key (hm : Member ns L a P n) : n.key = a.key := congrArg NodeAddr.key hm.self

theorem Member.addr (hm : Member ns L a P n) : n.addr = a.addr := congrArg NodeAddr.addr hm.self

theorem Member.perm (hm : Member ns L a P n) {Q : List NodeAddr} (hPQ : P.Perm Q) :
    Member ns L a Q n :=
  ⟨hm.truthful, { hm.knows with peers := hm.knows.peers.trans hPQ }, hm.self⟩

theorem Member.mem_iff (hm : Member ns L a P n) {Q : List NodeAddr} (hm' : Member ns L a Q n)
    {p : NodeAddr} : p ∈ P ↔ p ∈ Q :=
  (hm.knows.peers.symm.trans hm'.knows.peers).mem_iff

/-- A node whose records, cache, own record and routing state are those of a member is that
member. -/
theorem Member.of_same (hm : Member ns L a P n) (hreg : n'.reg = n.reg) (hcache : n'.cache = n.cache)
    (hme : n'.me = n.me) (hrouting : n'.routing = n.routing) : Member ns L a P n' := by
  refine ⟨⟨?_, ?_, ?_⟩, hm.knows.of_keyed hrouting hme fun h _ => by rw [hreg], ?_⟩
  · rw [hreg]
    exact hm.truthful.keyed
  · rw [hreg, hcache]
    exact hm.truthful.filed
  · rw [hreg]
    exact hm.truthful.unfailed
  · show n'.reg.nodeAddr n'.me = a
    rw [hreg, hme]
    exact hm.self

/-- A truthful node files a member of the ring under that member's host address. -/
theorem Truthful.nodeAddr_getHost (ht : Truthful ns n) (haddrs : (ns.map (·.addr)).Nodup)
    {b : NodeAddr} (hb : b ∈ ns) (hz : b.key ≠ zero) (held : List Id) :
    (n.getHost b held).1.reg.nodeAddr (n.getHost b held).2 = b := by
  obtain ⟨-, haddr, hkey, -⟩ := ht.getHost haddrs (fun _ => hb) held
  show NodeAddr.mk _ _ = b
  rw [haddr, hkey hz]

theorem Truthful.failedRecently (ht : Truthful ns n) (h : Id) (now : Nat) :
    n.failedRecently h now = false := by
  simp [Node.failedRecently, Stats.failedWithin, ht.unfailed h]

theorem Knows.tableHosts (hk : Knows L P n) : n.tableHosts = [] :=
  Table.hosts_eq_nil hk.table

theorem Knows.checkPeers (hk : Knows L P n) :
    n.checkPeers = n.leafsetHosts.filter (· != n.me) := by
  simp [Node.checkPeers, hk.tableHosts]

/-- Members of the ring outside `P` have keys outside `P`. -/
theorem key_not_mem (hkeys : (ns.map (·.key)).Nodup) (hP : ∀ p ∈ P, p ∈ ns) {b : NodeAddr}
    (hb : b ∈ ns) (hnew : b ∉ P) : b.key ∉ P.map (·.key) := by
  intro hmem
  obtain ⟨p, hp, he⟩ := List.mem_map.mp hmem
  rw [List.inj_on_of_nodup_map hkeys (hP p hp) hb he] at hp
  exact hnew hp

theorem Member.getHost (hm : Member ns L a P n) (haddrs : (ns.map (·.addr)).Nodup) {b : NodeAddr}
    (hb : b.key ≠ zero → b ∈ ns) (held : List Id) : Member ns L a P (n.getHost b held).1 := by
  obtain ⟨ht, -, -, hkeyed, -, hme⟩ := hm.truthful.getHost haddrs hb held
  refine ⟨ht, hm.knows.getHost hm.truthful haddrs hb held, ?_⟩
  show (n.getHost b held).1.reg.nodeAddr (n.getHost b held).1.me = a
  rw [hme, hkeyed n.me hm.knows.me_keyed]
  exact hm.self

theorem Member.peer (hm : Member ns L a P n) (haddrs : (ns.map (·.addr)).Nodup) {b : NodeAddr}
    (hb : b.key ≠ zero → b ∈ ns) (held : List Id) : n.peer b held = n.getHost b held :=
  peer_eq (hm.getHost haddrs hb held).knows

theorem Member.recordOutcome (hm : Member ns L a P n) (h : Id) (ok : Bool) :
    Member ns L a P (n.recordOutcome h ok) := by
  obtain ⟨ht, hna⟩ := hm.truthful.recordOutcome h ok
  refine ⟨ht, hm.knows.of_keyed rfl rfl fun h' _ => hna h', ?_⟩
  show (n.recordOutcome h ok).reg.nodeAddr n.me = a
  rw [hna]
  exact hm.self

theorem Member.addPeer (hm : Member ns L a P n) {h : Id} (hz : n.reg.key h ≠ zero)
    (hme : n.reg.key h ≠ n.reg.key n.me) (hnew : n.reg.key h ∉ P.map (·.key))
    (hroom : P.length < Nat.max L 1) : Member ns L a (P ++ [n.reg.nodeAddr h]) (n.addPeer h).1 :=
  ⟨⟨hm.truthful.keyed, hm.truthful.filed, hm.truthful.unfailed⟩, hm.knows.addPeer hz hme hnew hroom,
    hm.self⟩

/-- A member filing another member of the ring that it does not know yet, with room in its
leafset, and offering the record to its routing state, knows that member as well. -/
theorem Member.take (hm : Member ns L a P n) (hkeys : (ns.map (·.key)).Nodup)
    (haddrs : (ns.map (·.addr)).Nodup) (hzero : ∀ c ∈ ns, c.key ≠ zero) (ha : a ∈ ns) {b : NodeAddr}
    (hb : b ∈ ns) (hba : b ≠ a) (hP : ∀ p ∈ P, p ∈ ns) (hnew : b ∉ P)
    (hroom : P.length < Nat.max L 1) (held : List Id) :
    Member ns L a (P ++ [b]) ((n.getHost b held).1.addPeer (n.getHost b held).2).1 := by
  set g := n.getHost b held
  have hg : Member ns L a P g.1 := hm.getHost haddrs (fun _ => hb) held
  have hrec : g.1.reg.nodeAddr g.2 = b := hm.truthful.nodeAddr_getHost haddrs hb (hzero b hb) held
  have hkey : g.1.reg.key g.2 = b.key := congrArg NodeAddr.key hrec
  have hadd := hg.addPeer (h := g.2) (by rw [hkey]; exact hzero b hb)
    (by rw [hkey, show g.1.reg.key g.1.me = a.key from hg.key]
        exact fun he => hba (List.inj_on_of_nodup_map hkeys hb ha he))
    (by rw [hkey]; exact key_not_mem hkeys hP hb hnew) hroom
  rwa [hrec] at hadd

/-- A member filing a member of the ring and offering the record to its routing state knows that
member as well; its leafset needs room only for a member it did not know. -/
theorem Member.offer (hm : Member ns L a P n) (hkeys : (ns.map (·.key)).Nodup)
    (haddrs : (ns.map (·.addr)).Nodup) (hzero : ∀ c ∈ ns, c.key ≠ zero) (ha : a ∈ ns) {b : NodeAddr}
    (hb : b ∈ ns) (hba : b ≠ a) (hP : ∀ p ∈ P, p ∈ ns) (hroom : b ∉ P → P.length < Nat.max L 1)
    (held : List Id) :
    ∃ P', Member ns L a P' ((n.getHost b held).1.addPeer (n.getHost b held).2).1 ∧
      ∀ p, p ∈ P' ↔ p ∈ P ∨ p = b := by
  by_cases hknown : b ∈ P
  · have hg : Member ns L a P (n.getHost b held).1 := hm.getHost haddrs (fun _ => hb) held
    have hrec := hm.truthful.nodeAddr_getHost haddrs hb (hzero b hb) held
    have hmem : (n.getHost b held).1.reg.nodeAddr (n.getHost b held).2 ∈ P := by
      rw [hrec]
      exact hknown
    refine ⟨P, hg.of_same rfl rfl rfl (hg.knows.addPeer_of_mem hmem), fun p => ?_⟩
    exact ⟨Or.inl, fun h => h.elim id fun he => he ▸ hknown⟩
  · exact ⟨P ++ [b], hm.take hkeys haddrs hzero ha hb hba hP hknown (hroom hknown) held, by simp⟩

theorem Member.not_mem_self (hm : Member ns L a P n) : a ∉ P :=
  fun ha => hm.knows.key_ne_self ha hm.key.symm

/-- `n'` is all that `n` is as a member of the ring, and runs the same stabilization job. -/
structure Keeps (ns : List NodeAddr) (L : Nat) (n n' : Node) : Prop where
  member : ∀ a P, Member ns L a P n → Member ns L a P n'
  checkJob : n'.checkJob = n.checkJob

theorem Keeps.refl (ns : List NodeAddr) (L : Nat) (n : Node) : Keeps ns L n n :=
  ⟨fun _ _ hm => hm, rfl⟩

theorem Keeps.trans (h : Keeps ns L n n') (h' : Keeps ns L n' n'') : Keeps ns L n n'' :=
  ⟨fun a P hm => h'.member a P (h.member a P hm), h'.checkJob.trans h.checkJob⟩

/-- Filing a bare socket address, as every receiver of a message does for its sender, keeps a
member what it is. -/
theorem Keeps.getHost_unkeyed (haddrs : (ns.map (·.addr)).Nodup) (n : Node) (s : Net.SocketAddr)
    (held : List Id) : Keeps ns L n (n.getHost (NodeAddr.unkeyed s) held).1 :=
  ⟨fun _ _ hm => hm.getHost haddrs (fun hz => absurd rfl hz) held, rfl⟩

theorem Keeps.recordOutcome (n : Node) (h : Id) (ok : Bool) : Keeps ns L n (n.recordOutcome h ok) :=
  ⟨fun _ _ hm => hm.recordOutcome h ok, rfl⟩

/-- A new node at the address of a member of the ring is that member, knowing nobody. -/
theorem Member.create {a : NodeAddr} (ha : a ∈ ns) (hz : a.key ≠ zero) (c : Config.Overlay) :
    Member ns c.leafsetHalfSize a [] (Node.create a c) :=
  ⟨Truthful.create ha c, Knows.create a c hz, rfl⟩

end Member

end PeerRing.Node
