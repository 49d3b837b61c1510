import PeerRing.Proofs.Overlay.Closest
import PeerRing.Proofs.Overlay.Slots
import PeerRing.Overlay.Routing
import Mathlib
/-! # Delivery to the responsible node

A snapshot of the overlay gives each node of `N` its routing state, all of them reading keys
through one view. The states are complete and consistent when each side of each leafset holds
the peers nearest on that side, up to the half size, and each table holds only peers outside the
leafset, each in its home slot. A key is delivered by following `routeLookup` from node to node
until a node answers itself; the node responsible for the key is the one nearer to it than every
other node.

When the whole overlay fits in every leafset (`N.length ≤ L + 1`), every node answers the
responsible node at once, and that node answers itself: delivery takes at most one hop. One node
more breaks this. The table's candidate is weighed against the leafset's by clockwise distance
alone, and on a ring of three nodes with half size one a key circles the ring for ever, although
the node it starts from is the responsible one.
-/
namespace PeerRing.Overlay

open Key Leafset

/-- The member a leafset keeps for the host `x`, under its current key. -/
def memberOf (v : PeerView) (x : Host.Id) : Member := ⟨v.key x, x⟩

/-- The peers of `N` other than `n` on side `s` of `n`, nearest first. -/
def sideOrder (v : PeerView) (N : List Host.Id) (n : Host.Id) (s : Side) : List Host.Id :=
  ((N.filter (· ≠ n)).filter fun x => (place (v.key n) (v.key x)).1 = s).insertionSort
    fun a b => sideDistance (v.key n) (v.key a) s ≤ sideDistance (v.key n) (v.key b) s

/-- Complete and consistent routing states `rs` of the nodes `N` for half size `L`: every node
knows itself, each side of its leafset holds the `L` peers nearest to it on that side (all of
them when there are fewer), and its table holds only peers outside its leafset, each in its home
slot. -/
structure Consistent (v : PeerView) (L : Nat) (N : List Host.Id) (rs : Host.Id → Routing) :
    Prop where
  me : ∀ n ∈ N, (rs n).me = n ∧ (rs n).leafset.me = n ∧ (rs n).table.me = n
  side : ∀ n ∈ N, ∀ s, ((rs n).leafset.sideMembers s).Perm
    (((sideOrder v N n s).take L).map (memberOf v))
  table : ∀ n ∈ N, ∀ i j h, (rs n).table.get i j = some h →
    h ∈ N ∧ h ∉ (rs n).leafset.hosts ∧ (rs n).table.slot v (v.key h) = some (i, j)

/-- The node `g` of `N` is responsible for `k`: it is nearer to `k` than every other node. -/
def Responsible (v : PeerView) (N : List Host.Id) (k : Key) (g : Host.Id) : Prop :=
  g ∈ N ∧ ∀ x ∈ N, x ≠ g → NearerTo k (v.key g) (v.key x)

instance (v : PeerView) (N : List Host.Id) (k : Key) (g : Host.Id) :
    Decidable (Responsible v N k g) :=
  inferInstanceAs (Decidable (_ ∧ ∀ x ∈ N, _))

section Responsible

variable {v : PeerView} {N : List Host.Id} {k : Key} {g : Host.Id}

theorem Responsible.unique {g' : Host.Id} (hg : Responsible v N k g)
    (hg' : Responsible v N k g') : g = g' := by
  by_contra hne
  exact (hg.2 g' hg'.1 (Ne.symm hne)).asymm (hg'.2 g hg.1 hne)

theorem responsible_of_key_eq (hkeys : (N.map v.key).Nodup) (hg : g ∈ N) (hk : v.key g = k) :
    Responsible v N k g := by
  refine ⟨hg, fun x hx hne => ?_⟩
  rw [hk]
  exact nearerTo_target fun he => hne (List.inj_on_of_nodup_map hkeys hx hg (he.trans hk.symm))

/-- A leafset whose candidates are exactly the nodes of `N` answers the responsible node as the
closest one. -/
theorem closest_responsible {ls : Leafset} (hkeys : (N.map v.key).Nodup)
    (hperm : (ls.members.map (fun m => (m.key, m.host)) ++ [(v.key ls.me, ls.me)]).Perm
      (N.map fun x => (v.key x, x))) (k : Key) :
    Responsible v N k (ls.closest v k) := by
  have hmem : ∀ p, p ∈ ls.members.map (fun m => (m.key, m.host)) ++ [(v.key ls.me, ls.me)] ↔
      ∃ x ∈ N, (v.key x, x) = p := fun p => by rw [hperm.mem_iff, List.mem_map]
  have hnodup : ((ls.members.map (fun m => (m.key, m.host)) ++ [(v.key ls.me, ls.me)]).map
      Prod.fst).Nodup := by
    rw [(hperm.map Prod.fst).nodup_iff, List.map_map]
    exact hkeys
  unfold closest
  generalize hcs : ls.members.map (fun m => (m.key, m.host)) ++ [(v.key ls.me, ls.me)] = cs
    at hmem hnodup
  obtain _ | ⟨c, cs⟩ := cs
  · simp at hcs
  · obtain ⟨b, hb, hfb, hnear⟩ := firstBest_nearer k c cs hnodup
    obtain ⟨g, hg, rfl⟩ := (hmem b).mp hb
    dsimp only
    rw [hfb]
    refine ⟨hg, fun x hx hne => ?_⟩
    exact hnear (v.key x, x) ((hmem _).mpr ⟨x, hx, rfl⟩) fun he => hne (congrArg Prod.snd he)

end Responsible

section Snapshot

variable {v : PeerView} {L : Nat} {N : List Host.Id} {rs : Host.Id → Routing} {n : Host.Id}

theorem filter_side_perm (v : PeerView) (me : Key) (l : List Host.Id) :
    ((l.filter fun x => (place me (v.key x)).1 = .ccw) ++
      l.filter fun x => (place me (v.key x)).1 = .cw).Perm l := by
  have hcw : (l.filter fun x => (place me (v.key x)).1 = .cw) =
      l.filter fun x => !decide ((place me (v.key x)).1 = .ccw) := by
    apply List.filter_congr
    intro x _
    cases (place me (v.key x)).1 <;> rfl
  rw [hcw]
  exact List.filter_append_perm _ l

/-- When the whole overlay fits in a leafset, each side holds every peer on that side. -/
theorem sideMembers_perm (hlen : N.length ≤ L + 1)
    (hc : Consistent v L N rs) (hn : n ∈ N) (s : Side) :
    ((rs n).leafset.sideMembers s).Perm
      (((N.filter (· ≠ n)).filter fun x => (place (v.key n) (v.key x)).1 = s).map (memberOf v)) := by
  have hshort : (N.filter (· ≠ n)).length < N.length :=
    List.length_filter_lt_length_iff_exists.mpr ⟨n, hn, by simp⟩
  have hfew : (sideOrder v N n s).length ≤ L := by
    unfold sideOrder
    rw [List.length_insertionSort]
    exact Nat.le_of_lt_succ (Nat.lt_of_le_of_lt (List.length_filter_le _ _)
      (Nat.lt_of_lt_of_le hshort hlen))
  have hside := hc.side n hn s
  rw [List.take_of_length_le hfew] at hside
  exact hside.trans ((List.perm_insertionSort _ _).map _)

/-- When the whole overlay fits in a leafset, the leafset holds every other node. -/
theorem members_perm (hlen : N.length ≤ L + 1)
    (hc : Consistent v L N rs) (hn : n ∈ N) :
    (rs n).leafset.members.Perm ((N.filter (· ≠ n)).map (memberOf v)) := by
  have hsides := (sideMembers_perm hlen hc hn .ccw).append (sideMembers_perm hlen hc hn .cw)
  rw [← List.map_append] at hsides
  exact hsides.trans ((filter_side_perm v (v.key n) _).map _)

/-- When the whole overlay fits in a leafset, no node keeps anything in its table. -/
theorem table_get_eq_none (hlen : N.length ≤ L + 1)
    (hc : Consistent v L N rs) (hn : n ∈ N) (i j : Nat) : (rs n).table.get i j = none := by
  cases hg : (rs n).table.get i j with
  | none => rfl
  | some h =>
    obtain ⟨hN, hout, hslot⟩ := hc.table n hn i j h hg
    have hne : h ≠ n := by
      rintro rfl
      have hme := Table.slot_me v (rs h).table
      rw [(hc.me h hn).2.2, hslot] at hme
      cases hme
    have hmem : memberOf v h ∈ (rs n).leafset.members :=
      (members_perm hlen hc hn).mem_iff.mpr
        (List.mem_map_of_mem (List.mem_filter.mpr ⟨hN, by simpa using hne⟩))
    exact absurd (List.mem_map.mpr ⟨_, hmem, rfl⟩) hout

/-- A leafset around `n` that holds every other node of `N` weighs all the nodes as candidates
for `closest`. -/
theorem candidates_perm_of_members {ls : Leafset} (hnodup : N.Nodup) (hn : n ∈ N) (hme : ls.me = n)
    (hm : ls.members.Perm ((N.filter (· ≠ n)).map (memberOf v))) :
    (ls.members.map (fun m => (m.key, m.host)) ++ [(v.key ls.me, ls.me)]).Perm
      (N.map fun x => (v.key x, x)) := by
  have herase : N.filter (· ≠ n) = N.erase n := by
    rw [hnodup.erase_eq_filter n]
    apply List.filter_congr
    intro x _
    by_cases hx : x = n <;> simp [hx]
  have hrest : ((N.filter (· ≠ n)) ++ [n]).Perm N := by
    rw [herase]
    exact (List.perm_append_singleton _ _).trans (List.perm_cons_erase hn).symm
  rw [hme]
  have hm' := hm.map fun m => (m.key, m.host)
  rw [List.map_map] at hm'
  have hr := hrest.map fun x => (v.key x, x)
  rw [List.map_append, List.map_singleton] at hr
  exact (hm'.append_right _).trans hr

/-- The leafset of a node that holds every other node names the responsible node, as a definite
answer or as its best candidate. -/
theorem leafset_routeLookup_responsible_of_members {ls : Leafset} (hkeys : (N.map v.key).Nodup)
    (hn : n ∈ N) (hme : ls.me = n) (hm : ls.members.Perm ((N.filter (· ≠ n)).map (memberOf v)))
    (k : Key) :
    ∃ g, Responsible v N k g ∧ (ls.routeLookup v k = .found g ∨
      ls.routeLookup v k = .closest (some g)) := by
  have hbest := closest_responsible hkeys
    (candidates_perm_of_members (List.Nodup.of_map _ hkeys) hn hme hm) k
  unfold Leafset.routeLookup
  split
  next hsize =>
    have hnil : ls.members = [] := by
      simp only [Leafset.size, Nat.add_eq_zero_iff, List.length_eq_zero_iff] at hsize
      simp [members, hsize.1, hsize.2]
    have hself : ls.closest v k = ls.me := by
      unfold closest
      rw [hnil]
      rfl
    exact ⟨_, hself ▸ hbest, Or.inr rfl⟩
  next =>
    dsimp only
    split
    next m hfind =>
      have hkey : m.key = k := by simpa using List.find?_some hfind
      obtain ⟨x, hx, rfl⟩ := List.mem_map.mp (hm.mem_iff.mp (List.mem_of_find?_eq_some hfind))
      exact ⟨x, responsible_of_key_eq hkeys (List.mem_filter.mp hx).1 hkey, Or.inl rfl⟩
    next =>
      refine ⟨_, hbest, ?_⟩
      split
      · exact Or.inl rfl
      · exact Or.inr rfl

/-- A routing state whose leafset holds every other node and whose table is empty answers the
node responsible for `k`. -/
theorem routeLookup_responsible_of_members {r : Routing} (hkeys : (N.map v.key).Nodup)
    (hn : n ∈ N) (hme : r.me = n ∧ r.leafset.me = n ∧ r.table.me = n)
    (hm : r.leafset.members.Perm ((N.filter (· ≠ n)).map (memberOf v)))
    (ht : ∀ i j, r.table.get i j = none) (k : Key) :
    Responsible v N k (r.routeLookup v k) := by
  unfold Routing.routeLookup
  split
  next hk =>
    rw [hme.1] at hk ⊢
    exact responsible_of_key_eq hkeys hn hk
  next hk =>
    have htable : r.table.routeLookup v k = .closest none := by
      refine Table.routeLookup_of_get_eq_none ht ?_
      rw [hme.2.2, ← hme.1]
      exact hk
    obtain ⟨g, hg, hl | hl⟩ := leafset_routeLookup_responsible_of_members hkeys hn hme.2.1 hm k
    · rw [hl]
      exact hg
    · rw [hl]
      dsimp only
      rw [htable]
      exact hg

/-- When the whole overlay fits in every leafset, every node answers the node responsible for
`k`. -/
theorem routeLookup_responsible (hkeys : (N.map v.key).Nodup) (hlen : N.length ≤ L + 1)
    (hc : Consistent v L N rs) (hn : n ∈ N) (k : Key) :
    Responsible v N k ((rs n).routeLookup v k) :=
  routeLookup_responsible_of_members hkeys hn (hc.me n hn) (members_perm hlen hc hn)
    (table_get_eq_none hlen hc hn) k

/-- Delivery within one hop: when the whole overlay fits in every leafset, the node a lookup
starts at answers the node responsible for the key, and that node answers itself. -/
theorem routeLookup_delivers_of_length_le (hkeys : (N.map v.key).Nodup)
    (hlen : N.length ≤ L + 1) (hc : Consistent v L N rs) (hn : n ∈ N) (k : Key) :
    ∃ g, Responsible v N k g ∧ (rs n).routeLookup v k = g ∧ (rs g).routeLookup v k = g := by
  have hg := routeLookup_responsible hkeys hlen hc hn k
  exact ⟨_, hg, rfl, (routeLookup_responsible hkeys hlen hc hg.1 k).unique hg⟩

end Snapshot

section Ring

/-! Three nodes at the top bytes `0x08`, `0x18` and `0x78` of the ring, and a key at `0xf8`,
nearest to the first node. -/

def ringKey (b : Nat) : Key := Key.ofNat (b * 2 ^ 152)

def ringView : PeerView := ⟨fun h => ringKey ([0x08, 0x18, 0x78].getD h.idx 0), fun _ => 0⟩

def ringNodes : List Host.Id := [⟨0⟩, ⟨1⟩, ⟨2⟩]

def ringTarget : Key := ringKey 0xf8

theorem mem_ringNodes {n : Host.Id} (hn : n ∈ ringNodes) : n = ⟨0⟩ ∨ n = ⟨1⟩ ∨ n = ⟨2⟩ := by
  simpa [ringNodes] using hn

/-- Half size two: every leafset holds both other nodes, and the tables are empty. -/
def looseRing : Host.Id → Routing
  | ⟨0⟩ => ⟨⟨0⟩, ⟨⟨0⟩, 2, [memberOf ringView ⟨1⟩, memberOf ringView ⟨2⟩], []⟩, Table.new ⟨0⟩⟩
  | ⟨1⟩ => ⟨⟨1⟩, ⟨⟨1⟩, 2, [memberOf ringView ⟨2⟩], [memberOf ringView ⟨0⟩]⟩, Table.new ⟨1⟩⟩
  | h => ⟨h, ⟨h, 2, [], [memberOf ringView ⟨1⟩, memberOf ringView ⟨0⟩]⟩, Table.new h⟩

theorem looseRing_consistent : Consistent ringView 2 ringNodes looseRing where
  me n hn := by
    rcases mem_ringNodes hn with rfl | rfl | rfl <;> exact ⟨rfl, rfl, rfl⟩
  side n hn s := by
    rcases mem_ringNodes hn with rfl | rfl | rfl <;> cases s <;> decide +kernel
  table n hn i j h hg := by
    rcases mem_ringNodes hn with rfl | rfl | rfl <;> simp [looseRing] at hg

theorem ring_delivers_with_half_size_two :
    (ringNodes.map ringView.key).Nodup ∧ ringNodes.length ≤ 2 + 1 ∧
      Consistent ringView 2 ringNodes looseRing ∧ ⟨2⟩ ∈ ringNodes ∧
      ∃ g, Responsible ringView ringNodes ringTarget g ∧
        (looseRing ⟨2⟩).routeLookup ringView ringTarget = g ∧
        (looseRing g).routeLookup ringView ringTarget = g :=
  ⟨by decide, by decide, looseRing_consistent, by decide,
    routeLookup_delivers_of_length_le (by decide) (by decide) looseRing_consistent (by decide)
      ringTarget⟩

/-- Half size one: each leafset holds the nearest node on either side, and the node left out
sits in the table of the first and of the last node. -/
def tightRing : Host.Id → Routing
  | ⟨0⟩ => ⟨⟨0⟩, ⟨⟨0⟩, 1, [memberOf ringView ⟨1⟩], []⟩, (Table.new ⟨0⟩).set 0 7 (some ⟨2⟩)⟩
  | ⟨1⟩ => ⟨⟨1⟩, ⟨⟨1⟩, 1, [memberOf ringView ⟨2⟩], [memberOf ringView ⟨0⟩]⟩, Table.new ⟨1⟩⟩
  | h => ⟨h, ⟨h, 1, [], [memberOf ringView ⟨1⟩]⟩, (Table.new h).set 0 0 (some ⟨0⟩)⟩

theorem tightRing_consistent : Consistent ringView 1 ringNodes tightRing where
  me n hn := by
    rcases mem_ringNodes hn with rfl | rfl | rfl <;> exact ⟨rfl, rfl, rfl⟩
  side n hn s := by
    rcases mem_ringNodes hn with rfl | rfl | rfl <;> cases s <;> decide +kernel
  table n hn i j h hg := by
    rcases mem_ringNodes hn with rfl | rfl | rfl
    · rw [show (tightRing ⟨0⟩).table = (Table.new ⟨0⟩).set 0 7 (some ⟨2⟩) from rfl,
        Table.get_set_new (by decide) (by decide)] at hg
      split at hg
      next hs =>
        obtain ⟨rfl, rfl⟩ := hs
        cases hg
        decide
      next => cases hg
    · simp [tightRing] at hg
    · rw [show (tightRing ⟨2⟩).table = (Table.new ⟨2⟩).set 0 0 (some ⟨0⟩) from rfl,
        Table.get_set_new (by decide) (by decide)] at hg
      split at hg
      next hs =>
        obtain ⟨rfl, rfl⟩ := hs
        cases hg
        decide
      next => cases hg

/-- The first node's table offers the third node, which shares no digit with the key. -/
theorem tightRing_table_zero :
    (tightRing ⟨0⟩).table.routeLookup ringView ringTarget = .closest (some ⟨2⟩) := by
  have hget := @Table.get_set_new ⟨0⟩ ⟨2⟩ 0 7 (by decide) (by decide)
  have hrow : ((Table.new ⟨0⟩).set 0 7 (some ⟨2⟩)).row 0 = [⟨2⟩] := by
    simp only [Table.row, hget]
    decide
  have hi : (ringView.key ((Table.new ⟨0⟩).set 0 7 (some ⟨2⟩)).me).keyIndex ringTarget = 0 := by
    decide
  show ((Table.new ⟨0⟩).set 0 7 (some ⟨2⟩)).routeLookup ringView ringTarget = _
  unfold Table.routeLookup
  simp only [hi, hrow, Table.hosts_eq_singleton hget]
  decide

/-- The third node's table offers the first node, which shares no digit with the key. -/
theorem tightRing_table_two :
    (tightRing ⟨2⟩).table.routeLookup ringView ringTarget = .closest (some ⟨0⟩) := by
  have hget := @Table.get_set_new ⟨2⟩ ⟨0⟩ 0 0 (by decide) (by decide)
  have hrow : ((Table.new ⟨2⟩).set 0 0 (some ⟨0⟩)).row 0 = [⟨0⟩] := by
    simp only [Table.row, hget]
    decide
  have hi : (ringView.key ((Table.new ⟨2⟩).set 0 0 (some ⟨0⟩)).me).keyIndex ringTarget = 0 := by
    decide
  show ((Table.new ⟨2⟩).set 0 0 (some ⟨0⟩)).routeLookup ringView ringTarget = _
  unfold Table.routeLookup
  simp only [hi, hrow, Table.hosts_eq_singleton hget]
  decide

/-- With half size one the lookup goes round the ring for ever: the responsible node `⟨0⟩`
hands the key to `⟨2⟩`, whose table candidate is nearer by clockwise distance, `⟨2⟩` hands it
to `⟨1⟩`, and `⟨1⟩` back to `⟨0⟩`. -/
theorem routeLookup_cycles_with_half_size_one :
    (ringNodes.map ringView.key).Nodup ∧ (∀ x ∈ ringNodes, ringView.key x ≠ Key.zero) ∧
      Consistent ringView 1 ringNodes tightRing ∧
      Responsible ringView ringNodes ringTarget ⟨0⟩ ∧
      (tightRing ⟨0⟩).routeLookup ringView ringTarget = ⟨2⟩ ∧
      (tightRing ⟨2⟩).routeLookup ringView ringTarget = ⟨1⟩ ∧
      (tightRing ⟨1⟩).routeLookup ringView ringTarget = ⟨0⟩ := by
  have hempty : (tightRing ⟨1⟩).table.routeLookup ringView ringTarget = .closest none :=
    Table.routeLookup_of_get_eq_none (fun i j => Table.get_new ⟨1⟩ i j) (by decide)
  refine ⟨by decide, by decide, tightRing_consistent, by decide +kernel, ?_, ?_, ?_⟩
  · unfold Routing.routeLookup
    rw [tightRing_table_zero]
    decide +kernel
  · unfold Routing.routeLookup
    rw [tightRing_table_two]
    decide +kernel
  · unfold Routing.routeLookup
    rw [hempty]
    decide +kernel

end Ring

end PeerRing.Overlay
