import PeerRing.Proofs.Overlay.Span
import PeerRing.Proofs.Overlay.Forwarding
import PeerRing.Proofs.Overlay.Idempotence
/-! # Keeping a key at the nearest node

When neither structure is definite, routing weighs the leafset's candidate against the table's
by clockwise distance to the key alone, while both structures pick their candidates by ring
distance. So a node that is strictly nearer to a key than every node it knows, and that no table
entry beats on the key's prefix, keeps the key when it lies behind the key, within half a turn:
its clockwise walk to the key is then its ring distance, shorter than any entry's. When it lies
just past the key the walk is almost a whole turn, and a table entry behind the key wins: on the
ring of three nodes with half size one, which the node at `0x08` reaches by adding the other two,
the key `0xf8` leaves the node at `0x08` although that node is the nearest of all.
-/
namespace PeerRing.Overlay

open Key Leafset

section Leafset

variable {v : PeerView} {ls : Leafset} {k : Key}

/-- A local node strictly nearer to `k` than every member is the closest candidate. -/
theorem Leafset.closest_eq_me (hnear : ∀ m ∈ ls.members,
    ringDistance (v.key ls.me) k < ringDistance m.key k) : ls.closest v k = ls.me := by
  obtain ⟨c, hc, hcl, hmin⟩ := closest_least v ls k
  rw [hcl]
  rcases List.mem_append.mp hc with hc | hc
  · -- a member kept as closest would rank below the local node
    obtain ⟨m, hm, rfl⟩ := List.mem_map.mp hc
    have hlt := hmin (v.key ls.me, ls.me) (List.mem_append_right _ List.mem_cons_self)
    rw [Bool.eq_false_iff, ne_eq, rankLt_iff] at hlt
    exact absurd (Or.inl ((lt_iff_val _ _).mp (hnear m hm))) hlt
  · rw [List.mem_singleton.mp hc]

/-- A leafset whose local node is strictly nearer to `k` than every member answers the local
node, as a definite answer or as its candidate. -/
theorem Leafset.routeLookup_me_of_nearer (hnear : ∀ m ∈ ls.members,
    ringDistance (v.key ls.me) k < ringDistance m.key k) :
    ls.routeLookup v k = .found ls.me ∨ ls.routeLookup v k = .closest (some ls.me) := by
  unfold Leafset.routeLookup
  split
  · exact Or.inr rfl
  · dsimp only
    split
    next m hfind =>
      -- no member sits at the key itself: the local node would be nearer than distance zero
      have hkey : m.key = k := by simpa using List.find?_some hfind
      have hlt := hnear m (List.mem_of_find?_eq_some hfind)
      rw [hkey, ringDistance_self, lt_iff_val, val_zero] at hlt
      exact absurd hlt (Nat.not_lt_zero _)
    next =>
      rw [closest_eq_me hnear]
      split
      · exact Or.inl rfl
      · exact Or.inr rfl

end Leafset

section Routing

variable {v : PeerView} {r : Routing} {k : Key}

/-- Routing reads only the keys of its records. -/
theorem Routing.routeLookup_congr {v' : PeerView} (h : v.key = v'.key) (r : Routing) (k : Key) :
    r.routeLookup v k = r.routeLookup v' k := by
  obtain ⟨key, s⟩ := v
  obtain ⟨key', s'⟩ := v'
  cases h
  rfl

/-- A node that lies behind `k` within half a turn, is strictly nearer to `k` than every node
it knows, and that no table entry beats on `k`'s prefix keeps the key, in every routing state
reachable from an empty one. -/
theorem routeLookup_self_of_nearest_predecessor {me : Host.Id} {L : Nat} {reg : Host.Registry}
    (hr : Routing.Reachable me L (reg, r))
    (hleaf : ∀ m ∈ r.leafset.members,
      ringDistance ((PeerView.ofRegistry reg).key r.me) k < ringDistance m.key k)
    (htable : ∀ h ∈ r.table.hosts,
      ringDistance ((PeerView.ofRegistry reg).key r.me) k <
        ringDistance ((PeerView.ofRegistry reg).key h) k)
    (hdigits : ∀ h ∈ r.table.hosts,
      ((PeerView.ofRegistry reg).key h).keyIndex k ≤
        ((PeerView.ofRegistry reg).key r.me).keyIndex k)
    (hbehind : distance ((PeerView.ofRegistry reg).key r.me) k ≤
      distance k ((PeerView.ofRegistry reg).key r.me)) :
    r.routeLookup (.ofRegistry reg) k = r.me := by
  have hinv := Routing.reachable_invariant hr
  have hls := hinv.leafset_me
  have htm := hinv.table_me
  unfold Routing.routeLookup
  split
  · rfl
  next hk =>
    rw [← hls] at hleaf
    rcases Leafset.routeLookup_me_of_nearer hleaf with hl | hl <;> rw [hl]
    · exact hls
    dsimp only
    rw [← htm] at hdigits hk
    rcases Table.routeLookup_of_forall_keyIndex_le (Ne.symm hk) hdigits with
      ⟨ht, -⟩ | ⟨tb, ht, htb⟩ <;> rw [ht]
    · exact hls
    · -- behind the key, the local node's clockwise walk is its ring distance, shorter than the
      -- table candidate's ring distance and so than its clockwise walk
      have hwalk := (ringDistance_of_le hbehind).symm ▸ htable tb htb.1
      have hlt : distance ((PeerView.ofRegistry reg).key r.me) k <
          distance ((PeerView.ofRegistry reg).key tb) k :=
        (lt_iff_val _ _).mpr
          (Nat.lt_of_lt_of_le ((lt_iff_val _ _).mp hwalk) (val_ringDistance_le_distance _ _))
      dsimp only
      rw [Option.getD_some, hls]
      unfold Routing.nearer
      dsimp only
      rw [if_pos (Or.inl hlt)]

end Routing

section Ring

/-- The records of the three-node ring, indexed as the nodes of `ringView`. -/
def ringRegistry : Host.Registry :=
  ⟨#[Host.Record.ofNodeAddr ⟨ringKey 0x08, default⟩, Host.Record.ofNodeAddr ⟨ringKey 0x18, default⟩,
    Host.Record.ofNodeAddr ⟨ringKey 0x78, default⟩]⟩

theorem key_ringRegistry : (PeerView.ofRegistry ringRegistry).key = ringView.key := by
  funext h
  obtain ⟨i⟩ := h
  show (ringRegistry.records.getD i default).key = ringKey ([0x08, 0x18, 0x78].getD i 0)
  rcases i with _ | _ | _ | i
  · rfl
  · rfl
  · rfl
  · simp [ringRegistry]
    rfl

/-- The node at `0x08` reaches its state of the three-node ring with half size one by adding
the node at `0x18`, which its leafset takes, and then the node at `0x78`, which its full
clockwise side turns down and its table takes. -/
theorem ringRegistry_reaches_tightRing : Routing.Reachable ⟨0⟩ 1 (ringRegistry, tightRing ⟨0⟩) := by
  have hfirst : ((Routing.new ⟨0⟩ 1).add (.ofRegistry ringRegistry) ⟨1⟩).1 =
      ⟨⟨0⟩, ⟨⟨0⟩, 1, [memberOf ringView ⟨1⟩], []⟩, Table.new ⟨0⟩⟩ := by
    have hfresh : Routing.Fresh (.ofRegistry ringRegistry) (Routing.new ⟨0⟩ 1) ⟨1⟩ :=
      ⟨rfl, Table.isStale_eq_false_of_forall fun i j => by simp [Routing.new]⟩
    have hadd : (Routing.new ⟨0⟩ 1).leafset.add (.ofRegistry ringRegistry) ⟨1⟩ =
        (⟨⟨0⟩, 1, [memberOf ringView ⟨1⟩], []⟩, .inserted) := by decide +kernel
    rw [Routing.add_fst, if_neg (by decide), Routing.forgetStale_of_fresh hfresh]
    unfold Routing.insert
    rw [if_neg (by decide), hadd]
    dsimp only
    rw [Table.remove_of_get_eq_none fun i j => by simp [Routing.new]]
    rfl
  have hsecond : (Routing.add (.ofRegistry ringRegistry)
      ⟨⟨0⟩, ⟨⟨0⟩, 1, [memberOf ringView ⟨1⟩], []⟩, Table.new ⟨0⟩⟩ ⟨2⟩).1 = tightRing ⟨0⟩ := by
    have hfresh : Routing.Fresh (.ofRegistry ringRegistry)
        ⟨⟨0⟩, ⟨⟨0⟩, 1, [memberOf ringView ⟨1⟩], []⟩, Table.new ⟨0⟩⟩ ⟨2⟩ :=
      ⟨by decide, Table.isStale_eq_false_of_forall fun i j => by simp⟩
    have hadd : Table.add (.ofRegistry ringRegistry) (Table.new ⟨0⟩) ⟨2⟩ =
        ((Table.new ⟨0⟩).set 0 7 (some ⟨2⟩), true) :=
      Table.add_of_get_eq_none (by decide) (Table.get_new _ _ _)
    rw [Routing.add_fst, if_neg (by decide), Routing.forgetStale_of_fresh hfresh,
      Routing.insert_of_rejected (by decide) (by decide +kernel)]
    dsimp only
    rw [hadd]
    rfl
  have hrun : Routing.Reachable ⟨0⟩ 1 (ringRegistry, (((Routing.new ⟨0⟩ 1).add
      (.ofRegistry ringRegistry) ⟨1⟩).1.add (.ofRegistry ringRegistry) ⟨2⟩).1) :=
    .step (.step (.init ringRegistry) (.add _ _ ⟨1⟩)) (.add _ _ ⟨2⟩)
  rwa [hfirst, hsecond] at hrun

/-- The table of the node at `0x08` holds the node at `0x78` only. -/
theorem tightRing_hosts_zero : (tightRing ⟨0⟩).table.hosts = [⟨2⟩] :=
  Table.hosts_eq_singleton (Table.get_set_new (by decide) (by decide))

/-- Where the nearest node lies just past the key, it forwards the key away: at the node `0x08`,
reached from an empty state, the key `0xf8` is nearer to it than to every node it knows, no
table entry shares a digit with the key, and yet the lookup answers the node at `0x78`, whose
clockwise walk to the key is the shorter. -/
theorem routeLookup_passes_nearest_successor :
    Routing.Reachable ⟨0⟩ 1 (ringRegistry, tightRing ⟨0⟩) ∧
      (∀ m ∈ (tightRing ⟨0⟩).leafset.members,
        ringDistance ((PeerView.ofRegistry ringRegistry).key (tightRing ⟨0⟩).me) ringTarget <
          ringDistance m.key ringTarget) ∧
      (∀ h ∈ (tightRing ⟨0⟩).table.hosts,
        ringDistance ((PeerView.ofRegistry ringRegistry).key (tightRing ⟨0⟩).me) ringTarget <
          ringDistance ((PeerView.ofRegistry ringRegistry).key h) ringTarget) ∧
      (∀ h ∈ (tightRing ⟨0⟩).table.hosts,
        ((PeerView.ofRegistry ringRegistry).key h).keyIndex ringTarget ≤
          ((PeerView.ofRegistry ringRegistry).key (tightRing ⟨0⟩).me).keyIndex ringTarget) ∧
      (tightRing ⟨0⟩).routeLookup (.ofRegistry ringRegistry) ringTarget ≠ (tightRing ⟨0⟩).me := by
  have hlookup : (tightRing ⟨0⟩).routeLookup ringView ringTarget = ⟨2⟩ := by
    unfold Routing.routeLookup
    rw [tightRing_table_zero]
    decide +kernel
  rw [tightRing_hosts_zero, Routing.routeLookup_congr key_ringRegistry, hlookup, key_ringRegistry]
  exact ⟨ringRegistry_reaches_tightRing, by decide +kernel, by decide +kernel, by decide, by decide⟩

/-- Behind a key, the same node keeps it: the key `0x0c` lies a little clockwise of `0x08`. -/
theorem ring_keeps_key_behind :
    Routing.Reachable ⟨0⟩ 1 (ringRegistry, tightRing ⟨0⟩) ∧
      (∀ m ∈ (tightRing ⟨0⟩).leafset.members,
        ringDistance ((PeerView.ofRegistry ringRegistry).key (tightRing ⟨0⟩).me) (ringKey 0x0c) <
          ringDistance m.key (ringKey 0x0c)) ∧
      (∀ h ∈ (tightRing ⟨0⟩).table.hosts,
        ringDistance ((PeerView.ofRegistry ringRegistry).key (tightRing ⟨0⟩).me) (ringKey 0x0c) <
          ringDistance ((PeerView.ofRegistry ringRegistry).key h) (ringKey 0x0c)) ∧
      (∀ h ∈ (tightRing ⟨0⟩).table.hosts,
        ((PeerView.ofRegistry ringRegistry).key h).keyIndex (ringKey 0x0c) ≤
          ((PeerView.ofRegistry ringRegistry).key (tightRing ⟨0⟩).me).keyIndex (ringKey 0x0c)) ∧
      distance ((PeerView.ofRegistry ringRegistry).key (tightRing ⟨0⟩).me) (ringKey 0x0c) ≤
        distance (ringKey 0x0c) ((PeerView.ofRegistry ringRegistry).key (tightRing ⟨0⟩).me) ∧
      (tightRing ⟨0⟩).routeLookup (.ofRegistry ringRegistry) (ringKey 0x0c) =
        (tightRing ⟨0⟩).me := by
  have hleaf : ∀ m ∈ (tightRing ⟨0⟩).leafset.members,
      ringDistance ((PeerView.ofRegistry ringRegistry).key (tightRing ⟨0⟩).me) (ringKey 0x0c) <
        ringDistance m.key (ringKey 0x0c) := by
    rw [key_ringRegistry]
    decide +kernel
  have htable : ∀ h ∈ (tightRing ⟨0⟩).table.hosts,
      ringDistance ((PeerView.ofRegistry ringRegistry).key (tightRing ⟨0⟩).me) (ringKey 0x0c) <
        ringDistance ((PeerView.ofRegistry ringRegistry).key h) (ringKey 0x0c) := by
    rw [tightRing_hosts_zero, key_ringRegistry]
    decide +kernel
  have hdigits : ∀ h ∈ (tightRing ⟨0⟩).table.hosts,
      ((PeerView.ofRegistry ringRegistry).key h).keyIndex (ringKey 0x0c) ≤
        ((PeerView.ofRegistry ringRegistry).key (tightRing ⟨0⟩).me).keyIndex (ringKey 0x0c) := by
    rw [tightRing_hosts_zero, key_ringRegistry]
    decide
  have hbehind : distance ((PeerView.ofRegistry ringRegistry).key (tightRing ⟨0⟩).me)
      (ringKey 0x0c) ≤
        distance (ringKey 0x0c) ((PeerView.ofRegistry ringRegistry).key (tightRing ⟨0⟩).me) := by
    rw [key_ringRegistry]
    decide +kernel
  exact ⟨ringRegistry_reaches_tightRing, hleaf, htable, hdigits, hbehind,
    routeLookup_self_of_nearest_predecessor ringRegistry_reaches_tightRing hleaf htable hdigits
      hbehind⟩

end Ring

end PeerRing.Overlay
