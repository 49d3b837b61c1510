import PeerRing.Proofs.Overlay.Delivery
import PeerRing.Proofs.Overlay.Sides
/-! # The span of the leafset

The span of a leafset is the clockwise arc from its farthest counter-clockwise member to its
farthest clockwise member, each end the local key when its side is empty. Kept in order around
the local key, a side lies within half a turn of it, the counter-clockwise one strictly, and so
the span holds every member, across zero and at exactly half a turn alike.

A lookup answers a member placed under the key itself at once. That shortcut changes nothing:
the lookup equals the one that weighs the span alone, which is definite inside the span and
answers the candidate nearest to the key, and a member placed under the key is that candidate.
-/
namespace PeerRing.Overlay.Leafset

open Key

/-- The counter-clockwise end of the span: the placed key of the farthest counter-clockwise
member, or the local key. -/
def spanLeft (v : PeerView) (ls : Leafset) : Key := (ls.ccw.getLast?.map (·.key)).getD (v.key ls.me)

/-- The clockwise end of the span: the placed key of the farthest clockwise member, or the local
key. -/
def spanRight (v : PeerView) (ls : Leafset) : Key := (ls.cw.getLast?.map (·.key)).getD (v.key ls.me)

/-- The candidates a lookup weighs: the members under their placed keys, then the local node. -/
def candidates (v : PeerView) (ls : Leafset) : List (Key × Host.Id) :=
  ls.members.map (fun m => (m.key, m.host)) ++ [(v.key ls.me, ls.me)]

/-- The lookup by the span alone: the local node for an empty leafset; otherwise the candidate
nearest to `k`, definite when `k` lies within the span. -/
def spanLookup (v : PeerView) (ls : Leafset) (k : Key) : Lookup :=
  if ls.size = 0 then .closest (some ls.me)
  else if k.between (ls.spanLeft v) (ls.spanRight v) then .found (ls.closest v k)
  else .closest (some (ls.closest v k))

variable {v : PeerView} {ls : Leafset} {me : Key} {s : Side}

theorem SideSorted.le_last {ms : List Member} {last m : Member} (hs : SideSorted me s ms)
    (hl : ms.getLast? = some last) (hm : m ∈ ms) : sideVal me s m.key ≤ sideVal me s last.key := by
  obtain ⟨init, rfl⟩ := List.getLast?_eq_some_iff.mp hl
  have hsorted := List.pairwise_append.mp hs.sorted
  rcases List.mem_append.mp hm with hm | hm
  · exact Nat.le_of_lt (hsorted.2.2 m hm last List.mem_cons_self)
  · rw [List.mem_singleton.mp hm]

/-- The counter-clockwise end lies less than half a turn behind the local key, and no member of
that side lies farther behind. -/
theorem spanLeft_bound (hs : SideSorted (v.key ls.me) .ccw ls.ccw) :
    2 * (distance (ls.spanLeft v) (v.key ls.me)).val < Key.size ∧
      ∀ m ∈ ls.ccw, (distance m.key (v.key ls.me)).val ≤
        (distance (ls.spanLeft v) (v.key ls.me)).val := by
  unfold spanLeft
  cases hl : ls.ccw.getLast? with
  | none =>
    rw [List.getLast?_eq_none_iff.mp hl]
    refine ⟨?_, fun m hm => absurd hm List.not_mem_nil⟩
    rw [Option.map_none, Option.getD_none, distance_self, val_zero, size_eq]
    decide
  | some last =>
    have hmem := List.mem_of_getLast? hl
    have hne := hs.ne_me last hmem
    have hside := place_fst_eq_ccw_iff.mp (hs.on_side last hmem)
    have hsum := val_distance_add_distance hne
    rw [le_iff_val] at hside
    refine ⟨by dsimp only [Option.map_some, Option.getD_some]; omega, fun m hm => ?_⟩
    exact hs.le_last hl hm

/-- The clockwise end lies at most half a turn ahead of the local key, and no member of that
side lies farther ahead. -/
theorem spanRight_bound (hs : SideSorted (v.key ls.me) .cw ls.cw) :
    2 * (distance (v.key ls.me) (ls.spanRight v)).val ≤ Key.size ∧
      ∀ m ∈ ls.cw, (distance (v.key ls.me) m.key).val ≤
        (distance (v.key ls.me) (ls.spanRight v)).val := by
  unfold spanRight
  cases hl : ls.cw.getLast? with
  | none =>
    rw [List.getLast?_eq_none_iff.mp hl]
    refine ⟨?_, fun m hm => absurd hm List.not_mem_nil⟩
    rw [Option.map_none, Option.getD_none, distance_self, val_zero]
    exact Nat.zero_le _
  | some last =>
    have hmem := List.mem_of_getLast? hl
    have hne := hs.ne_me last hmem
    have hside := place_fst_eq_cw_iff.mp (hs.on_side last hmem)
    have hsum := val_distance_add_distance (Ne.symm hne)
    rw [le_iff_val] at hside
    refine ⟨by dsimp only [Option.map_some, Option.getD_some]; omega, fun m hm => ?_⟩
    exact hs.le_last hl hm

/-- Every member of a leafset in order lies within its span. -/
theorem between_span (hp : Placed (v.key ls.me) ls) {m : Member} (hm : m ∈ ls.members) :
    m.key.between (ls.spanLeft v) (ls.spanRight v) = true := by
  obtain ⟨hleft, hccw⟩ := spanLeft_bound (hp.side .ccw)
  obtain ⟨hright, hcw⟩ := spanRight_bound (hp.side .cw)
  have hspan := val_distance_trans (ls.spanLeft v) (v.key ls.me) (ls.spanRight v)
  have hpos := (distance (ls.spanLeft v) m.key).val_lt
  refine between_iff.mpr (Or.inr ?_)
  rw [le_iff_val]
  obtain ⟨s, hs⟩ := mem_members.mp hm
  cases s with
  | cw =>
    have hd := hcw m hs
    have hwalk := val_distance_trans (ls.spanLeft v) (v.key ls.me) m.key
    rw [size_eq] at *
    omega
  | ccw =>
    have hd := hccw m hs
    have hback := (distance m.key (v.key ls.me)).val_lt
    have hwalk := val_distance_trans (ls.spanLeft v) m.key (v.key ls.me)
    rw [size_eq] at *
    omega

/-- The closest candidate is one that no candidate ranks below. -/
theorem closest_least (v : PeerView) (ls : Leafset) (k : Key) :
    ∃ c ∈ ls.candidates v, ls.closest v k = c.2 ∧
      ∀ c' ∈ ls.candidates v, rankLt (rank k c'.1) (rank k c.1) = false := by
  unfold closest candidates
  generalize hcs : ls.members.map (fun m => (m.key, m.host)) ++ [(v.key ls.me, ls.me)] = cs
  obtain _ | ⟨c, cs⟩ := cs
  · simp at hcs
  · exact firstBest_min (rank k) c cs

/-- No two candidates of a leafset in order share a key: members are placed under distinct
keys, none of them the local key. -/
theorem nodup_candidates (hp : Placed (v.key ls.me) ls) :
    ((ls.candidates v).map Prod.fst).Nodup := by
  unfold candidates
  rw [List.map_append, List.map_map, List.nodup_append]
  refine ⟨hp.nodup_keys, List.nodup_singleton _, fun a ha b hb hab => ?_⟩
  obtain ⟨m, hm, rfl⟩ := List.mem_map.mp ha
  obtain ⟨s, hs⟩ := mem_members.mp hm
  rw [List.mem_singleton.mp hb] at hab
  exact (hp.side s).ne_me m hs hab

/-- The closest candidate of a leafset in order is nearer to the key than every other
candidate. -/
theorem closest_nearer (hp : Placed (v.key ls.me) ls) (k : Key) :
    ∃ c ∈ ls.candidates v, ls.closest v k = c.2 ∧
      ∀ c' ∈ ls.candidates v, c' ≠ c → NearerTo k c.1 c'.1 := by
  have hnodup := nodup_candidates (v := v) hp
  unfold closest
  unfold candidates at hnodup ⊢
  generalize hcs : ls.members.map (fun m => (m.key, m.host)) ++ [(v.key ls.me, ls.me)] = cs
    at hnodup ⊢
  obtain _ | ⟨c, cs⟩ := cs
  · simp at hcs
  · exact firstBest_nearer k c cs hnodup

/-- A member placed under the key itself is the closest candidate. -/
theorem closest_eq_of_key_eq (hp : Placed (v.key ls.me) ls) {m : Member} (hm : m ∈ ls.members)
    {k : Key} (hk : m.key = k) : ls.closest v k = m.host := by
  obtain ⟨c, hc, hcl, hnear⟩ := closest_nearer (v := v) hp k
  have hmc : (m.key, m.host) ∈ ls.candidates v :=
    List.mem_append_left _ (List.mem_map_of_mem hm)
  by_cases he : (m.key, m.host) = c
  · rw [hcl, ← he]
  · -- any other candidate lies farther from `k` than the member at `k` itself
    have hck : c.1 ≠ k := fun hck => he (List.inj_on_of_nodup_map (nodup_candidates hp) hmc hc
      (hk.trans hck.symm))
    have hfar := hnear _ hmc he
    rw [hk] at hfar
    exact absurd (nearerTo_target hck) hfar.asymm

/-- The shortcut for a placed key changes nothing: a leafset in order answers every key as the
lookup by its span alone does. -/
theorem routeLookup_eq_spanLookup (hp : Placed (v.key ls.me) ls) (k : Key) :
    ls.routeLookup v k = ls.spanLookup v k := by
  unfold routeLookup spanLookup
  split
  · rfl
  · dsimp only
    split
    next m hfind =>
      have hkey : m.key = k := by simpa using List.find?_some hfind
      have hm := List.mem_of_find?_eq_some hfind
      have hspan := between_span hp hm
      rw [hkey] at hspan
      rw [if_pos hspan, closest_eq_of_key_eq hp hm hkey]
    next => rfl

/-- Leafset lookup agrees with its specification: in a leafset in order, the lookup of any key
is the lookup by the span alone, which weighs the candidates by nearness to the key, and a
member placed under the key itself is answered as definite. -/
theorem lookup_agrees_with_span (hp : Placed (v.key ls.me) ls) (k : Key) :
    ls.routeLookup v k = ls.spanLookup v k ∧
      (∃ c ∈ ls.candidates v, ls.closest v k = c.2 ∧
        ∀ c' ∈ ls.candidates v, c' ≠ c → NearerTo k c.1 c'.1) ∧
      ∀ m ∈ ls.members, m.key = k → ls.routeLookup v k = .found m.host := by
  refine ⟨routeLookup_eq_spanLookup hp k, closest_nearer hp k, fun m hm hk => ?_⟩
  have hsize : ls.size ≠ 0 := by
    unfold size
    obtain ⟨s, hs⟩ := mem_members.mp hm
    cases s
    · exact Nat.ne_of_gt (Nat.lt_of_lt_of_le (List.length_pos_of_mem hs) (Nat.le_add_right _ _))
    · exact Nat.ne_of_gt (Nat.lt_of_lt_of_le (List.length_pos_of_mem hs) (Nat.le_add_left _ _))
  have hspan := between_span hp hm
  rw [hk] at hspan
  rw [routeLookup_eq_spanLookup hp, spanLookup, if_neg hsize, if_pos hspan,
    closest_eq_of_key_eq hp hm hk]

/-- The leafset of the node at `0x18` of the three-node ring with half size one: `0x78`
clockwise, `0x08` counter-clockwise. -/
theorem tightRing_one_placed :
    Placed (ringView.key (tightRing ⟨1⟩).leafset.me) (tightRing ⟨1⟩).leafset where
  side s := by cases s <;> exact ⟨by decide +kernel, by decide, by decide +kernel⟩
  length_le s := by cases s <;> decide

theorem tightRing_one_agrees_with_span :
    Placed (ringView.key (tightRing ⟨1⟩).leafset.me) (tightRing ⟨1⟩).leafset ∧
      (tightRing ⟨1⟩).leafset.routeLookup ringView (ringKey 0x78) =
          (tightRing ⟨1⟩).leafset.spanLookup ringView (ringKey 0x78) ∧
        (∃ c ∈ (tightRing ⟨1⟩).leafset.candidates ringView,
          (tightRing ⟨1⟩).leafset.closest ringView (ringKey 0x78) = c.2 ∧
            ∀ c' ∈ (tightRing ⟨1⟩).leafset.candidates ringView, c' ≠ c →
              NearerTo (ringKey 0x78) c.1 c'.1) ∧
        ∀ m ∈ (tightRing ⟨1⟩).leafset.members, m.key = ringKey 0x78 →
          (tightRing ⟨1⟩).leafset.routeLookup ringView (ringKey 0x78) = .found m.host :=
  ⟨tightRing_one_placed, lookup_agrees_with_span tightRing_one_placed (ringKey 0x78)⟩

end PeerRing.Overlay.Leafset
