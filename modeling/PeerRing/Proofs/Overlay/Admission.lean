import PeerRing.Proofs.Overlay.Sides
import Mathlib
/-! # Admission to the leafset

With the local key fixed, what `add` keeps on a side depends only on the keys offered: each
side holds the first `halfSize` of the distinct keys seen on that side, nearest first, so the
same hosts offered in any order leave the same keys. One offer is rejected exactly when its key
is the local one, already placed, or no nearer than every member of its full side, and it
pushes out exactly the farthest member of a full side.

On keys, inserting a member in order is `List.orderedInsert` by `SideLt`, and keeping the first
`halfSize` commutes with it; the kept keys of a side are then `nearestOnSide` of the keys seen.
-/
namespace PeerRing.Overlay.Leafset

open Key

/-- Strictly nearer to `me` along side `s`. -/
def SideLt (me : Key) (s : Side) (a b : Key) : Prop := sideDistance me a s < sideDistance me b s

instance (me : Key) (s : Side) : DecidableRel (SideLt me s) := fun a b =>
  inferInstanceAs (Decidable (sideDistance me a s < sideDistance me b s))

/-- The keys of `ks` on side `s` of `me`, other than `me`, each once, nearest first. -/
def sortedSide (me : Key) (s : Side) (ks : List Key) : List Key :=
  ((ks.filter fun k => k ≠ me ∧ (place me k).1 = s).dedup).insertionSort (SideLt me s)

/-- The `n` keys of `ks` nearest to `me` on side `s`. -/
def nearestOnSide (me : Key) (s : Side) (n : Nat) (ks : List Key) : List Key :=
  (sortedSide me s ks).take n

section Order

variable {me : Key} {s : Side}

theorem sideLt_iff {a b : Key} : SideLt me s a b ↔ sideVal me s a < sideVal me s b :=
  sideDistance_lt_iff

theorem SideLt.trans {a b c : Key} (hab : SideLt me s a b) (hbc : SideLt me s b c) :
    SideLt me s a c :=
  sideLt_iff.mpr (Nat.lt_trans (sideLt_iff.mp hab) (sideLt_iff.mp hbc))

theorem SideLt.asymm {a b : Key} (hab : SideLt me s a b) : ¬ SideLt me s b a :=
  fun hba => Nat.lt_asymm (sideLt_iff.mp hab) (sideLt_iff.mp hba)

theorem SideLt.lt_or_gt_of_ne {a b : Key} (h : a ≠ b) : SideLt me s a b ∨ SideLt me s b a := by
  have hne : sideVal me s a ≠ sideVal me s b := fun he => h (sideVal_inj he)
  exact (Nat.lt_or_gt_of_ne hne).imp sideLt_iff.mpr sideLt_iff.mpr

instance (me : Key) (s : Side) : Std.Irrefl (SideLt me s) :=
  ⟨fun _ h => Nat.lt_irrefl _ (sideLt_iff.mp h)⟩

instance (me : Key) (s : Side) : Std.Antisymm (SideLt me s) :=
  ⟨fun _ _ hab hba => absurd hba hab.asymm⟩

theorem pairwise_orderedInsert {k : Key} {l : List Key} (hl : l.Pairwise (SideLt me s))
    (hk : k ∉ l) : (l.orderedInsert (SideLt me s) k).Pairwise (SideLt me s) := by
  induction l with
  | nil => exact List.pairwise_singleton _ _
  | cons b l ih =>
    obtain ⟨hb, hrest⟩ := List.pairwise_cons.mp hl
    have hkb : k ≠ b := fun he => hk (he ▸ List.mem_cons_self)
    rw [List.orderedInsert_cons]
    split
    next hlt =>
      refine List.Pairwise.cons (fun c hc => ?_) hl
      rcases List.mem_cons.mp hc with rfl | hc
      · exact hlt
      · exact hlt.trans (hb c hc)
    next hge =>
      have hbk : SideLt me s b k := (SideLt.lt_or_gt_of_ne hkb).resolve_left hge
      refine List.Pairwise.cons (fun c hc => ?_) (ih hrest fun hm => hk (List.mem_cons_of_mem _ hm))
      rcases List.mem_cons.mp ((List.perm_orderedInsert _ k l).mem_iff.mp hc) with rfl | hc
      · exact hbk
      · exact hb c hc

theorem mem_sortedSide {ks : List Key} {x : Key} :
    x ∈ sortedSide me s ks ↔ x ∈ ks ∧ x ≠ me ∧ (place me x).1 = s := by
  simp [sortedSide, List.mem_insertionSort, List.mem_dedup, List.mem_filter]

theorem pairwise_insertionSort_sideLt {l : List Key} (hl : l.Nodup) :
    (l.insertionSort (SideLt me s)).Pairwise (SideLt me s) := by
  induction l with
  | nil => exact List.Pairwise.nil
  | cons a l ih =>
    obtain ⟨ha, hl⟩ := List.nodup_cons.mp hl
    rw [List.insertionSort_cons]
    exact pairwise_orderedInsert (ih hl) fun hm => ha ((List.perm_insertionSort _ l).mem_iff.mp hm)

theorem pairwise_sortedSide (ks : List Key) : (sortedSide me s ks).Pairwise (SideLt me s) :=
  pairwise_insertionSort_sideLt (List.nodup_dedup _)

/-- A list of keys in strict order along `s` is `sortedSide` of any list with the same keys on
that side. -/
theorem eq_sortedSide {l ks : List Key} (hl : l.Pairwise (SideLt me s))
    (hmem : ∀ x, x ∈ l ↔ x ∈ ks ∧ x ≠ me ∧ (place me x).1 = s) : l = sortedSide me s ks :=
  hl.eq_of_mem_iff (pairwise_sortedSide ks) fun x => (hmem x).trans mem_sortedSide.symm

end Order

section Take

variable {α : Type} (r : α → α → Prop) [DecidableRel r] (a : α)

/-- Keeping the first `n` before or after an ordered insertion keeps the same `n`. -/
theorem take_orderedInsert_take : ∀ (n : Nat) (l : List α),
    ((l.take n).orderedInsert r a).take n = (l.orderedInsert r a).take n
  | 0, _ => rfl
  | _ + 1, [] => rfl
  | n + 1, b :: l => by
    rw [List.take_succ_cons, List.orderedInsert_cons, List.orderedInsert_cons]
    split
    · rw [List.take_succ_cons, List.take_succ_cons]
      cases n with
      | zero => rfl
      | succ n =>
        rw [List.take_succ_cons, List.take_succ_cons, List.take_take,
          Nat.min_eq_left (Nat.le_succ n)]
    · rw [List.take_succ_cons, List.take_succ_cons, take_orderedInsert_take n l]

/-- An element that goes after the first `n` leaves them as they are. -/
theorem take_orderedInsert_of_forall : ∀ {n : Nat} {l : List α}, n ≤ l.length →
    (∀ b ∈ l.take n, ¬ r a b) → (l.orderedInsert r a).take n = l.take n
  | 0, _, _, _ => rfl
  | n + 1, [], hn, _ => absurd hn (Nat.not_succ_le_zero n)
  | n + 1, b :: l, hn, hb => by
    have hbs : ∀ c ∈ l.take n, ¬ r a c := fun c hc =>
      hb c (by rw [List.take_succ_cons]; exact List.mem_cons_of_mem b hc)
    rw [List.orderedInsert_cons, if_neg (hb b (by simp)), List.take_succ_cons,
      List.take_succ_cons, take_orderedInsert_of_forall (Nat.le_of_succ_le_succ hn) hbs]

end Take

section Keys

variable {v : PeerView} {ls : Leafset} {h : Host.Id} {me : Key} {s : Side}

/-- On keys, `insertNearer` is the ordered insertion by `SideLt`. -/
theorem map_key_insertNearer (x : Member) (ms : List Member) :
    (insertNearer me s x ms).map (·.key) = (ms.map (·.key)).orderedInsert (SideLt me s) x.key := by
  induction ms with
  | nil => rfl
  | cons m ms ih =>
    rw [List.map_cons, List.orderedInsert_cons]
    unfold insertNearer
    by_cases hlt : SideLt me s x.key m.key
    · have hlt' : sideDistance me x.key s < sideDistance me m.key s := hlt
      rw [if_pos hlt, if_pos hlt']
      rfl
    · have hlt' : ¬ sideDistance me x.key s < sideDistance me m.key s := hlt
      rw [if_neg hlt, if_neg hlt', List.map_cons, ih]

/-- The keys of a side after one offer: the offered key inserted in order and the first
`halfSize` kept, when it is new and on that side; the same keys otherwise. -/
theorem sideKeys_add (hp : Placed (v.key ls.me) ls) (s' : Side) :
    ((ls.add v h).1.sideMembers s').map (·.key) =
      if (place (v.key ls.me) (v.key h)).1 = s' ∧ v.key h ≠ v.key ls.me ∧
          ls.contains (v.key h) = false then
        (((ls.sideMembers s').map (·.key)).orderedInsert (SideLt (v.key ls.me) s')
          (v.key h)).take ls.halfSize
      else (ls.sideMembers s').map (·.key) := by
  set me := v.key ls.me
  set k := v.key h
  set s := (place me k).1
  set ms := ls.sideMembers s
  have hins := @map_key_insertNearer me s ⟨k, h⟩ ms
  have hlen : (ms.map (·.key)).length = ms.length := List.length_map _
  rcases add_cases v ls h (hp.length_le s) with ⟨he, hwhy⟩ | ⟨hk, hc, hlt, he⟩ |
      ⟨hk, hc, hfull, -, far, -, he⟩ <;> rw [he]
  · -- rejected: when the key is new on its side, the side is full and nearer throughout
    split
    next hcond =>
      obtain ⟨rfl, hk, hc⟩ := hcond
      rcases hwhy with hme | hc' | ⟨hfull, hnear⟩
      · exact absurd hme hk
      · rw [hc] at hc'
        exact Bool.noConfusion hc'
      · have htake : (ms.map (·.key)).take ls.halfSize = ms.map (·.key) :=
          List.take_of_length_le (by rw [hlen, hfull])
        rw [take_orderedInsert_of_forall _ _ (by rw [hlen, hfull]), htake]
        intro b hb hlt'
        rw [htake] at hb
        obtain ⟨m, hm, rfl⟩ := List.mem_map.mp hb
        exact hnear m hm hlt'
    next => rfl
  · -- inserted: the side had room
    rw [sideMembers_setSide]
    by_cases hs : s = s'
    · subst hs
      rw [if_pos rfl, if_pos ⟨rfl, hk, hc⟩, hins, List.take_of_length_le]
      rw [List.orderedInsert_length, hlen]
      exact hlt
    · rw [if_neg (Ne.symm hs), if_neg fun hcond => hs hcond.1]
  · -- displaced: the side was full and the farthest key drops off
    rw [sideMembers_setSide]
    by_cases hs : s = s'
    · subst hs
      rw [if_pos rfl, if_pos ⟨rfl, hk, hc⟩, List.map_dropLast, hins, List.dropLast_eq_take,
        List.orderedInsert_length, hlen, hfull, Nat.add_sub_cancel]
    · rw [if_neg (Ne.symm hs), if_neg fun hcond => hs hcond.1]

end Keys

section Seen

variable {me : Key} {s : Side} {ks : List Key} {k : Key}

theorem sortedSide_append_of_seen (hk : k ∈ ks ∨ k = me ∨ (place me k).1 ≠ s) :
    sortedSide me s (ks ++ [k]) = sortedSide me s ks := by
  refine (eq_sortedSide (pairwise_sortedSide ks) fun x => ?_).symm
  rw [mem_sortedSide, List.mem_append, List.mem_singleton]
  constructor
  · rintro ⟨hx, hme, hs⟩
    exact ⟨Or.inl hx, hme, hs⟩
  · rintro ⟨hx | rfl, hme, hs⟩
    · exact ⟨hx, hme, hs⟩
    · rcases hk with hk | hk | hk
      · exact ⟨hk, hme, hs⟩
      · exact absurd hk hme
      · exact absurd hs hk

theorem sortedSide_append_of_new (hk : k ∉ sortedSide me s ks) (hme : k ≠ me)
    (hs : (place me k).1 = s) :
    sortedSide me s (ks ++ [k]) = (sortedSide me s ks).orderedInsert (SideLt me s) k := by
  refine (eq_sortedSide (pairwise_orderedInsert (pairwise_sortedSide ks) hk) fun x => ?_).symm
  rw [List.mem_orderedInsert, mem_sortedSide, List.mem_append, List.mem_singleton]
  by_cases hx : x = k
  · subst hx
    simp [hme, hs]
  · simp [hx]

theorem sortedSide_congr {ks' : List Key} (h : ∀ x, x ∈ ks ↔ x ∈ ks') :
    sortedSide me s ks = sortedSide me s ks' :=
  eq_sortedSide (pairwise_sortedSide ks) fun x => by rw [mem_sortedSide, h]

end Seen

section Fold

variable {v : PeerView}

/-- A leafset in order holds on each side the nearest keys among its own. -/
theorem sideKeys_eq_nearestOnSide {me : Key} {ls : Leafset} (hp : Placed me ls) (s : Side) :
    (ls.sideMembers s).map (·.key) = nearestOnSide me s ls.halfSize (ls.members.map (·.key)) := by
  have hsorted : ((ls.sideMembers s).map (·.key)).Pairwise (SideLt me s) :=
    List.pairwise_map.mpr ((hp.side s).sorted.imp sideLt_iff.mpr)
  have heq := @eq_sortedSide me s _ (ls.members.map (·.key)) hsorted fun x => by
    constructor
    · intro hx
      obtain ⟨m, hm, rfl⟩ := List.mem_map.mp hx
      exact ⟨List.mem_map_of_mem (mem_members.mpr ⟨s, hm⟩), (hp.side s).ne_me m hm,
        (hp.side s).on_side m hm⟩
    · rintro ⟨hx, -, hs⟩
      obtain ⟨m, hm, rfl⟩ := List.mem_map.mp hx
      obtain ⟨s', hm'⟩ := mem_members.mp hm
      rw [(hp.side s').on_side m hm'] at hs
      subst hs
      exact List.mem_map_of_mem hm'
  unfold nearestOnSide
  rw [← heq, List.take_of_length_le (by rw [List.length_map]; exact hp.length_le s)]

/-- One offer keeps each side at the nearest keys seen, the offered key now among them. -/
theorem sideKeys_add_nearest {ls : Leafset} {h : Host.Id} {ks : List Key}
    (hp : Placed (v.key ls.me) ls)
    (hkeys : ∀ s, (ls.sideMembers s).map (·.key) = nearestOnSide (v.key ls.me) s ls.halfSize ks)
    (s : Side) :
    ((ls.add v h).1.sideMembers s).map (·.key) =
      nearestOnSide (v.key ls.me) s ls.halfSize (ks ++ [v.key h]) := by
  set me := v.key ls.me
  set k := v.key h
  set L := ls.halfSize
  have hseen : ls.contains k = true → k ∈ ks := by
    intro hc
    obtain ⟨m, hm, hmk⟩ := List.any_eq_true.mp hc
    obtain ⟨s', hs'⟩ := mem_members.mp hm
    have hin : m.key ∈ nearestOnSide me s' L ks := hkeys s' ▸ List.mem_map_of_mem hs'
    have hmk : m.key = k := by simpa using hmk
    exact hmk ▸ (mem_sortedSide.mp (List.mem_of_mem_take hin)).1
  rw [sideKeys_add hp s, hkeys s]
  unfold nearestOnSide
  split
  next hcond =>
    obtain ⟨hside, hk, hc⟩ := hcond
    rw [take_orderedInsert_take]
    by_cases hS : k ∈ sortedSide me s ks
    · -- seen before and not kept: it goes after every kept key
      rw [sortedSide_append_of_seen (Or.inl (mem_sortedSide.mp hS).1)]
      have hout : k ∉ (sortedSide me s ks).take L := by
        intro hin
        rw [← nearestOnSide, ← hkeys s] at hin
        obtain ⟨m, hm, hmk⟩ := List.mem_map.mp hin
        exact contains_eq_false.mp hc m (mem_members.mpr ⟨s, hm⟩) hmk
      have hdrop : k ∈ (sortedSide me s ks).drop L := by
        rw [← List.take_append_drop L (sortedSide me s ks), List.mem_append] at hS
        exact hS.resolve_left hout
      have hsplit := List.pairwise_append.mp
        ((List.take_append_drop L (sortedSide me s ks)).symm ▸ pairwise_sortedSide ks)
      apply take_orderedInsert_of_forall
      · by_contra hlt
        rw [List.take_of_length_le (Nat.le_of_lt (Nat.lt_of_not_le hlt))] at hout
        exact hout hS
      · exact fun b hb hkb => (hsplit.2.2 b hb k hdrop).asymm hkb
    · rw [sortedSide_append_of_new hS hk hside]
  next hcond =>
    -- the local key, a placed key, or a key of the other side: nothing new on this side
    rw [sortedSide_append_of_seen]
    by_cases hside : (place me k).1 = s
    · by_cases hk : k = me
      · exact Or.inr (Or.inl hk)
      · have hc : ls.contains k = true := by
          cases hck : ls.contains k
          · exact absurd ⟨hside, hk, hck⟩ hcond
          · rfl
        exact Or.inl (hseen hc)
    · exact Or.inr (Or.inr hside)

/-- Offering hosts one after another keeps each side at the nearest keys seen. -/
theorem sideKeys_foldl_add (hs : List Host.Id) {ls : Leafset} {ks : List Key}
    (hp : Placed (v.key ls.me) ls)
    (hkeys : ∀ s, (ls.sideMembers s).map (·.key) = nearestOnSide (v.key ls.me) s ls.halfSize ks)
    (s : Side) :
    ((hs.foldl (fun ls h => (ls.add v h).1) ls).sideMembers s).map (·.key) =
      nearestOnSide (v.key ls.me) s ls.halfSize (ks ++ hs.map v.key) := by
  induction hs generalizing ls ks with
  | nil =>
    rw [List.foldl_nil, List.map_nil, List.append_nil]
    exact hkeys s
  | cons h hs ih =>
    have hp' : Placed (v.key (ls.add v h).1.me) (ls.add v h).1 := by
      rw [me_add]
      exact hp.add
    have hkeys' : ∀ s, ((ls.add v h).1.sideMembers s).map (·.key) =
        nearestOnSide (v.key (ls.add v h).1.me) s (ls.add v h).1.halfSize (ks ++ [v.key h]) := by
      intro s
      rw [me_add, halfSize_add]
      exact sideKeys_add_nearest hp hkeys s
    rw [List.foldl_cons, ih hp' hkeys', me_add, halfSize_add, List.map_cons, List.append_assoc,
      List.singleton_append]

end Fold

section Answer

variable {v : PeerView} {ls : Leafset}

/-- On a side in order, a key nearer than some member is nearer than the farthest one. -/
theorem SideSorted.nearer_last_iff {me : Key} {s : Side} {ms : List Member} {far : Member}
    (hs : SideSorted me s ms) (hlast : ms.getLast? = some far) (k : Key) :
    (∃ m ∈ ms, sideDistance me k s < sideDistance me m.key s) ↔
      sideDistance me k s < sideDistance me far.key s := by
  have hsplit := List.dropLast_append_getLast? far hlast
  constructor
  · rintro ⟨m, hm, hlt⟩
    rw [← hsplit, List.mem_append, List.mem_singleton] at hm
    rcases hm with hm | rfl
    · have hsorted := hs.sorted
      rw [← hsplit, List.pairwise_append] at hsorted
      have hmf : sideVal me s m.key < sideVal me s far.key :=
        hsorted.2.2 m hm far (List.mem_singleton_self far)
      rw [lt_iff_val] at *
      exact Nat.lt_trans hlt hmf
    · exact hlt
  · exact fun hlt => ⟨far, List.mem_of_getLast? hlast, hlt⟩

/-- Dropping the last member of a side in order leaves no member with its key. -/
theorem key_ne_of_dropLast {me : Key} (hp : Placed me ls) {s : Side} {ms : List Member}
    {far : Member} (hs : SideSorted me s ms) (hlast : ms.getLast? = some far) :
    ∀ m ∈ (ls.setSide s ms.dropLast).members, m.key ≠ far.key := by
  intro m hm
  obtain ⟨s', hside⟩ := mem_members.mp hm
  rw [sideMembers_setSide] at hside
  split at hside
  next hs' =>
    subst hs'
    have hnodup := hs.nodup_keys
    rw [← List.dropLast_append_getLast? far hlast, List.map_append, List.nodup_append] at hnodup
    exact hnodup.2.2 _ (List.mem_map_of_mem hside) _ (List.mem_map_of_mem (List.mem_singleton_self _))
  next hs' =>
    intro he
    have hplace := (hp.side s').on_side m hside
    rw [he, hs.on_side far (List.mem_of_getLast? hlast)] at hplace
    exact hs' hplace.symm

/-- What one offer answers. It is rejected exactly when its key is the local one, already
placed, or no nearer than the farthest member of a full side. It displaces exactly when it is
taken into a full side, and the one displaced is the farthest member, whose key is then placed
no more. -/
theorem add_answer (hp : Placed (v.key ls.me) ls) (h : Host.Id) :
    let me := v.key ls.me
    let k := v.key h
    let s := (place me k).1
    let ms := ls.sideMembers s
    ((ls.add v h).2 = .rejected ↔ k = me ∨ ls.contains k = true ∨
        (ms.length = ls.halfSize ∧
          ∀ far, ms.getLast? = some far → ¬ sideDistance me k s < sideDistance me far.key s)) ∧
      (∀ x, (ls.add v h).2 = .displaced x ↔ (ls.add v h).2 ≠ .rejected ∧
        ms.length = ls.halfSize ∧ ms.getLast?.map (·.host) = some x) ∧
      ∀ far, ms.getLast? = some far → (ls.add v h).2 = .displaced far.host →
        ∀ m ∈ (ls.add v h).1.members, m.key ≠ far.key := by
  intro me k s ms
  rcases add_cases v ls h (hp.length_le s) with ⟨he, hwhy⟩ | ⟨hk, hc, hlt, he⟩ |
      ⟨hk, hc, hfull, hfar, far, hlast, he⟩ <;> rw [he]
  · refine ⟨⟨fun _ => ?_, fun _ => rfl⟩, fun x => ⟨fun hd => Admission.noConfusion hd,
      fun hd => absurd rfl hd.1⟩, fun far _ hd => Admission.noConfusion hd⟩
    rcases hwhy with hme | hc | ⟨hfull, hnot⟩
    · exact Or.inl hme
    · exact Or.inr (Or.inl hc)
    · exact Or.inr (Or.inr ⟨hfull, fun far hlast => hnot far (List.mem_of_getLast? hlast)⟩)
  · refine ⟨⟨fun hr => Admission.noConfusion hr, fun hwhy => absurd hwhy ?_⟩,
      fun x => ⟨fun hd => Admission.noConfusion hd, fun hd => absurd hd.2.1
        (Nat.ne_of_lt hlt)⟩, fun far _ hd => Admission.noConfusion hd⟩
    rintro (hme | hc' | ⟨hfull, -⟩)
    · exact hk hme
    · rw [hc] at hc'
      exact Bool.noConfusion hc'
    · exact Nat.ne_of_lt hlt hfull
  · refine ⟨⟨fun hr => Admission.noConfusion hr, fun hwhy => absurd hwhy ?_⟩,
      fun x => ⟨fun hd => ?_, fun hd => ?_⟩, fun far' hlast' _ m hm => ?_⟩
    · rintro (hme | hc' | ⟨-, hnot⟩)
      · exact hk hme
      · rw [hc] at hc'
        exact Bool.noConfusion hc'
      · exact hnot far hlast (((hp.side s).nearer_last_iff hlast k).mp hfar)
    · cases hd
      exact ⟨fun hr => Admission.noConfusion hr, hfull, by rw [hlast]; rfl⟩
    · have hx := hd.2.2
      rw [hlast, Option.map_some, Option.some.injEq] at hx
      rw [hx]
    obtain rfl : far' = far := Option.some.inj (hlast'.symm.trans hlast)
    have hsorted : SideSorted me s (insertNearer me s ⟨k, h⟩ ms) :=
      (hp.side s).insertNearer rfl hk fun m hm => contains_eq_false.mp hc m (mem_members.mpr ⟨s, hm⟩)
    exact key_ne_of_dropLast hp hsorted ((getLast?_insertNearer hfar).trans hlast) m hm

end Answer

section Nearest

variable {v : PeerView} {ls : Leafset}

/-- Offering hosts one after another to a leafset in order leaves on each side the nearest
`halfSize` keys on that side among the members and the offered keys, so every order of the same
offers leaves the same keys; each single offer answers as `add_answer` says. -/
theorem add_keeps_nearest (hp : Placed (v.key ls.me) ls) :
    (∀ (hs : List Host.Id) (s : Side),
      ((hs.foldl (fun ls h => (ls.add v h).1) ls).sideMembers s).map (·.key) =
        nearestOnSide (v.key ls.me) s ls.halfSize (ls.members.map (·.key) ++ hs.map v.key)) ∧
    (∀ hs hs' : List Host.Id, hs.Perm hs' → ∀ s,
      ((hs.foldl (fun ls h => (ls.add v h).1) ls).sideMembers s).map (·.key) =
        ((hs'.foldl (fun ls h => (ls.add v h).1) ls).sideMembers s).map (·.key)) ∧
    ∀ h : Host.Id,
      let me := v.key ls.me
      let k := v.key h
      let s := (place me k).1
      let ms := ls.sideMembers s
      ((ls.add v h).2 = .rejected ↔ k = me ∨ ls.contains k = true ∨
          (ms.length = ls.halfSize ∧
            ∀ far, ms.getLast? = some far → ¬ sideDistance me k s < sideDistance me far.key s)) ∧
        (∀ x, (ls.add v h).2 = .displaced x ↔ (ls.add v h).2 ≠ .rejected ∧
          ms.length = ls.halfSize ∧ ms.getLast?.map (·.host) = some x) ∧
        ∀ far, ms.getLast? = some far → (ls.add v h).2 = .displaced far.host →
          ∀ m ∈ (ls.add v h).1.members, m.key ≠ far.key := by
  have hfold := fun hs s => sideKeys_foldl_add (v := v) hs hp (sideKeys_eq_nearestOnSide hp) s
  refine ⟨hfold, fun hs hs' hperm s => ?_, add_answer hp⟩
  rw [hfold, hfold]
  exact congrArg (List.take _) (sortedSide_congr fun x => by
    rw [List.mem_append, List.mem_append, (hperm.map v.key).mem_iff])

theorem new_keeps_nearest :
    Placed (stepView.key (new ⟨0⟩ 1).me) (new ⟨0⟩ 1) ∧
    (∀ (hs : List Host.Id) (s : Side),
      ((hs.foldl (fun ls h => (ls.add stepView h).1) (new ⟨0⟩ 1)).sideMembers s).map (·.key) =
        nearestOnSide (stepView.key (new ⟨0⟩ 1).me) s (new ⟨0⟩ 1).halfSize
          ((new ⟨0⟩ 1).members.map (·.key) ++ hs.map stepView.key)) ∧
    (∀ hs hs' : List Host.Id, hs.Perm hs' → ∀ s,
      ((hs.foldl (fun ls h => (ls.add stepView h).1) (new ⟨0⟩ 1)).sideMembers s).map (·.key) =
        ((hs'.foldl (fun ls h => (ls.add stepView h).1) (new ⟨0⟩ 1)).sideMembers s).map (·.key)) ∧
    ∀ h : Host.Id,
      let me := stepView.key (new ⟨0⟩ 1).me
      let k := stepView.key h
      let s := (place me k).1
      let ms := (new ⟨0⟩ 1).sideMembers s
      (((new ⟨0⟩ 1).add stepView h).2 = .rejected ↔ k = me ∨ (new ⟨0⟩ 1).contains k = true ∨
          (ms.length = (new ⟨0⟩ 1).halfSize ∧
            ∀ far, ms.getLast? = some far → ¬ sideDistance me k s < sideDistance me far.key s)) ∧
        (∀ x, ((new ⟨0⟩ 1).add stepView h).2 = .displaced x ↔
          ((new ⟨0⟩ 1).add stepView h).2 ≠ .rejected ∧
          ms.length = (new ⟨0⟩ 1).halfSize ∧ ms.getLast?.map (·.host) = some x) ∧
        ∀ far, ms.getLast? = some far → ((new ⟨0⟩ 1).add stepView h).2 = .displaced far.host →
          ∀ m ∈ ((new ⟨0⟩ 1).add stepView h).1.members, m.key ≠ far.key :=
  have hp : Placed (stepView.key (new ⟨0⟩ 1).me) (new ⟨0⟩ 1) := placed_empty (new ⟨0⟩ 1) ⟨0⟩ _
  ⟨hp, add_keeps_nearest hp⟩

end Nearest

end PeerRing.Overlay.Leafset
