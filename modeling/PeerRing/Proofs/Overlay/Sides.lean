import PeerRing.Proofs.Key.Distance
import PeerRing.Overlay.Leafset
import Mathlib
/-! # Sides of the leafset

Each side of the leafset is kept nearest first by the distance from the local key along that
side, and every member lies on the side it is kept on. Offering a host whose key is neither the
local key nor a placed key inserts it into its side in that order and keeps the first
`halfSize` members; otherwise the leafset does not change. So `add` and `remove` keep the sides
in order, and the records of the leafset change only by the offered host and the member pushed
out.
-/
namespace PeerRing.Overlay.Leafset

open Key

/-- The distance of `k` from `me` along side `s`, as a number. -/
def sideVal (me : Key) (s : Side) (k : Key) : Nat := (sideDistance me k s).val

theorem sideDistance_lt_iff {me a b : Key} {s : Side} :
    sideDistance me a s < sideDistance me b s ↔ sideVal me s a < sideVal me s b :=
  lt_iff_val _ _

theorem place_eq (me k : Key) : place me k = ((place me k).1, sideDistance me k (place me k).1) := by
  unfold place
  split <;> rfl

theorem place_fst_eq_cw_iff {me k : Key} : (place me k).1 = .cw ↔ distance me k ≤ distance k me := by
  unfold place
  split
  next h => exact ⟨fun _ => h, fun _ => rfl⟩
  next h => exact ⟨fun he => Side.noConfusion he, fun hle => absurd hle h⟩

theorem place_fst_eq_ccw_iff {me k : Key} :
    (place me k).1 = .ccw ↔ ¬ distance me k ≤ distance k me := by
  rw [← place_fst_eq_cw_iff]
  cases (place me k).1 <;> simp

theorem sideVal_inj {me a b : Key} {s : Side} (h : sideVal me s a = sideVal me s b) : a = b := by
  have hd : sideDistance me a s = sideDistance me b s := ext_val h
  cases s
  · exact distance_left_cancel hd
  · exact distance_right_cancel hd

/-- A side as `add` keeps it: members on that side, none at the local key, strictly nearer
first. -/
structure SideSorted (me : Key) (s : Side) (ms : List Member) : Prop where
  on_side : ∀ m ∈ ms, (place me m.key).1 = s
  ne_me : ∀ m ∈ ms, m.key ≠ me
  sorted : ms.Pairwise fun a b => sideVal me s a.key < sideVal me s b.key

/-- Both sides kept in order around the key `me`, each within the half size. -/
structure Placed (me : Key) (ls : Leafset) : Prop where
  side : ∀ s, SideSorted me s (ls.sideMembers s)
  length_le : ∀ s, (ls.sideMembers s).length ≤ ls.halfSize

@[simp] theorem sideMembers_setSide (ls : Leafset) (s s' : Side) (ms : List Member) :
    (ls.setSide s ms).sideMembers s' = if s' = s then ms else ls.sideMembers s' := by
  cases s <;> cases s' <;> rfl

@[simp] theorem me_setSide (ls : Leafset) (s : Side) (ms : List Member) :
    (ls.setSide s ms).me = ls.me := by
  cases s <;> rfl

@[simp] theorem halfSize_setSide (ls : Leafset) (s : Side) (ms : List Member) :
    (ls.setSide s ms).halfSize = ls.halfSize := by
  cases s <;> rfl

theorem setSide_sideMembers (ls : Leafset) (s : Side) : ls.setSide s (ls.sideMembers s) = ls := by
  cases s <;> rfl

@[simp] theorem setSide_setSide (ls : Leafset) (s : Side) (ms ms' : List Member) :
    (ls.setSide s ms).setSide s ms' = ls.setSide s ms' := by
  cases s <;> rfl

/-- Replacing one side trades its members for the new ones. -/
theorem perm_members_setSide (ls : Leafset) (s : Side) (ms : List Member) :
    ((ls.setSide s ms).members ++ ls.sideMembers s).Perm (ms ++ ls.members) := by
  cases s
  · simpa [setSide, sideMembers, members] using List.perm_append_comm_assoc ls.ccw ms ls.cw
  · simpa [setSide, sideMembers, members, List.append_assoc] using
      List.Perm.append_left ms (@List.perm_append_comm _ ls.cw ls.ccw)

theorem mem_members_setSide {ls : Leafset} {s : Side} {ms : List Member} {m : Member}
    (hm : m ∈ (ls.setSide s ms).members) : m ∈ ms ∨ m ∈ ls.members :=
  List.mem_append.mp ((perm_members_setSide ls s ms).subset (List.mem_append_left _ hm))

theorem mem_members {ls : Leafset} {m : Member} : m ∈ ls.members ↔ ∃ s, m ∈ ls.sideMembers s := by
  constructor
  · intro hm
    rcases List.mem_append.mp hm with hm | hm
    · exact ⟨.ccw, hm⟩
    · exact ⟨.cw, hm⟩
  · rintro ⟨s, hm⟩
    cases s
    · exact List.mem_append_right _ hm
    · exact List.mem_append_left _ hm

theorem SideSorted.nodup_keys {me : Key} {s : Side} {ms : List Member} (hs : SideSorted me s ms) :
    (ms.map (·.key)).Nodup := by
  rw [List.Nodup, List.pairwise_map]
  refine hs.sorted.imp fun {a b} hlt he => ?_
  rw [he] at hlt
  exact Nat.lt_irrefl _ hlt

/-- Placed keys are distinct: within a side by the order, across sides by the side they lie on. -/
theorem Placed.nodup_keys {me : Key} {ls : Leafset} (hp : Placed me ls) :
    (ls.members.map (·.key)).Nodup := by
  rw [members, List.map_append, List.nodup_append]
  refine ⟨(hp.side .ccw).nodup_keys, (hp.side .cw).nodup_keys, ?_⟩
  intro a ha b hb hab
  obtain ⟨m, hm, rfl⟩ := List.mem_map.mp ha
  obtain ⟨m', hm', rfl⟩ := List.mem_map.mp hb
  have hccw := (hp.side .ccw).on_side m hm
  have hcw := (hp.side .cw).on_side m' hm'
  rw [hab, hcw] at hccw
  exact Side.noConfusion hccw

theorem contains_eq_false {ls : Leafset} {k : Key} :
    ls.contains k = false ↔ ∀ m ∈ ls.members, m.key ≠ k := by
  simp [contains]

section Insert

variable (me : Key) (s : Side) (x : Member)

/-- Inserts `x` before the first member farther from `me` along `s` than `x`. -/
def insertNearer : List Member → List Member
  | [] => [x]
  | m :: ms =>
    if sideDistance me x.key s < sideDistance me m.key s then x :: m :: ms
    else m :: insertNearer ms

variable {me s x}

theorem insertIdx_findIdx (ms : List Member) :
    ms.insertIdx ((ms.findIdx? fun m => sideDistance me x.key s < sideDistance me m.key s).getD
      ms.length) x = insertNearer me s x ms := by
  induction ms with
  | nil => rfl
  | cons m ms ih =>
    rw [List.findIdx?_cons]
    by_cases hlt : sideDistance me x.key s < sideDistance me m.key s
    · simp [hlt, insertNearer]
    · rcases hf : ms.findIdx? (fun m => sideDistance me x.key s < sideDistance me m.key s) with
        _ | i
      · rw [hf] at ih
        simp only [hlt, decide_false, hf, Option.map_none, Option.getD_none, List.length_cons,
          Bool.false_eq_true, if_false, insertNearer, List.insertIdx_succ_cons]
        exact congrArg _ ih
      · rw [hf] at ih
        simp only [hlt, decide_false, hf, Option.map_some, Option.getD_some, Bool.false_eq_true,
          if_false, insertNearer, List.insertIdx_succ_cons]
        exact congrArg _ ih

theorem perm_insertNearer (ms : List Member) : (insertNearer me s x ms).Perm (x :: ms) := by
  induction ms with
  | nil => rfl
  | cons m ms ih =>
    unfold insertNearer
    split
    · rfl
    · exact (ih.cons m).trans (List.Perm.swap x m ms)

theorem length_insertNearer (ms : List Member) : (insertNearer me s x ms).length = ms.length + 1 :=
  (perm_insertNearer ms).length_eq

/-- Inserted into a side in order, a key new to that side keeps the order. -/
theorem sorted_insertNearer {ms : List Member}
    (hs : ms.Pairwise fun a b => sideVal me s a.key < sideVal me s b.key)
    (hx : ∀ m ∈ ms, m.key ≠ x.key) :
    (insertNearer me s x ms).Pairwise fun a b => sideVal me s a.key < sideVal me s b.key := by
  induction ms with
  | nil => exact List.pairwise_singleton _ _
  | cons m ms ih =>
    obtain ⟨hm, hrest⟩ := List.pairwise_cons.mp hs
    unfold insertNearer
    split
    next hlt =>
      refine List.Pairwise.cons (fun b hb => ?_) hs
      rcases List.mem_cons.mp hb with rfl | hb
      · exact sideDistance_lt_iff.mp hlt
      · exact Nat.lt_trans (sideDistance_lt_iff.mp hlt) (hm b hb)
    next hge =>
      have hne : sideVal me s m.key ≠ sideVal me s x.key := fun he =>
        hx m List.mem_cons_self (sideVal_inj he)
      have hmx : sideVal me s m.key < sideVal me s x.key := by
        have : ¬ sideVal me s x.key < sideVal me s m.key := fun h => hge (sideDistance_lt_iff.mpr h)
        omega
      refine List.Pairwise.cons (fun b hb => ?_) (ih hrest fun b hb => hx b (List.mem_cons_of_mem _ hb))
      rcases List.mem_cons.mp ((perm_insertNearer ms).mem_iff.mp hb) with rfl | hb
      · exact hmx
      · exact hm b hb

/-- When some member is farther than `x`, the farthest member stays last. -/
theorem getLast?_insertNearer {ms : List Member}
    (hfar : ∃ m ∈ ms, sideDistance me x.key s < sideDistance me m.key s) :
    (insertNearer me s x ms).getLast? = ms.getLast? := by
  induction ms with
  | nil => simp at hfar
  | cons m ms ih =>
    unfold insertNearer
    split
    · simp [List.getLast?_cons]
    next hge =>
      obtain ⟨b, hb, hlt⟩ := hfar
      rcases List.mem_cons.mp hb with rfl | hb
      · exact absurd hlt hge
      · rw [List.getLast?_cons, List.getLast?_cons, ih ⟨b, hb, hlt⟩]

theorem insertNearer_of_forall {ms : List Member}
    (hnear : ∀ m ∈ ms, ¬ sideDistance me x.key s < sideDistance me m.key s) :
    insertNearer me s x ms = ms ++ [x] := by
  induction ms with
  | nil => rfl
  | cons m ms ih =>
    unfold insertNearer
    rw [if_neg (hnear m List.mem_cons_self), ih fun b hb => hnear b (List.mem_cons_of_mem _ hb)]
    rfl

end Insert

section Add

variable {v : PeerView} {ls : Leafset} {h : Host.Id}

/-- Everything `add` can do. The offered key goes to its side; it is rejected when it is the
local key or already placed, or when its side is full and no member is farther; otherwise it is
inserted in order, pushing out the farthest member when the side was full. -/
theorem add_cases (v : PeerView) (ls : Leafset) (h : Host.Id)
    (hlen : (ls.sideMembers (place (v.key ls.me) (v.key h)).1).length ≤ ls.halfSize) :
    let me := v.key ls.me
    let k := v.key h
    let s := (place me k).1
    let ms := ls.sideMembers s
    let ms' := insertNearer me s ⟨k, h⟩ ms
    (ls.add v h = (ls, .rejected) ∧
        (k = me ∨ ls.contains k = true ∨
          (ms.length = ls.halfSize ∧ ∀ m ∈ ms, ¬ sideDistance me k s < sideDistance me m.key s))) ∨
      (k ≠ me ∧ ls.contains k = false ∧ ms.length < ls.halfSize ∧
        ls.add v h = (ls.setSide s ms', .inserted)) ∨
      (k ≠ me ∧ ls.contains k = false ∧ ms.length = ls.halfSize ∧
        (∃ m ∈ ms, sideDistance me k s < sideDistance me m.key s) ∧
        ∃ far, ms.getLast? = some far ∧
          ls.add v h = (ls.setSide s ms'.dropLast, .displaced far.host)) := by
  intro me k s ms ms'
  replace hlen : ms.length ≤ ls.halfSize := hlen
  by_cases hrej : k = me ∨ ls.contains k = true
  · refine Or.inl ⟨if_pos hrej, ?_⟩
    rcases hrej with hr | hr
    · exact Or.inl hr
    · exact Or.inr (Or.inl hr)
  have hk : k ≠ me := fun he => hrej (Or.inl he)
  have hc : ls.contains k = false := by
    cases hck : ls.contains k
    · rfl
    · exact absurd (Or.inr hck) hrej
  have hadd : ls.add v h =
      if (ms.findIdx? fun m => sideDistance me k s < sideDistance me m.key s).getD ms.length ≥
          ls.halfSize then (ls, .rejected)
      else if ms'.length > ls.halfSize then
        ms'.getLast?.elim (ls.setSide s ms', .inserted)
          fun out => (ls.setSide s ms'.dropLast, .displaced out.host)
      else (ls.setSide s ms', .inserted) := by
    unfold add
    rw [if_neg hrej, place_eq me k]
    simp only [ms', ← insertIdx_findIdx]
    generalize (ms.insertIdx ((ms.findIdx? fun m => sideDistance me k s < sideDistance me m.key s).getD
      ms.length) ⟨k, h⟩).getLast? = o
    cases o <;> rfl
  have hlen' : ms'.length = ms.length + 1 := length_insertNearer ms
  rw [hadd]
  rcases hf : ms.findIdx? (fun m => sideDistance me k s < sideDistance me m.key s) with _ | i
  · -- no member is farther: `x` would go last
    have hnear : ∀ m ∈ ms, ¬ sideDistance me k s < sideDistance me m.key s := by
      intro m hm hlt
      have := List.findIdx?_eq_none_iff.mp hf m hm
      simp [hlt] at this
    rw [hf, Option.getD_none]
    by_cases hfull : ms.length = ls.halfSize
    · left
      rw [if_pos (Nat.le_of_eq hfull.symm)]
      exact ⟨rfl, Or.inr (Or.inr ⟨hfull, hnear⟩)⟩
    · have hlt : ms.length < ls.halfSize := Nat.lt_of_le_of_ne hlen hfull
      right; left
      rw [if_neg (Nat.not_le.mpr hlt), if_neg (by omega)]
      exact ⟨hk, hc, hlt, rfl⟩
  · -- the member at `i` is the first one farther than `x`
    obtain ⟨hi, hp, -⟩ := List.findIdx?_eq_some_iff_getElem.mp hf
    have hfar : ∃ m ∈ ms, sideDistance me k s < sideDistance me m.key s :=
      ⟨ms[i], List.getElem_mem hi, by simpa using hp⟩
    rw [hf, Option.getD_some]
    rw [if_neg (by omega)]
    by_cases hfull : ms.length = ls.halfSize
    · right; right
      have hne : ms ≠ [] := List.ne_nil_of_length_pos (by omega)
      obtain ⟨far, hfar'⟩ := Option.ne_none_iff_exists'.mp (mt List.getLast?_eq_none_iff.mp hne)
      rw [if_pos (by omega), getLast?_insertNearer hfar, hfar']
      exact ⟨hk, hc, hfull, hfar, far, rfl, rfl⟩
    · have hlt : ms.length < ls.halfSize := Nat.lt_of_le_of_ne hlen hfull
      right; left
      rw [if_neg (by omega)]
      exact ⟨hk, hc, hlt, rfl⟩

/-- `add` gives back the leafset or replaces one of its sides. -/
theorem add_fst_cases (v : PeerView) (ls : Leafset) (h : Host.Id) :
    (ls.add v h).1 = ls ∨ ∃ s ms, (ls.add v h).1 = ls.setSide s ms := by
  unfold add
  dsimp only
  split
  · exact Or.inl rfl
  · rcases place (v.key ls.me) (v.key h) with ⟨side, dist⟩
    dsimp only
    split
    · exact Or.inl rfl
    · split
      · split
        · exact Or.inr ⟨_, _, rfl⟩
        · exact Or.inr ⟨_, _, rfl⟩
      · exact Or.inr ⟨_, _, rfl⟩

@[simp] theorem me_add (v : PeerView) (ls : Leafset) (h : Host.Id) : (ls.add v h).1.me = ls.me := by
  rcases add_fst_cases v ls h with he | ⟨s, ms, he⟩ <;> rw [he]
  exact me_setSide ls s ms

@[simp] theorem halfSize_add (v : PeerView) (ls : Leafset) (h : Host.Id) :
    (ls.add v h).1.halfSize = ls.halfSize := by
  rcases add_fst_cases v ls h with he | ⟨s, ms, he⟩ <;> rw [he]
  exact halfSize_setSide ls s ms

theorem SideSorted.sublist {me : Key} {s : Side} {ms ms' : List Member} (hs : SideSorted me s ms)
    (hsub : ms'.Sublist ms) : SideSorted me s ms' where
  on_side m hm := hs.on_side m (hsub.subset hm)
  ne_me m hm := hs.ne_me m (hsub.subset hm)
  sorted := hs.sorted.sublist hsub

theorem SideSorted.insertNearer {me : Key} {s : Side} {ms : List Member} {x : Member}
    (hs : SideSorted me s ms) (hside : (place me x.key).1 = s) (hme : x.key ≠ me)
    (hx : ∀ m ∈ ms, m.key ≠ x.key) : SideSorted me s (insertNearer me s x ms) where
  on_side m hm := by
    rcases List.mem_cons.mp ((perm_insertNearer ms).mem_iff.mp hm) with rfl | hm
    · exact hside
    · exact hs.on_side m hm
  ne_me m hm := by
    rcases List.mem_cons.mp ((perm_insertNearer ms).mem_iff.mp hm) with rfl | hm
    · exact hme
    · exact hs.ne_me m hm
  sorted := sorted_insertNearer hs.sorted hx

theorem Placed.setSide {me : Key} {ls : Leafset} (hp : Placed me ls) {s : Side} {ms : List Member}
    (hs : SideSorted me s ms) (hlen : ms.length ≤ ls.halfSize) : Placed me (ls.setSide s ms) where
  side s' := by
    rw [sideMembers_setSide]
    split
    · subst s'
      exact hs
    · exact hp.side s'
  length_le s' := by
    rw [sideMembers_setSide, halfSize_setSide]
    split
    · exact hlen
    · exact hp.length_le s'

theorem Placed.add (hp : Placed (v.key ls.me) ls) : Placed (v.key ls.me) (ls.add v h).1 := by
  set me := v.key ls.me
  set s := (place me (v.key h)).1
  set ms' := insertNearer me s ⟨v.key h, h⟩ (ls.sideMembers s)
  have hsorted : ls.contains (v.key h) = false → v.key h ≠ me → SideSorted me s ms' :=
    fun hc hk => (hp.side s).insertNearer rfl hk fun m hm =>
      contains_eq_false.mp hc m (mem_members.mpr ⟨s, hm⟩)
  rcases add_cases v ls h (hp.length_le s) with ⟨he, -⟩ | ⟨hk, hc, hlt, he⟩ |
      ⟨hk, hc, hfull, -, far, -, he⟩ <;> rw [he]
  · exact hp
  · refine hp.setSide (hsorted hc hk) ?_
    rw [length_insertNearer]
    exact hlt
  · refine hp.setSide ((hsorted hc hk).sublist (List.dropLast_sublist ms')) ?_
    rw [List.length_dropLast, length_insertNearer]
    omega

end Add

section Members

variable {v : PeerView} {ls : Leafset} {h : Host.Id}

/-- What `add` does to the members: a rejected host leaves the leafset as it was, an inserted one
joins the members, and a displaced member makes room for it. -/
theorem add_members_cases (hlen : ∀ s, (ls.sideMembers s).length ≤ ls.halfSize) :
    ((ls.add v h).2 = .rejected ∧ (ls.add v h).1 = ls) ∨
      ((ls.add v h).2 = .inserted ∧
        (ls.add v h).1.members.Perm (⟨v.key h, h⟩ :: ls.members)) ∨
      (∃ far ∈ ls.members, (ls.add v h).2 = .displaced far.host ∧
        (far :: (ls.add v h).1.members).Perm (⟨v.key h, h⟩ :: ls.members)) := by
  set s := (place (v.key ls.me) (v.key h)).1
  set ms := ls.sideMembers s
  set ms' := insertNearer (v.key ls.me) s ⟨v.key h, h⟩ ms
  have hset := perm_members_setSide ls s
  have hins : (ms' ++ ls.members).Perm ((⟨v.key h, h⟩ :: ls.members) ++ ms) :=
    ((perm_insertNearer ms).append_right ls.members).trans (List.Perm.cons _ List.perm_append_comm)
  rcases add_cases v ls h (hlen s) with ⟨he, -⟩ | ⟨-, -, -, he⟩ |
      ⟨-, -, -, hfar, far, hlast, he⟩ <;> rw [he]
  · exact Or.inl ⟨rfl, rfl⟩
  · exact Or.inr (Or.inl ⟨rfl, (List.perm_append_right_iff ms).mp ((hset ms').trans hins)⟩)
  · refine Or.inr (Or.inr ⟨far, mem_members.mpr ⟨s, List.mem_of_getLast? hlast⟩, rfl, ?_⟩)
    -- the pushed-out member is the last of the side after insertion
    have hsplit : ms'.dropLast ++ [far] = ms' :=
      List.dropLast_append_getLast? far ((getLast?_insertNearer hfar).trans hlast)
    have hback : (far :: (ms'.dropLast ++ ls.members)).Perm (ms' ++ ls.members) :=
      calc (far :: (ms'.dropLast ++ ls.members)).Perm (ms'.dropLast ++ far :: ls.members) :=
            List.perm_middle.symm
        _ = ms' ++ ls.members := by rw [← List.singleton_append, ← List.append_assoc, hsplit]
    exact (List.perm_append_right_iff ms).mp (((hset ms'.dropLast).cons far).trans
      (hback.trans hins))

theorem mem_members_add (hlen : ∀ s, (ls.sideMembers s).length ≤ ls.halfSize) {m : Member}
    (hm : m ∈ (ls.add v h).1.members) : m = ⟨v.key h, h⟩ ∨ m ∈ ls.members := by
  rcases add_members_cases hlen with ⟨-, he⟩ | ⟨-, hp⟩ | ⟨far, -, -, hp⟩
  · rw [he] at hm
    exact Or.inr hm
  · exact List.mem_cons.mp (hp.subset hm)
  · exact List.mem_cons.mp (hp.subset (List.mem_cons_of_mem far hm))

/-- An inserted host is not the local one and was not placed before. -/
theorem add_fresh_of_ne_rejected (hlen : ∀ s, (ls.sideMembers s).length ≤ ls.halfSize)
    (hadm : (ls.add v h).2 ≠ .rejected) : v.key h ≠ v.key ls.me ∧ ls.contains (v.key h) = false := by
  rcases add_cases v ls h (hlen _) with ⟨he, -⟩ | ⟨hk, hc, -⟩ | ⟨hk, hc, -⟩
  · rw [he] at hadm
    exact absurd rfl hadm
  · exact ⟨hk, hc⟩
  · exact ⟨hk, hc⟩

/-- A key that is neither the local one nor placed, offered while its side has room, goes into
that side in order. -/
theorem add_eq_of_room (hk : v.key h ≠ v.key ls.me) (hc : ls.contains (v.key h) = false)
    (hroom : (ls.sideMembers (place (v.key ls.me) (v.key h)).1).length < ls.halfSize) :
    ls.add v h = (ls.setSide (place (v.key ls.me) (v.key h)).1
      (insertNearer (v.key ls.me) (place (v.key ls.me) (v.key h)).1 ⟨v.key h, h⟩
        (ls.sideMembers (place (v.key ls.me) (v.key h)).1)), .inserted) := by
  rcases add_cases v ls h hroom.le with ⟨-, hwhy⟩ | ⟨-, -, -, he⟩ | ⟨-, -, hfull, -⟩
  · -- each reason to reject is ruled out
    rcases hwhy with hk' | hc' | ⟨hfull, -⟩
    · exact absurd hk' hk
    · rw [hc] at hc'
      exact Bool.noConfusion hc'
    · exact absurd hfull (Nat.ne_of_lt hroom)
  · exact he
  · exact absurd hfull (Nat.ne_of_lt hroom)

theorem add_of_room (hlen : ∀ s, (ls.sideMembers s).length ≤ ls.halfSize)
    (hk : v.key h ≠ v.key ls.me) (hc : ls.contains (v.key h) = false)
    (hroom : (ls.sideMembers (place (v.key ls.me) (v.key h)).1).length < ls.halfSize) :
    (ls.add v h).2 = .inserted ∧ (ls.add v h).1.members.Perm (⟨v.key h, h⟩ :: ls.members) := by
  have hins : (ls.add v h).2 = .inserted := by rw [add_eq_of_room hk hc hroom]
  rcases add_members_cases (v := v) (h := h) hlen with ⟨hadm, -⟩ | ⟨-, hp⟩ | ⟨far, -, hadm, -⟩
  · rw [hins] at hadm
    exact Admission.noConfusion hadm
  · exact ⟨hins, hp⟩
  · rw [hins] at hadm
    exact Admission.noConfusion hadm

theorem mem_hosts_add (hlen : ∀ s, (ls.sideMembers s).length ≤ ls.halfSize) {x : Host.Id}
    (hx : x ∈ (ls.add v h).1.hosts) : x = h ∨ x ∈ ls.hosts := by
  obtain ⟨m, hm, rfl⟩ := List.mem_map.mp hx
  rcases mem_members_add hlen hm with rfl | hm
  · exact Or.inl rfl
  · exact Or.inr (List.mem_map_of_mem hm)

/-- Offering a record that is not a member keeps the records of the members distinct; a
displaced record was a member and is one no longer. -/
theorem nodup_hosts_add (hlen : ∀ s, (ls.sideMembers s).length ≤ ls.halfSize)
    (hnodup : ls.hosts.Nodup) (hnot : h ∉ ls.hosts) :
    (ls.add v h).1.hosts.Nodup ∧
      ∀ d, (ls.add v h).2 = .displaced d → d ∈ ls.hosts ∧ d ∉ (ls.add v h).1.hosts := by
  have hcons : (h :: ls.hosts).Nodup := List.nodup_cons.mpr ⟨hnot, hnodup⟩
  rcases add_members_cases (v := v) (h := h) hlen with ⟨hadm, he⟩ | ⟨hadm, hp⟩ |
      ⟨far, hfar, hadm, hp⟩
  · rw [he, hadm]
    exact ⟨hnodup, fun d hd => Admission.noConfusion hd⟩
  · rw [hadm]
    exact ⟨(hp.map Member.host).nodup_iff.mpr hcons, fun d hd => Admission.noConfusion hd⟩
  · have hn := List.nodup_cons.mp ((hp.map Member.host).nodup_iff.mpr hcons)
    refine ⟨hn.2, fun d hd => ?_⟩
    rw [hadm] at hd
    cases hd
    exact ⟨List.mem_map_of_mem hfar, hn.1⟩

end Members

section Remove

variable {v : PeerView} {ls : Leafset} {h : Host.Id}

theorem sideMembers_remove (s : Side) : (ls.remove v h).1.sideMembers s =
    (ls.sideMembers s).filter fun m => m.key != v.key h && m.host != h := by
  cases s <;> rfl

@[simp] theorem me_remove : (ls.remove v h).1.me = ls.me := rfl

@[simp] theorem halfSize_remove : (ls.remove v h).1.halfSize = ls.halfSize := rfl

theorem members_remove : (ls.remove v h).1.members =
    ls.members.filter fun m => m.key != v.key h && m.host != h := by
  simp only [members, List.filter_append]
  rfl

theorem hosts_remove_sublist : (ls.remove v h).1.hosts.Sublist ls.hosts :=
  (members_remove (v := v) (h := h) ▸ List.filter_sublist).map _

theorem isStale_remove : (ls.remove v h).1.isStale v h = false := by
  unfold isStale
  rw [List.any_eq_false, members_remove]
  intro m hm
  have hkeep := (List.mem_filter.mp hm).2
  simp only [Bool.and_eq_true, bne_iff_ne, ne_eq] at hkeep
  simp [hkeep.2]

/-- A record that is not stale and whose key is not placed is not a member. -/
theorem host_not_mem_of_fresh (hs : ls.isStale v h = false) (hc : ls.contains (v.key h) = false) :
    h ∉ ls.hosts := by
  intro hh
  obtain ⟨m, hm, rfl⟩ := List.mem_map.mp hh
  have hlive : m.key = v.key m.host := by
    have := List.any_eq_false.mp hs m hm
    simpa using this
  exact contains_eq_false.mp hc m hm hlive

theorem Placed.remove {me : Key} (hp : Placed me ls) : Placed me (ls.remove v h).1 where
  side s := by
    rw [sideMembers_remove]
    exact (hp.side s).sublist List.filter_sublist
  length_le s := by
    rw [sideMembers_remove, halfSize_remove]
    exact (List.filter_sublist.length_le).trans (hp.length_le s)

end Remove

section Rebuild

variable {v : PeerView}

/-- The records `keyUpdate` leaves out when it offers `h` again: the member pushed out, or `h`
itself when it is rejected. -/
def leftOut (h : Host.Id) : Admission → List Host.Id
  | .inserted => []
  | .displaced d => [d]
  | .rejected => [h]

theorem placed_empty (ls : Leafset) (me : Host.Id) (k : Key) :
    Placed k { ls with me, cw := [], ccw := [] } where
  side s := by
    cases s <;> exact ⟨fun _ hm => absurd hm List.not_mem_nil, fun _ hm => absurd hm List.not_mem_nil,
      List.Pairwise.nil⟩
  length_le s := by
    cases s <;> exact Nat.zero_le _

/-- One offer of `keyUpdate`: the leafset keeps its order and the records of its members, placed
under their current keys, trade places with the ones left out. -/
theorem rebuild_step {acc : Leafset × List Host.Id} (h : Host.Id) (hp : Placed (v.key acc.1.me) acc.1)
    (hlive : ∀ m ∈ acc.1.members, m.key = v.key m.host) :
    let r := ((acc.1.add v h).1, acc.2 ++ leftOut h (acc.1.add v h).2)
    Placed (v.key acc.1.me) r.1 ∧ (∀ m ∈ r.1.members, m.key = v.key m.host) ∧
      (r.1.hosts ++ r.2).Perm (acc.1.hosts ++ acc.2 ++ [h]) := by
  intro r
  refine ⟨hp.add, fun m hm => ?_, ?_⟩
  · rcases mem_members_add hp.length_le hm with rfl | hm
    · rfl
    · exact hlive m hm
  have hmove : ((h :: acc.1.hosts) ++ acc.2).Perm (acc.1.hosts ++ acc.2 ++ [h]) :=
    (List.perm_append_singleton h _).symm
  rcases add_members_cases (v := v) (h := h) hp.length_le with ⟨hadm, he⟩ | ⟨hadm, hp'⟩ |
      ⟨far, -, hadm, hp'⟩
  · simp only [r, hadm, he, leftOut, List.append_assoc]
    exact List.Perm.refl _
  · simp only [r, hadm, leftOut, List.append_nil]
    exact ((hp'.map Member.host).append_right _).trans hmove
  · simp only [r, hadm, leftOut]
    have hh : (far.host :: (acc.1.add v h).1.hosts).Perm (h :: acc.1.hosts) := hp'.map Member.host
    rw [← List.append_assoc]
    exact (List.perm_append_singleton _ _).trans ((hh.append_right acc.2).trans hmove)

/-- The fold of `keyUpdate`, for any step that offers each record as `rebuild_step` does. -/
theorem foldl_rebuild {F : Leafset × List Host.Id → Host.Id → Leafset × List Host.Id}
    (hF : ∀ acc h, F acc h = ((acc.1.add v h).1, acc.2 ++ leftOut h (acc.1.add v h).2))
    (hs : List Host.Id) (acc : Leafset × List Host.Id) (hp : Placed (v.key acc.1.me) acc.1)
    (hlive : ∀ m ∈ acc.1.members, m.key = v.key m.host) :
    let r := hs.foldl F acc
    r.1.me = acc.1.me ∧ r.1.halfSize = acc.1.halfSize ∧ Placed (v.key acc.1.me) r.1 ∧
      (∀ m ∈ r.1.members, m.key = v.key m.host) ∧
      (r.1.hosts ++ r.2).Perm (acc.1.hosts ++ acc.2 ++ hs) := by
  induction hs generalizing acc with
  | nil => exact ⟨rfl, rfl, hp, hlive, by simp⟩
  | cons h hs ih =>
    obtain ⟨hp', hlive', hperm⟩ := rebuild_step h hp hlive
    rw [← hF] at hp' hlive' hperm
    have hme : (F acc h).1.me = acc.1.me := by rw [hF, me_add]
    have hhalf : (F acc h).1.halfSize = acc.1.halfSize := by rw [hF, halfSize_add]
    rw [← hme] at hp'
    obtain ⟨hme', hhalf', hp'', hlive'', hperm'⟩ := ih (F acc h) hp' hlive'
    refine ⟨hme'.trans hme, hhalf'.trans hhalf, hme ▸ hp'' , hlive'', ?_⟩
    refine hperm'.trans ?_
    have := hperm.append_right hs
    simpa only [List.foldl_cons, List.append_assoc, List.singleton_append] using this

/-- `keyUpdate` folds `rebuild_step` over the former members. -/
theorem keyUpdate_eq_foldl (v : PeerView) :
    ∃ F : Leafset × List Host.Id → Host.Id → Leafset × List Host.Id,
      (∀ acc h, F acc h = ((acc.1.add v h).1, acc.2 ++ leftOut h (acc.1.add v h).2)) ∧
      ∀ (ls : Leafset) (me : Host.Id),
        ls.keyUpdate v me = ls.hosts.foldl F ({ ls with me, cw := [], ccw := [] }, []) := by
  refine ⟨_, ?_, fun ls me => rfl⟩
  intro acc h
  obtain ⟨ls, out⟩ := acc
  dsimp only
  rcases ls.add v h with ⟨ls', _ | _ | d⟩ <;> simp [leftOut]

/-- Rebuilding around a new local host keeps both sides in order around its key, places every
member under its current key, and keeps each former member or leaves it out, never both. -/
theorem keyUpdate_spec (v : PeerView) (ls : Leafset) (me : Host.Id) :
    (ls.keyUpdate v me).1.me = me ∧ (ls.keyUpdate v me).1.halfSize = ls.halfSize ∧
      Placed (v.key me) (ls.keyUpdate v me).1 ∧
      (∀ m ∈ (ls.keyUpdate v me).1.members, m.key = v.key m.host) ∧
      ((ls.keyUpdate v me).1.hosts ++ (ls.keyUpdate v me).2).Perm ls.hosts := by
  obtain ⟨F, hF, heq⟩ := keyUpdate_eq_foldl v
  rw [heq]
  obtain ⟨hme, hhalf, hp, hlive, hperm⟩ := foldl_rebuild hF ls.hosts
    ({ ls with me, cw := [], ccw := [] }, []) (placed_empty ls me (v.key me)) (by simp [members])
  exact ⟨hme, hhalf, hp, hlive, by simpa [hosts, members] using hperm⟩

/-- Offering, in order, members that lie on side `s` beyond every member there, each under its
current key and under no key placed yet, appends them to that side and leaves nothing out. -/
theorem foldl_rebuild_append {F : Leafset × List Host.Id → Host.Id → Leafset × List Host.Id}
    (hF : ∀ acc h, F acc h = ((acc.1.add v h).1, acc.2 ++ leftOut h (acc.1.add v h).2))
    {s : Side} (ms : List Member) (acc : Leafset × List Host.Id)
    (hsorted : SideSorted (v.key acc.1.me) s (acc.1.sideMembers s ++ ms))
    (hlen : (acc.1.sideMembers s ++ ms).length ≤ acc.1.halfSize)
    (hlive : ∀ m ∈ ms, m.key = v.key m.host)
    (hfresh : ∀ m ∈ ms, ∀ m' ∈ acc.1.members, m'.key ≠ m.key) :
    (ms.map (·.host)).foldl F acc = (acc.1.setSide s (acc.1.sideMembers s ++ ms), acc.2) := by
  induction ms generalizing acc with
  | nil => simp [setSide_sideMembers]
  | cons m ms ih =>
    obtain ⟨ls, out⟩ := acc
    dsimp only at hsorted hlen hfresh ⊢
    have hm : m ∈ ls.sideMembers s ++ m :: ms := List.mem_append_right _ List.mem_cons_self
    have hkey : v.key m.host = m.key := (hlive m List.mem_cons_self).symm
    have hside : (place (v.key ls.me) (v.key m.host)).1 = s := hkey ▸ hsorted.on_side m hm
    have hlt : (ls.sideMembers s).length < ls.halfSize := by
      simp only [List.length_append, List.length_cons] at hlen
      omega
    have hc : ls.contains (v.key m.host) = false :=
      contains_eq_false.mpr fun m' hm' => hkey ▸ hfresh m List.mem_cons_self m' hm'
    have hnear : ∀ m' ∈ ls.sideMembers s,
        ¬ sideDistance (v.key ls.me) m.key s < sideDistance (v.key ls.me) m'.key s :=
      fun m' hm' hlt' => Nat.lt_asymm (sideDistance_lt_iff.mp hlt')
        ((List.pairwise_append.mp hsorted.sorted).2.2 m' hm' m List.mem_cons_self)
    have hadd : ls.add v m.host = (ls.setSide s (ls.sideMembers s ++ [m]), .inserted) := by
      have hk : v.key m.host ≠ v.key ls.me := hkey ▸ hsorted.ne_me m hm
      rw [add_eq_of_room hk hc (by rw [hside]; exact hlt), hside, hkey, insertNearer_of_forall hnear]
    have hstep : F (ls, out) m.host = (ls.setSide s (ls.sideMembers s ++ [m]), out) := by
      rw [hF]
      simp [hadd, leftOut]
    rw [List.map_cons, List.foldl_cons, hstep, ih]
    · simp
    · simpa using hsorted
    · simpa using hlen
    · exact fun m' hm' => hlive m' (List.mem_cons_of_mem _ hm')
    · -- the members now are the former ones and `m`, placed nearer than the rest
      intro m₂ hm₂ m' hm'
      rcases mem_members_setSide hm' with hm' | hm'
      · rcases List.mem_append.mp hm' with hm' | hm'
        · exact hfresh m₂ (List.mem_cons_of_mem _ hm₂) m' (mem_members.mpr ⟨s, hm'⟩)
        · rw [List.mem_singleton.mp hm']
          have hrest := (List.pairwise_append.mp hsorted.sorted).2.1
          intro he
          exact Nat.lt_irrefl _ (he ▸ (List.pairwise_cons.mp hrest).1 m₂ hm₂)
      · exact hfresh m₂ (List.mem_cons_of_mem _ hm₂) m' hm'

/-- Rebuilding around a record with the local key, every member placed under its current key,
offers the counter-clockwise side and then the clockwise side nearest first: each member goes
back last on its side, so both sides come back as they were and nothing is left out. -/
theorem keyUpdate_of_same_key {ls : Leafset} (hp : Placed (v.key ls.me) ls) {me : Host.Id}
    (hme : v.key me = v.key ls.me) (hlive : ∀ m ∈ ls.members, m.key = v.key m.host) :
    (ls.keyUpdate v me).1.cw = ls.cw ∧ (ls.keyUpdate v me).1.ccw = ls.ccw ∧
      (ls.keyUpdate v me).2 = [] := by
  obtain ⟨F, hF, heq⟩ := keyUpdate_eq_foldl v
  have hhosts : ls.hosts = ls.ccw.map (·.host) ++ ls.cw.map (·.host) := by
    simp [hosts, members]
  have hccw : (ls.ccw.map (·.host)).foldl F ({ ls with me, cw := [], ccw := [] }, []) =
      ({ ls with me, cw := [], ccw := ls.ccw }, []) :=
    foldl_rebuild_append hF (s := .ccw) ls.ccw _ (by simpa [sideMembers, hme] using hp.side .ccw)
      (by simpa [sideMembers] using hp.length_le .ccw)
      (fun m hm => hlive m (List.mem_append_left _ hm)) (by simp [members])
  have hcw : (ls.cw.map (·.host)).foldl F ({ ls with me, cw := [], ccw := ls.ccw }, []) =
      ({ ls with me }, []) :=
    foldl_rebuild_append hF (s := .cw) ls.cw _ (by simpa [sideMembers, hme] using hp.side .cw)
      (by simpa [sideMembers] using hp.length_le .cw)
      (fun m hm => hlive m (List.mem_append_right _ hm))
      (by
        -- the counter-clockwise members lie on the other side, so under other keys
        intro m hm m' hm' he
        have hm' : m' ∈ ls.ccw := by simpa [members] using hm'
        have hside := (hp.side .ccw).on_side m' hm'
        rw [he, (hp.side .cw).on_side m hm] at hside
        exact Side.noConfusion hside)
  rw [heq, hhosts, List.foldl_append, hccw, hcw]
  exact ⟨rfl, rfl, rfl⟩

theorem keys_live_of_not_stale {ls : Leafset} (hs : ∀ m ∈ ls.members, ls.isStale v m.host = false) :
    ∀ m ∈ ls.members, m.key = v.key m.host := by
  intro m hm
  have hnot := List.any_eq_false.mp (hs m hm) m hm
  simpa using hnot

/-- Rebuilding the leafset around a new local record loses and duplicates no record: the
records it keeps and the records it leaves out are, counted with multiplicity, the former
members. The new sides are in order around the new local key, within the half size, each member
placed under its current key; and a rebuild around the same key with no stale member gives
back both sides and leaves nothing out. -/
theorem keyUpdate_accounts_for_members (v : PeerView) (ls : Leafset)
    (hp : Placed (v.key ls.me) ls) (me : Host.Id) :
    (ls.hosts : Multiset Host.Id) = (ls.keyUpdate v me).1.hosts + (ls.keyUpdate v me).2 ∧
      Placed (v.key me) (ls.keyUpdate v me).1 ∧ (ls.keyUpdate v me).1.halfSize = ls.halfSize ∧
      (∀ m ∈ (ls.keyUpdate v me).1.members, m.key = v.key m.host) ∧
      (v.key me = v.key ls.me → (∀ m ∈ ls.members, ls.isStale v m.host = false) →
        (ls.keyUpdate v me).1.cw = ls.cw ∧ (ls.keyUpdate v me).1.ccw = ls.ccw ∧
          (ls.keyUpdate v me).2 = []) := by
  obtain ⟨-, hhalf, hplaced, hlive, hperm⟩ := keyUpdate_spec v ls me
  refine ⟨?_, hplaced, hhalf, hlive, fun hme hs => keyUpdate_of_same_key hp hme
    (keys_live_of_not_stale hs)⟩
  rw [Multiset.coe_add, Multiset.coe_eq_coe]
  exact hperm.symm

/-- Host `i` at key `8 i`. -/
def stepView : PeerView := ⟨fun h => ofNat (8 * h.idx), fun _ => 0⟩

theorem rebuild_one_member_accounts :
    Placed (stepView.key ((new ⟨0⟩ 2).add stepView ⟨1⟩).1.me) ((new ⟨0⟩ 2).add stepView ⟨1⟩).1 ∧
      ((((new ⟨0⟩ 2).add stepView ⟨1⟩).1.hosts : Multiset Host.Id) =
          (((new ⟨0⟩ 2).add stepView ⟨1⟩).1.keyUpdate stepView ⟨2⟩).1.hosts +
            (((new ⟨0⟩ 2).add stepView ⟨1⟩).1.keyUpdate stepView ⟨2⟩).2 ∧
        Placed (stepView.key ⟨2⟩) (((new ⟨0⟩ 2).add stepView ⟨1⟩).1.keyUpdate stepView ⟨2⟩).1 ∧
        (((new ⟨0⟩ 2).add stepView ⟨1⟩).1.keyUpdate stepView ⟨2⟩).1.halfSize =
          ((new ⟨0⟩ 2).add stepView ⟨1⟩).1.halfSize ∧
        (∀ m ∈ (((new ⟨0⟩ 2).add stepView ⟨1⟩).1.keyUpdate stepView ⟨2⟩).1.members,
          m.key = stepView.key m.host) ∧
        (stepView.key ⟨2⟩ = stepView.key ((new ⟨0⟩ 2).add stepView ⟨1⟩).1.me →
          (∀ m ∈ ((new ⟨0⟩ 2).add stepView ⟨1⟩).1.members,
            ((new ⟨0⟩ 2).add stepView ⟨1⟩).1.isStale stepView m.host = false) →
          (((new ⟨0⟩ 2).add stepView ⟨1⟩).1.keyUpdate stepView ⟨2⟩).1.cw =
              ((new ⟨0⟩ 2).add stepView ⟨1⟩).1.cw ∧
            (((new ⟨0⟩ 2).add stepView ⟨1⟩).1.keyUpdate stepView ⟨2⟩).1.ccw =
              ((new ⟨0⟩ 2).add stepView ⟨1⟩).1.ccw ∧
            (((new ⟨0⟩ 2).add stepView ⟨1⟩).1.keyUpdate stepView ⟨2⟩).2 = [])) :=
  have hp : Placed (stepView.key ((new ⟨0⟩ 2).add stepView ⟨1⟩).1.me)
      ((new ⟨0⟩ 2).add stepView ⟨1⟩).1 := by
    rw [me_add]
    exact (placed_empty (new ⟨0⟩ 2) ⟨0⟩ _).add
  ⟨hp, keyUpdate_accounts_for_members stepView _ hp ⟨2⟩⟩

end Rebuild

end PeerRing.Overlay.Leafset
