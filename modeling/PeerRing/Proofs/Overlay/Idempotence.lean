import PeerRing.Proofs.Overlay.Invariant
import Mathlib
/-! # Offering a host twice

Once routing state has been offered a host, it is at rest for that host: the host sits nowhere
under a key it no longer has, and either its key is placed in the leafset, or the leafset turned
it down and the table has had its say. Offering or refreshing the host again then changes
nothing. This needs only the shape every routing state keeps whatever the keys of its records:
the table has all its slots and each leafset side is within the half size.

A host without a key is never offered at all; refreshing it changes nothing when no structure
holds it, and in a reachable state none does, since every record held there has a non-zero key.
-/
namespace PeerRing.Overlay

namespace Leafset

variable {v : PeerView} {ls : Leafset} {h g : Host.Id}

theorem length_le_add (hlen : ∀ s, (ls.sideMembers s).length ≤ ls.halfSize) (s : Side) :
    ((ls.add v h).1.sideMembers s).length ≤ (ls.add v h).1.halfSize := by
  rw [halfSize_add]
  rcases add_cases v ls h (hlen _) with ⟨he, -⟩ | ⟨-, -, hlt, he⟩ | ⟨-, -, hfull, -, far, -, he⟩ <;>
    rw [he]
  · exact hlen s
  · rw [sideMembers_setSide]
    split
    · rw [length_insertNearer]
      exact hlt
    · exact hlen s
  · rw [sideMembers_setSide]
    split
    · rw [List.length_dropLast, length_insertNearer]
      omega
    · exact hlen s

theorem contains_add (hlen : ∀ s, (ls.sideMembers s).length ≤ ls.halfSize)
    (hadm : (ls.add v h).2 ≠ .rejected) : (ls.add v h).1.contains (v.key h) = true := by
  have hc := (add_fresh_of_ne_rejected hlen hadm).2
  have hmem : (⟨v.key h, h⟩ : Member) ∈ (ls.add v h).1.members := by
    rcases add_members_cases (v := v) (h := h) hlen with ⟨hrej, -⟩ | ⟨-, hp⟩ | ⟨far, hfar, -, hp⟩
    · exact absurd hrej hadm
    · exact hp.symm.subset List.mem_cons_self
    · -- the member pushed out was placed before, so under another key
      have hne : (⟨v.key h, h⟩ : Member) ≠ far := fun he =>
        contains_eq_false.mp hc far hfar (by rw [← he])
      exact (List.mem_cons.mp (hp.symm.subset List.mem_cons_self)).resolve_left hne
  exact List.any_eq_true.mpr ⟨_, hmem, by simp⟩

theorem isStale_add (hlen : ∀ s, (ls.sideMembers s).length ≤ ls.halfSize)
    (hs : ls.isStale v h = false) : (ls.add v g).1.isStale v h = false := by
  unfold isStale at hs ⊢
  rw [List.any_eq_false] at hs ⊢
  intro m hm
  rcases mem_members_add hlen hm with rfl | hm
  · simp only [Bool.and_eq_true, beq_iff_eq, bne_iff_ne, ne_eq, not_and, not_not]
    rintro rfl
    rfl
  · exact hs m hm

end Leafset

namespace Table

variable {v : PeerView} {t : Table} {h g : Host.Id}

/-- A record is not stale when every slot holding it is its home slot. -/
theorem isStale_eq_false_of_home
    (hhome : ∀ i j, t.get i j = some h → t.slot v (v.key h) = some (i, j)) :
    t.isStale v h = false := by
  unfold isStale
  rw [List.any_eq_false]
  rintro ⟨⟨i, j⟩, x⟩ he hx
  simp only [Bool.and_eq_true, beq_iff_eq, bne_iff_ne, ne_eq] at hx
  obtain ⟨rfl, hne⟩ := hx
  exact hne (hhome i j (mem_entries.mp he))

theorem isStale_add (ht : t.Sized) (hs : t.isStale v h = false) :
    (t.add v g).1.isStale v h = false := by
  refine isStale_eq_false_of_home fun i j hg => ?_
  rw [slot_add]
  rcases get_add_eq_some ht hg with hg | ⟨rfl, hslot⟩
  · exact slot_of_isStale_eq_false hs hg
  · exact hslot

/-- Offering a host a second time changes nothing: its home slot holds it, or holds a record
it could not replace and still cannot. -/
theorem add_add (ht : t.Sized) : (t.add v h).1.add v h = ((t.add v h).1, false) := by
  rcases add_cases v t h with he | ⟨i, j, hs, he⟩ <;> rw [he]
  · exact he
  · obtain ⟨hi, hj⟩ := lt_of_slot_eq_some hs
    have hslot : (t.set i j (some h)).slot v (v.key h) = some (i, j) := by
      unfold slot
      rw [me_set]
      exact hs
    have hget : (t.set i j (some h)).get i j = some h := by
      rw [get_set ht hi hj, if_pos ⟨rfl, rfl⟩]
    unfold add
    simp [hslot, hget]

end Table

namespace Routing

variable {v : PeerView} {r : Routing} {h : Host.Id}

/-- The shape every routing state keeps whatever the keys of its records: the table has all
its slots and each leafset side is within the half size. -/
structure Shaped (r : Routing) : Prop where
  sized : r.table.Sized
  length_le : ∀ s, (r.leafset.sideMembers s).length ≤ r.leafset.halfSize

theorem Wellformed.shaped {L : Nat} (hw : Wellformed v L r) : r.Shaped :=
  ⟨hw.sized, hw.placed.length_le⟩

theorem Shaped.forgetStale (hs : r.Shaped) : (r.forgetStale v h).1.Shaped := by
  rcases forgetStale_cases v r h with ⟨he, -⟩ | he <;> rw [he]
  · exact hs
  · refine ⟨Table.sized_remove hs.sized, fun s => ?_⟩
    rw [Leafset.sideMembers_remove, Leafset.halfSize_remove]
    exact List.filter_sublist.length_le.trans (hs.length_le s)

theorem Shaped.insert (hs : r.Shaped) : (r.insert v h).1.Shaped := by
  rcases insert_cases v r h with he | ⟨-, ⟨-, he⟩ | ⟨-, he⟩ | ⟨d, -, he⟩⟩ <;> rw [he]
  · exact hs
  · exact ⟨Table.sized_add hs.sized, hs.length_le⟩
  · exact ⟨Table.sized_remove hs.sized, Leafset.length_le_add hs.length_le⟩
  · exact ⟨Table.sized_add (Table.sized_remove hs.sized), Leafset.length_le_add hs.length_le⟩

theorem Shaped.add (hs : r.Shaped) : (r.add v h).1.Shaped := by
  rw [add_fst]
  split
  · exact hs
  · exact hs.forgetStale.insert

theorem Shaped.refresh (hs : r.Shaped) : (r.refresh v h).1.Shaped := by
  rcases refresh_fst v r h with he | ⟨-, he⟩ <;> rw [he]
  · exact hs.forgetStale
  · exact hs.forgetStale.insert

theorem forgetStale_of_fresh (hf : Fresh v r h) : r.forgetStale v h = (r, false) := by
  simp [forgetStale, hf.1, hf.2]

theorem Fresh.insert (hs : r.Shaped) (hf : Fresh v r h) : Fresh v (r.insert v h).1 h := by
  rcases insert_cases v r h with he | ⟨-, ⟨-, he⟩ | ⟨-, he⟩ | ⟨d, -, he⟩⟩ <;> rw [he]
  · exact hf
  · exact ⟨hf.1, Table.isStale_add hs.sized hf.2⟩
  · exact ⟨Leafset.isStale_add hs.length_le hf.1, Table.isStale_remove_self hs.sized⟩
  · exact ⟨Leafset.isStale_add hs.length_le hf.1,
      Table.isStale_add (Table.sized_remove hs.sized) (Table.isStale_remove_self hs.sized)⟩

theorem Fresh.add (hs : r.Shaped) (hf : Fresh v r h) : Fresh v (r.add v h).1 h := by
  rw [add_fst]
  split
  · exact hf
  · rw [forgetStale_of_fresh hf]
    exact hf.insert hs

/-- Whether a record is stale reads only the keys of the records. -/
theorem fresh_congr {v' : PeerView} (hv : v.key = v'.key) : Fresh v r h ↔ Fresh v' r h := by
  obtain ⟨key, s⟩ := v
  obtain ⟨key', s'⟩ := v'
  cases hv
  exact Iff.rfl

theorem fresh_refresh (hs : r.Shaped) : Fresh v (r.refresh v h).1 h := by
  rcases refresh_fst v r h with he | ⟨-, he⟩ <;> rw [he]
  · exact fresh_forgetStale hs.sized
  · exact (fresh_forgetStale hs.sized).insert hs.forgetStale

/-- Refreshing a record that is not stale reports no move and changes nothing. -/
theorem refresh_eq_of_fresh (hf : Fresh v r h) : r.refresh v h = (r, false) := by
  unfold refresh
  rw [forgetStale_of_fresh hf]
  rfl

theorem refresh_of_fresh (hf : Fresh v r h) : (r.refresh v h).1 = r := by
  rw [refresh_eq_of_fresh hf]

theorem insert_of_contains (hc : r.leafset.contains (v.key h) = true) : r.insert v h = (r, false) := by
  unfold insert
  rw [if_pos hc]

theorem insert_of_rejected (hc : r.leafset.contains (v.key h) = false)
    (hrej : (r.leafset.add v h).2 = .rejected) :
    r.insert v h = ({ r with table := (r.table.add v h).1 }, (r.table.add v h).2) := by
  have hadd : r.leafset.add v h = ((r.leafset.add v h).1, .rejected) := by
    rw [← hrej]
  unfold insert
  rw [if_neg (by simp [hc]), hadd]

theorem leafset_insert_of_admitted (hc : r.leafset.contains (v.key h) = false)
    (hadm : (r.leafset.add v h).2 ≠ .rejected) :
    (r.insert v h).1.leafset = (r.leafset.add v h).1 := by
  unfold insert
  rw [if_neg (by simp [hc])]
  rcases hadd : r.leafset.add v h with ⟨ls, _ | _ | d⟩
  · rw [hadd] at hadm
    exact absurd rfl hadm
  · rfl
  · rfl

theorem insert_twice (hs : r.Shaped) : (r.insert v h).1.insert v h = ((r.insert v h).1, false) := by
  cases hc : r.leafset.contains (v.key h)
  case true => rw [insert_of_contains hc, insert_of_contains hc]
  case false =>
    by_cases hrej : (r.leafset.add v h).2 = .rejected
    · -- the same leafset turns it down again, and the table has had its say
      have hagain : ({ r with table := (r.table.add v h).1 }.insert v h) =
          ({ r with table := ((r.table.add v h).1.add v h).1 },
            ((r.table.add v h).1.add v h).2) :=
        insert_of_rejected hc hrej
      rw [insert_of_rejected hc hrej, hagain, Table.add_add hs.sized]
    · -- taken in: its key is placed now
      have hin : (r.insert v h).1.leafset.contains (v.key h) = true := by
        rw [leafset_insert_of_admitted hc hrej]
        exact Leafset.contains_add hs.length_le hrej
      rw [insert_of_contains hin]

/-- Offering a host that sits nowhere under a stale key is inserting it. -/
theorem add_of_fresh (hz : (v.key h).isZero = false) (hf : Fresh v r h) : r.add v h = r.insert v h := by
  unfold add
  rw [if_neg (by simp [hz]), forgetStale_of_fresh hf]
  simp

/-- Offering a host a second time, right after the first, reports no change and changes
nothing. -/
theorem add_twice (hs : r.Shaped) : (r.add v h).1.add v h = ((r.add v h).1, false) := by
  cases hz : (v.key h).isZero
  case true =>
    have hr : r.add v h = (r, false) := by simp [add, hz]
    rw [hr, hr]
  case false =>
    have hf := (fresh_forgetStale (v := v) (h := h) hs.sized).insert hs.forgetStale
    rw [add_fst, if_neg (by simp [hz]), add_of_fresh hz hf]
    exact insert_twice hs.forgetStale

theorem add_add (hs : r.Shaped) : ((r.add v h).1.add v h).1 = (r.add v h).1 := by
  rw [add_twice hs]

/-- Refreshing a record a second time, right after the first, changes nothing. -/
theorem refresh_refresh (hs : r.Shaped) : ((r.refresh v h).1.refresh v h).1 = (r.refresh v h).1 :=
  refresh_of_fresh (fresh_refresh hs)

section Keyed

open Key

variable {L : Nat}

/-- Every record the table holds has a non-zero key; `Wellformed` says the same of the leafset's
members. -/
def Keyed (v : PeerView) (r : Routing) : Prop :=
  ∀ ⦃i j : Nat⦄ ⦃x : Host.Id⦄, r.table.get i j = some x → v.key x ≠ zero

theorem keyed_new (v : PeerView) (me : Host.Id) (L : Nat) : Keyed v (Routing.new me L) := by
  intro i j x hg
  simp [Routing.new] at hg

theorem Keyed.forgetStale (ht : r.table.Sized) (hk : Keyed v r) : Keyed v (r.forgetStale v h).1 := by
  rcases forgetStale_cases v r h with ⟨he, -⟩ | he <;> rw [he]
  · exact hk
  · exact fun i j x hg => hk (Table.get_remove_eq_some ht hg).1

/-- The table takes a host with a non-zero key, or a member pushed out of the leafset. -/
theorem Keyed.insert (hw : Wellformed v L r) (hk : Keyed v r) (hz : v.key h ≠ zero) :
    Keyed v (r.insert v h).1 := by
  rcases insert_cases v r h with he | ⟨-, ⟨-, he⟩ | ⟨-, he⟩ | ⟨d, hadm, he⟩⟩ <;> rw [he]
  · exact hk
  · intro i j x hg
    rcases Table.get_add_eq_some hw.sized hg with hg | ⟨rfl, -⟩
    · exact hk hg
    · exact hz
  · exact fun i j x hg => hk (Table.get_remove_eq_some hw.sized hg).1
  · intro i j x hg
    rcases Table.get_add_eq_some (Table.sized_remove hw.sized) hg with hg | ⟨rfl, -⟩
    · exact hk (Table.get_remove_eq_some hw.sized hg).1
    · -- the member pushed out was placed, so its key is not zero
      rcases Leafset.add_members_cases (v := v) (h := h) hw.placed.length_le with ⟨hrej, -⟩ |
          ⟨hins, -⟩ | ⟨far, hfar, hdisp, -⟩
      · exact absurd (hadm.symm.trans hrej) (fun he => Admission.noConfusion he)
      · exact absurd (hadm.symm.trans hins) (fun he => Admission.noConfusion he)
      · rw [Admission.displaced.inj (hadm.symm.trans hdisp)]
        exact hw.live_ne_zero far hfar

theorem Keyed.add (hw : Wellformed v L r) (hk : Keyed v r) : Keyed v (r.add v h).1 := by
  rw [add_fst]
  split
  · exact hk
  next hz =>
    exact (hk.forgetStale hw.sized).insert hw.forgetStale
      (isZero_eq_false_iff.mp (by simpa using hz))

theorem Keyed.remove (ht : r.table.Sized) (hk : Keyed v r) : Keyed v (r.remove v h).1 :=
  fun _ _ _ hg => hk (Table.get_remove_eq_some ht hg).1

theorem Keyed.refresh (hw : Wellformed v L r) (hk : Keyed v r) : Keyed v (r.refresh v h).1 := by
  rcases refresh_fst v r h with he | ⟨hz, he⟩ <;> rw [he]
  · exact hk.forgetStale hw.sized
  · exact (hk.forgetStale hw.sized).insert hw.forgetStale (isZero_eq_false_iff.mp hz)

/-- The rebuilt table holds former entries and former members left out of the leafset, all
other than the new local record, whose keys did not change. -/
theorem Keyed.keyUpdate {v' : PeerView} (hw : Wellformed v L r) (hk : Keyed v r) (me : Host.Id)
    (hv : ∀ x, x ≠ me → v'.key x = v.key x) : Keyed v' (r.keyUpdate v' me) := by
  intro i j x hg
  have hme := (hw.keyUpdate me hv).me_table i j
  have hxme : x ≠ me := fun he => hme (he ▸ hg)
  rw [hv x hxme]
  rcases Table.get_foldl_add_eq_some _ (Table.keyUpdate_spec (v := v') hw.injective me).2.1 hg
    with hg | hx
  · obtain ⟨i', j', hg'⟩ := Table.mem_hosts.mp (Table.get_keyUpdate_eq_some hg)
    exact hk hg'
  · obtain ⟨m, hm, rfl⟩ := List.mem_map.mp
      ((Leafset.keyUpdate_spec v' r.leafset me).2.2.2.2.subset (List.mem_append_right _ hx))
    exact hw.live_ne_zero m hm

theorem Step.keyed {s s' : Host.Registry × Routing} (hs : Step s s')
    (hw : Wellformed (.ofRegistry s.1) L s.2) (hk : Keyed (.ofRegistry s.1) s.2) :
    Keyed (.ofRegistry s'.1) s'.2 := by
  cases hs with
  | add reg r h => exact hk.add hw
  | remove reg r h => exact hk.remove hw.sized
  | refresh reg r h => exact hk.refresh hw
  | keyUpdate reg r me k =>
    exact hk.keyUpdate hw me fun x hx => Host.Registry.key_setKey_of_ne reg k hx
  | setKey reg r h k hme hk' =>
    intro i j x hg
    show (reg.setKey h k).key x ≠ zero
    by_cases hxh : x = h
    · subst hxh
      rcases Host.Registry.key_setKey_self reg x k with he | he <;> rw [he]
      · exact hk'
      · exact hk hg
    · rw [Host.Registry.key_setKey_of_ne reg k hxh]
      exact hk hg
  | updateStat reg r h f =>
    intro i j x hg
    show (reg.modifyStats h f).key x ≠ zero
    rw [Host.Registry.key_modifyStats]
    exact hk hg

theorem Reachable.keyed {me : Host.Id} {s : Host.Registry × Routing} (hr : Reachable me L s) :
    Keyed (.ofRegistry s.1) s.2 := by
  induction hr with
  | init reg => exact keyed_new _ me L
  | step hr' hs ih => exact hs.keyed hr'.wellformed ih

/-- After one offer the host sits nowhere under a key it no longer has: a host without a key
is held nowhere, and any other was taken out and placed again. -/
theorem fresh_add (hw : Wellformed v L r) (hk : Keyed v r) : Fresh v (r.add v h).1 h := by
  rw [add_fst]
  split
  next hz =>
    have hzero : v.key h = zero := by
      by_contra hne
      rw [isZero_eq_false_iff.mpr hne] at hz
      cases hz
    refine ⟨?_, Table.isStale_eq_false_of_forall fun i j hg => hk hg hzero⟩
    unfold Leafset.isStale
    rw [List.any_eq_false]
    intro m hm hstale
    simp only [Bool.and_eq_true, beq_iff_eq] at hstale
    exact hw.live_ne_zero m hm (hstale.1 ▸ hzero)
  next => exact (fresh_forgetStale hw.sized).insert hw.shaped.forgetStale

/-- In every reachable routing state, offering a host a second time right after the first
reports no change and leaves the state as the first offer left it; refreshing the host then
reports no move and changes nothing either. -/
theorem second_offer_changes_nothing {me : Host.Id} {reg : Host.Registry}
    (hr : Reachable me L (reg, r)) (h : Host.Id) :
    (r.add (.ofRegistry reg) h).1.add (.ofRegistry reg) h = ((r.add (.ofRegistry reg) h).1, false) ∧
      (r.add (.ofRegistry reg) h).1.refresh (.ofRegistry reg) h =
        ((r.add (.ofRegistry reg) h).1, false) :=
  ⟨add_twice hr.wellformed.shaped, refresh_eq_of_fresh (fresh_add hr.wellformed hr.keyed)⟩

theorem second_offer_on_sample :
    Reachable ⟨0⟩ 1 (sampleRegistry, Routing.new ⟨0⟩ 1) ∧
      ((Routing.new ⟨0⟩ 1).add (.ofRegistry sampleRegistry) ⟨1⟩).1.add (.ofRegistry sampleRegistry)
          ⟨1⟩ = (((Routing.new ⟨0⟩ 1).add (.ofRegistry sampleRegistry) ⟨1⟩).1, false) ∧
      ((Routing.new ⟨0⟩ 1).add (.ofRegistry sampleRegistry) ⟨1⟩).1.refresh
          (.ofRegistry sampleRegistry) ⟨1⟩ =
        (((Routing.new ⟨0⟩ 1).add (.ofRegistry sampleRegistry) ⟨1⟩).1, false) :=
  ⟨.init _, second_offer_changes_nothing (.init _) ⟨1⟩⟩

end Keyed

end Routing

end PeerRing.Overlay
