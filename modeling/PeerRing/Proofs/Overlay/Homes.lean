import PeerRing.Proofs.Overlay.Forwarding
import Mathlib
/-! # Home slots of the prefix table

While no record changes its key, every table reached from an empty one by `add`, `remove` and
`keyUpdate` keeps each entry in the home slot of its key relative to its local key: so no
entry has the local key, and no key or record sits in two slots.

On the home slot of the offered host, `add` acts as `offer`: an empty slot takes the host, and
an occupant gives way only to a host of another key with more recent successes. Rebuilding
around a new local record offers the former entries again in row order, and they have distinct
keys, so each slot that some former entry maps to ends with the first of those entries that has
the most recent successes.
-/
namespace PeerRing.Overlay.Table

open Key

variable {v : PeerView} {t : Table} {h : Host.Id}

section Homed

theorem homed_new (v : PeerView) (me : Host.Id) : (new me).Homed v := by
  intro i j x hg
  simp at hg

/-- Only the keys of the records decide whether entries are home. -/
theorem Homed.congr_view {v' : PeerView} (hk : v.key = v'.key) (hh : t.Homed v) : t.Homed v' := by
  intro i j x hg
  have hs := hh hg
  unfold slot at hs ⊢
  rwa [← hk]

theorem Homed.add (ht : t.Sized) (hh : t.Homed v) : (t.add v h).1.Homed v := by
  intro i j x hg
  rw [slot_add]
  rcases get_add_eq_some ht hg with hg | ⟨rfl, hs⟩
  · exact hh hg
  · exact hs

theorem Homed.remove (ht : t.Sized) (hh : t.Homed v) : (t.remove v h).1.Homed v := by
  intro i j x hg
  rw [slot_eq_of_me_eq me_remove]
  exact hh (get_remove_eq_some ht hg).1

theorem Homed.foldl_add (hs : List Host.Id) (ht : t.Sized) (hh : t.Homed v) :
    (hs.foldl (fun t h => (t.add v h).1) t).Homed v := by
  induction hs generalizing t with
  | nil => exact hh
  | cons h hs ih => exact ih (sized_add ht) (hh.add ht)

/-- A rebuilt table is homed around its new local record, whatever the former table held. -/
theorem homed_keyUpdate (t : Table) (me : Host.Id) : (t.keyUpdate v me).Homed v :=
  (homed_new v me).foldl_add t.hosts (sized_new me)

/-- Two entries of one key, or of one record, share their home slot. -/
theorem Homed.one_slot (hh : t.Homed v) {i j i' j' : Nat} {x x' : Host.Id}
    (hg : t.get i j = some x) (hg' : t.get i' j' = some x') (hx : v.key x = v.key x' ∨ x = x') :
    i = i' ∧ j = j' := by
  have hk : v.key x = v.key x' := hx.elim id fun he => he ▸ rfl
  have hs := hh hg
  rw [hk, hh hg'] at hs
  obtain ⟨rfl, rfl⟩ := Prod.mk.inj (Option.some.inj hs)
  exact ⟨rfl, rfl⟩

theorem Homed.injective (hh : t.Homed v) : t.Injective :=
  fun _ _ _ _ _ hg hg' => hh.one_slot hg hg' (Or.inr rfl)

theorem Homed.nodup_keys (hh : t.Homed v) : (t.hosts.map v.key).Nodup :=
  ((nodup_hosts_iff t).mpr hh.injective).map_on fun _ hx _ hy hk => hh.eq_of_key_eq hx hy hk

end Homed

section Offer

/-- What `add` leaves in the home slot of the offered host `h`, given what the slot held: `h`
in an empty slot, and `h` over an occupant of another key with fewer recent successes. -/
def offer (v : PeerView) (o : Option Host.Id) (h : Host.Id) : Option Host.Id :=
  o.elim (some h) fun cur =>
    if v.key cur = v.key h then some cur
    else if v.successes cur < v.successes h then some h else some cur

/-- `add` changes the home slot of the offered host as `offer` says, and no other slot. -/
theorem get_add (ht : t.Sized) (i j : Nat) :
    (t.add v h).1.get i j =
      if t.slot v (v.key h) = some (i, j) then offer v (t.get i j) h else t.get i j := by
  by_cases hs : t.slot v (v.key h) = some (i, j)
  · rw [if_pos hs]
    obtain ⟨hi, hj⟩ := lt_of_slot_eq_some hs
    unfold add
    simp only [hs]
    cases hg : t.get i j with
    | none => simp [offer, get_set ht hi hj]
    | some cur =>
      simp only [offer, Option.elim_some]
      split_ifs <;> simp [get_set ht hi hj, hg]
  · rw [if_neg hs]
    rcases add_cases v t h with he | ⟨i', j', hs', he⟩ <;> rw [he]
    obtain ⟨hi, hj⟩ := lt_of_slot_eq_some hs'
    rw [get_set ht hi hj, if_neg]
    rintro ⟨rfl, rfl⟩
    exact hs hs'

/-- Offering hosts one after another leaves in each slot the offers of the hosts whose home
slot it is, made in turn to what the slot held. -/
theorem get_foldl_add (hs : List Host.Id) (ht : t.Sized) (i j : Nat) :
    (hs.foldl (fun t h => (t.add v h).1) t).get i j =
      (hs.filter fun h => t.slot v (v.key h) == some (i, j)).foldl (offer v) (t.get i j) := by
  induction hs generalizing t with
  | nil => rfl
  | cons h hs ih =>
    rw [List.foldl_cons, ih (sized_add ht), get_add ht, List.filter_cons]
    simp only [slot_add]
    by_cases hij : t.slot v (v.key h) = some (i, j) <;> simp [hij]

/-- An occupant gives way only to a host of another key with more recent successes. -/
theorem add_replaces_only_better (ht : t.Sized) {i j : Nat} {cur : Host.Id}
    (hg : t.get i j = some cur) (hne : (t.add v h).1.get i j ≠ some cur) :
    (t.add v h).1.get i j = some h ∧ v.key cur ≠ v.key h ∧ v.successes cur < v.successes h := by
  rw [get_add ht] at hne ⊢
  split_ifs at hne ⊢
  · rw [hg] at hne ⊢
    simp only [offer, Option.elim_some] at hne ⊢
    split_ifs at hne ⊢ with hk hlt
    · exact absurd rfl hne
    · exact ⟨rfl, hk, hlt⟩
    · exact absurd rfl hne
  · exact absurd hg hne

/-- `w` is the first of `cs` with the most recent successes: every entry before it has fewer,
and none after it has more. -/
def FirstBest (v : PeerView) (cs : List Host.Id) (w : Host.Id) : Prop :=
  ∃ pre post, cs = pre ++ w :: post ∧ (∀ e ∈ pre, v.successes e < v.successes w) ∧
    ∀ e ∈ post, v.successes e ≤ v.successes w

/-- Offering hosts of distinct keys in turn to an empty slot leaves the first of them with the
most recent successes: a later host replaces the occupant only with strictly more. -/
theorem foldl_offer (cs : List Host.Id) (hk : (cs.map v.key).Nodup) (hne : cs ≠ []) :
    ∃ w, cs.foldl (offer v) none = some w ∧ FirstBest v cs w := by
  induction cs using List.reverseRecOn with
  | nil => exact absurd rfl hne
  | append_singleton cs x ih =>
    rw [List.foldl_append, List.foldl_cons, List.foldl_nil]
    rcases eq_or_ne cs [] with rfl | hcs
    · exact ⟨x, rfl, [], [], rfl, by simp, by simp⟩
    rw [List.map_append, List.nodup_append] at hk
    obtain ⟨w, hw, pre, post, rfl, hpre, hpost⟩ := ih hk.1 hcs
    have hkx : v.key w ≠ v.key x := hk.2.2 (v.key w) (by simp) (v.key x) (by simp)
    rw [hw]
    by_cases hlt : v.successes w < v.successes x
    · -- `x` has strictly more than every earlier host
      refine ⟨x, by simp [offer, hkx, hlt], pre ++ w :: post, [], by simp, ?_, by simp⟩
      intro e he
      rcases List.mem_append.mp he with he | he
      · exact (hpre e he).trans hlt
      · rcases List.mem_cons.mp he with rfl | he
        · exact hlt
        · exact Nat.lt_of_le_of_lt (hpost e he) hlt
    · refine ⟨w, by simp [offer, hkx, hlt], pre, post ++ [x], by simp, hpre, ?_⟩
      intro e he
      rcases List.mem_append.mp he with he | he
      · exact hpost e he
      · rw [List.mem_singleton.mp he]
        exact Nat.le_of_not_lt hlt

/-- Rebuilding a homed table around `me` leaves each slot that some former entry maps to, seen
from `me`, with the first such former entry in row order that has the most recent successes. -/
theorem Homed.keyUpdate_get (hh : t.Homed v) (me : Host.Id) {i j : Nat}
    (hocc : ∃ e ∈ t.hosts, (t.keyUpdate v me).slot v (v.key e) = some (i, j)) :
    ∃ w, (t.keyUpdate v me).get i j = some w ∧
      FirstBest v (t.hosts.filter fun e => (t.keyUpdate v me).slot v (v.key e) == some (i, j)) w := by
  have hslot : ∀ k, (t.keyUpdate v me).slot v k = (new me).slot v k :=
    slot_eq_of_me_eq (keyUpdate_spec hh.injective me).1
  simp only [hslot] at hocc ⊢
  obtain ⟨e, he, hs⟩ := hocc
  have hget : (t.keyUpdate v me).get i j =
      (t.hosts.filter fun e => (new me).slot v (v.key e) == some (i, j)).foldl (offer v) none := by
    rw [← get_new me i j]
    exact get_foldl_add t.hosts (sized_new me) i j
  rw [hget]
  exact foldl_offer _ (hh.nodup_keys.sublist (List.filter_sublist.map v.key))
    (List.ne_nil_of_mem (List.mem_filter.mpr ⟨he, by simp [hs]⟩))

end Offer

section Reachable

/-- The tables reached from an empty one by `add`, `remove` and `keyUpdate` while every record
keeps its key `key`; each call reads the recent successes of the records as they are then. -/
inductive Reachable (key : Host.Id → Key) : Table → Prop
  | new (me : Host.Id) : Reachable key (new me)
  | add {t : Table} (successes : Host.Id → Nat) (h : Host.Id) :
      Reachable key t → Reachable key (t.add ⟨key, successes⟩ h).1
  | remove {t : Table} (successes : Host.Id → Nat) (h : Host.Id) :
      Reachable key t → Reachable key (t.remove ⟨key, successes⟩ h).1
  | keyUpdate {t : Table} (successes : Host.Id → Nat) (me : Host.Id) :
      Reachable key t → Reachable key (t.keyUpdate ⟨key, successes⟩ me)

theorem Reachable.homed {key : Host.Id → Key} (hr : Reachable key t) :
    t.Sized ∧ ∀ successes, t.Homed ⟨key, successes⟩ := by
  induction hr with
  | new me => exact ⟨sized_new me, fun _ => homed_new _ me⟩
  | add s h _ ih =>
    exact ⟨sized_add ih.1, fun _ => ((ih.2 s).add ih.1).congr_view rfl⟩
  | remove s h _ ih =>
    exact ⟨sized_remove ih.1, fun _ => ((ih.2 s).remove ih.1).congr_view rfl⟩
  | keyUpdate s me _ ih =>
    exact ⟨(keyUpdate_spec (ih.2 s).injective me).2.1,
      fun _ => (homed_keyUpdate (v := ⟨key, s⟩) _ me).congr_view rfl⟩

/-- What a table keeps, read through `v`. Each entry sits in the home slot of its key: in the
row of the prefix its key shares with the local key, and in the column of its next digit; so no
entry has the local key, and no key or record sits in two slots. `add` puts a host over an
occupant only when their keys differ and the host has more recent successes. Rebuilding around
a new local record leaves each slot that some former entry maps to with the first such entry,
in row order, that has the most recent successes. -/
structure SlotRules (v : PeerView) (t : Table) : Prop where
  home : ∀ ⦃i j : Nat⦄ ⦃h : Host.Id⦄, t.get i j = some h →
    i < rowCount ∧ (v.key t.me).keyIndex (v.key h) = i ∧ (v.key h).digit i = j
  ne_me : ∀ ⦃i j : Nat⦄ ⦃h : Host.Id⦄, t.get i j = some h → v.key h ≠ v.key t.me
  one_slot : ∀ ⦃i j i' j' : Nat⦄ ⦃h h' : Host.Id⦄, t.get i j = some h → t.get i' j' = some h' →
    (v.key h = v.key h' ∨ h = h') → i = i' ∧ j = j'
  replace : ∀ (h : Host.Id) ⦃i j : Nat⦄ ⦃cur : Host.Id⦄, t.get i j = some cur →
    (t.add v h).1.get i j ≠ some cur →
      (t.add v h).1.get i j = some h ∧ v.key cur ≠ v.key h ∧ v.successes cur < v.successes h
  rebuild : ∀ (me : Host.Id) ⦃i j : Nat⦄,
    (∃ e ∈ t.hosts, (t.keyUpdate v me).slot v (v.key e) = some (i, j)) →
      ∃ w, (t.keyUpdate v me).get i j = some w ∧
        FirstBest v (t.hosts.filter fun e => (t.keyUpdate v me).slot v (v.key e) == some (i, j)) w

theorem Homed.slotRules (ht : t.Sized) (hh : t.Homed v) : SlotRules v t where
  home _ _ _ hg := hh.home hg
  ne_me _ _ _ hg := ne_me_of_slot_eq_some (hh hg)
  one_slot _ _ _ _ _ _ hg hg' hx := hh.one_slot hg hg' hx
  replace _ _ _ _ hg hne := add_replaces_only_better ht hg hne
  rebuild me _ _ hocc := hh.keyUpdate_get me hocc

/-- Every table reached while no record changes its key keeps the slot rules, whatever recent
successes each later call reads. -/
theorem reachable_slot_rules {key : Host.Id → Key} (hr : Reachable key t)
    (successes : Host.Id → Nat) : SlotRules ⟨key, successes⟩ t :=
  (hr.homed.2 successes).slotRules hr.homed.1

/-- Host `i` at the key whose first byte is `i`. -/
def byteKey (h : Host.Id) : Key := ofNat (h.idx * 2 ^ 152)

theorem two_entry_table_slot_rules :
    Reachable byteKey ((((new ⟨0xa1⟩).add ⟨byteKey, fun _ => 0⟩ ⟨0xb7⟩).1.add
        ⟨byteKey, fun _ => 0⟩ ⟨0xa9⟩).1) ∧
      SlotRules ⟨byteKey, fun h => h.idx⟩ ((((new ⟨0xa1⟩).add ⟨byteKey, fun _ => 0⟩ ⟨0xb7⟩).1.add
        ⟨byteKey, fun _ => 0⟩ ⟨0xa9⟩).1) :=
  have hr : Reachable byteKey ((((new ⟨0xa1⟩).add ⟨byteKey, fun _ => 0⟩ ⟨0xb7⟩).1.add
      ⟨byteKey, fun _ => 0⟩ ⟨0xa9⟩).1) := .add _ _ (.add _ _ (.new _))
  ⟨hr, reachable_slot_rules hr _⟩

end Reachable

end PeerRing.Overlay.Table
