import PeerRing.Proofs.Overlay.Delivery
/-! # Forwarding through the prefix table

A table is homed when every entry sits in its home slot. In a homed table, an entry sharing
more leading digits with a key `k` than the local key does can sit in one slot only: in the row
of the prefix the local key shares with `k`, and in the column of `k`'s next digit. So the
table's lookup is definite exactly when some entry anywhere improves on the local prefix; it
then answers the entry of that slot, which matches at least one more digit of `k`. Otherwise it
falls back to the entry nearest to `k` by ring distance, then by the smaller key, and a homed
table has only one such entry.
-/
namespace PeerRing.Overlay.Table

open Key

/-- Every entry of `t` sits in the home slot of its key. -/
def Homed (v : PeerView) (t : Table) : Prop :=
  ∀ ⦃i j : Nat⦄ ⦃h : Host.Id⦄, t.get i j = some h → t.slot v (v.key h) = some (i, j)

/-- `h` is the entry of `t` nearest to `k`: by ring distance, then by the smaller key. -/
def NearestEntry (v : PeerView) (t : Table) (k : Key) (h : Host.Id) : Prop :=
  h ∈ t.hosts ∧ ∀ e ∈ t.hosts,
    ((v.key h).ringDistance k).val < ((v.key e).ringDistance k).val ∨
      ((v.key h).ringDistance k).val = ((v.key e).ringDistance k).val ∧
        (v.key h).val ≤ (v.key e).val

variable {v : PeerView} {t : Table} {k : Key} {i j : Nat} {h : Host.Id}

theorem mem_row : h ∈ t.row i ↔ ∃ j, t.get i j = some h := by
  simp only [row, List.mem_filterMap, List.mem_range]
  constructor
  · rintro ⟨j, -, hg⟩
    exact ⟨j, hg⟩
  · rintro ⟨j, hg⟩
    exact ⟨j, (lt_of_get_eq_some hg).2, hg⟩

theorem mem_hosts_of_mem_row (hh : h ∈ t.row i) : h ∈ t.hosts :=
  let ⟨_, hg⟩ := mem_row.mp hh
  mem_hosts.mpr ⟨_, _, hg⟩

theorem slot_eq_some_iff {k : Key} :
    t.slot v k = some (i, j) ↔
      i < rowCount ∧ (v.key t.me).keyIndex k = i ∧ k.digit i = j := by
  unfold slot
  dsimp only
  split
  next hlt =>
    simp only [Option.some.injEq, Prod.mk.injEq]
    constructor
    · rintro ⟨rfl, rfl⟩
      exact ⟨hlt, rfl, rfl⟩
    · rintro ⟨-, rfl, rfl⟩
      exact ⟨rfl, rfl⟩
  next hge =>
    simp only [reduceCtorEq, false_iff, not_and]
    rintro hi rfl
    exact absurd hi hge

/-- An entry of a homed table shares exactly its row's length of prefix with the local key and
has its column's digit next. -/
theorem Homed.home (ht : t.Homed v) (hg : t.get i j = some h) :
    i < rowCount ∧ (v.key t.me).keyIndex (v.key h) = i ∧ (v.key h).digit i = j :=
  slot_eq_some_iff.mp (ht hg)

/-- A homed table holds a key under one record only. -/
theorem Homed.eq_of_key_eq (ht : t.Homed v) {h' : Host.Id} (hh : h ∈ t.hosts) (hh' : h' ∈ t.hosts)
    (hk : v.key h = v.key h') : h = h' := by
  obtain ⟨i, j, hg⟩ := mem_hosts.mp hh
  obtain ⟨i', j', hg'⟩ := mem_hosts.mp hh'
  have hslot := ht hg
  rw [hk, ht hg'] at hslot
  obtain ⟨rfl, rfl⟩ := Prod.mk.inj (Option.some.inj hslot)
  exact Option.some.inj (hg.symm.trans hg')

/-- An entry improving on the local prefix with `k` sits in the row of that prefix and in the
column of `k`'s next digit. -/
theorem Homed.slot_of_lt_keyIndex (ht : t.Homed v) (hg : t.get i j = some h)
    (hlt : (v.key t.me).keyIndex k < (v.key h).keyIndex k) :
    i = (v.key t.me).keyIndex k ∧ j = k.digit i := by
  obtain ⟨-, hi, hj⟩ := ht.home hg
  have hrow : i = (v.key t.me).keyIndex k := hi ▸ keyIndex_eq_of_lt_keyIndex hlt
  refine ⟨hrow, ?_⟩
  rw [← hj, hrow]
  exact digit_eq_of_lt_keyIndex hlt

/-- In the row of the local prefix with `k`, an entry improves on that prefix exactly when it
sits in the column of `k`'s next digit. -/
theorem Homed.lt_keyIndex_iff (ht : t.Homed v) (hg : t.get i j = some h)
    (hi : (v.key t.me).keyIndex k = i) : i < (v.key h).keyIndex k ↔ j = k.digit i := by
  obtain ⟨hrow, hhome, hj⟩ := ht.home hg
  have hle : i ≤ (v.key h).keyIndex k := by
    refine le_keyIndex_trans (b := v.key t.me) ?_ hi.ge
    rw [keyIndex_comm, hhome]
  rw [Key.lt_keyIndex_iff hrow hle, hj, eq_comm]

/-- Scanning the row of the local prefix with `k` for an entry that improves on it finds the
entry in the column of `k`'s next digit. -/
theorem Homed.find?_row (ht : t.Homed v) (hi : (v.key t.me).keyIndex k = i) :
    (t.row i).find? (fun h => decide ((v.key h).keyIndex k > i)) = t.get i (k.digit i) := by
  cases hg : t.get i (k.digit i) with
  | none =>
    rw [List.find?_eq_none]
    intro x hx hpx
    obtain ⟨j, hgx⟩ := mem_row.mp hx
    have hj := (ht.lt_keyIndex_iff hgx hi).mp (of_decide_eq_true hpx)
    rw [← hj, hgx] at hg
    cases hg
  | some h =>
    have hph : decide ((v.key h).keyIndex k > i) = true :=
      decide_eq_true ((ht.lt_keyIndex_iff hg hi).mpr rfl)
    cases hf : (t.row i).find? (fun h => decide ((v.key h).keyIndex k > i)) with
    | none =>
      rw [List.find?_eq_none] at hf
      exact absurd hph (hf h (mem_row.mpr ⟨_, hg⟩))
    | some x =>
      obtain ⟨j, hgx⟩ := mem_row.mp (List.mem_of_find?_eq_some hf)
      have hpx := List.find?_some hf
      have hj := (ht.lt_keyIndex_iff hgx hi).mp (by simpa using hpx)
      rw [← hj, hgx] at hg
      exact hg

/-- A homed table has one nearest entry. -/
theorem Homed.nearestEntry_unique (ht : t.Homed v) {h' : Host.Id} (hn : NearestEntry v t k h)
    (hn' : NearestEntry v t k h') : h = h' := by
  have hle := hn.2 h' hn'.1
  have hge := hn'.2 h hn.1
  refine ht.eq_of_key_eq hn.1 hn'.1 (ext_val ?_)
  omega

/-- An entry improving on the local prefix with `k` exists exactly when the slot in its row and
in the column of `k`'s next digit is taken. -/
theorem Homed.exists_lt_keyIndex_iff (ht : t.Homed v) :
    (∃ e ∈ t.hosts, (v.key t.me).keyIndex k < (v.key e).keyIndex k) ↔
      ∃ h, t.get ((v.key t.me).keyIndex k) (k.digit ((v.key t.me).keyIndex k)) = some h := by
  constructor
  · rintro ⟨e, he, hlt⟩
    obtain ⟨i, j, hg⟩ := mem_hosts.mp he
    obtain ⟨rfl, rfl⟩ := ht.slot_of_lt_keyIndex hg hlt
    exact ⟨e, hg⟩
  · rintro ⟨h, hg⟩
    exact ⟨h, mem_hosts.mpr ⟨_, _, hg⟩, (ht.lt_keyIndex_iff hg rfl).mpr rfl⟩

theorem Homed.routeLookup_of_get_some (ht : t.Homed v) (hk : k ≠ v.key t.me)
    (hg : t.get ((v.key t.me).keyIndex k) (k.digit ((v.key t.me).keyIndex k)) = some h) :
    t.routeLookup v k = .found h := by
  have hi : (v.key t.me).keyIndex k < rowCount := keyIndex_lt_of_ne (Ne.symm hk)
  unfold routeLookup
  dsimp only
  rw [if_neg (Nat.not_le.mpr hi), ht.find?_row rfl, hg]

/-- When no entry of the row of the local prefix improves on it, the lookup falls back to the
nearest entry, or to no candidate when the table is empty. -/
theorem routeLookup_of_find?_none (hk : k ≠ v.key t.me)
    (hrow : (t.row ((v.key t.me).keyIndex k)).find?
      (fun h => decide ((v.key h).keyIndex k > (v.key t.me).keyIndex k)) = none) :
    t.routeLookup v k = .closest none ∧ t.hosts = [] ∨
      ∃ h, t.routeLookup v k = .closest (some h) ∧ NearestEntry v t k h := by
  have hi : (v.key t.me).keyIndex k < rowCount := keyIndex_lt_of_ne (Ne.symm hk)
  unfold routeLookup
  dsimp only
  rw [if_neg (Nat.not_le.mpr hi), hrow]
  dsimp only
  split
  next c cs hcs =>
    -- the scan keeps an entry that no other entry ranks below
    obtain ⟨b, hb, hfb, hmin⟩ := Leafset.firstBest_min _ c cs
    rw [← hcs] at hb hmin
    obtain ⟨h, hh, rfl⟩ := List.mem_map.mp hb
    refine Or.inr ⟨h, by rw [hfb], hh, fun e he => ?_⟩
    have hlt := hmin _ (List.mem_map_of_mem he)
    rw [Bool.eq_false_iff, ne_eq, Leafset.rankLt_iff] at hlt
    dsimp only at hlt
    omega
  next hnil =>
    exact Or.inl ⟨rfl, List.map_eq_nil_iff.mp hnil⟩

/-- When no entry of the table improves on the local prefix, the lookup falls back to the nearest
entry, or to no candidate when the table is empty. -/
theorem routeLookup_of_forall_keyIndex_le (hk : k ≠ v.key t.me)
    (hno : ∀ e ∈ t.hosts, (v.key e).keyIndex k ≤ (v.key t.me).keyIndex k) :
    t.routeLookup v k = .closest none ∧ t.hosts = [] ∨
      ∃ h, t.routeLookup v k = .closest (some h) ∧ NearestEntry v t k h := by
  apply routeLookup_of_find?_none hk
  rw [List.find?_eq_none]
  intro e he hgt
  exact absurd (of_decide_eq_true hgt) (Nat.not_lt.mpr (hno e (mem_hosts_of_mem_row he)))

/-- With the slot for `k`'s next digit empty, the lookup falls back to the nearest entry, or to
no candidate when the table is empty. -/
theorem Homed.routeLookup_of_get_none (ht : t.Homed v) (hk : k ≠ v.key t.me)
    (hg : t.get ((v.key t.me).keyIndex k) (k.digit ((v.key t.me).keyIndex k)) = none) :
    t.routeLookup v k = .closest none ∧ t.hosts = [] ∨
      ∃ h, t.routeLookup v k = .closest (some h) ∧ NearestEntry v t k h :=
  routeLookup_of_find?_none hk (by rw [ht.find?_row rfl, hg])

theorem Homed.routeLookup_eq_found_iff (ht : t.Homed v) (hk : k ≠ v.key t.me) :
    t.routeLookup v k = .found h ↔
      t.get ((v.key t.me).keyIndex k) (k.digit ((v.key t.me).keyIndex k)) = some h := by
  cases hg : t.get ((v.key t.me).keyIndex k) (k.digit ((v.key t.me).keyIndex k)) with
  | some h' => simp [ht.routeLookup_of_get_some hk hg, eq_comm]
  | none =>
    rcases ht.routeLookup_of_get_none hk hg with ⟨hl, -⟩ | ⟨h', hl, -⟩ <;> simp [hl]

/-- Prefix routing is complete and makes progress. In a homed table, the lookup of a key other
than the local one is definite exactly when some entry anywhere shares more leading digits with
the key than the local key does; a definite answer is the entry in the row of the local prefix
and the column of the key's next digit, and it shares more digits with the key. Otherwise the
lookup answers the nearest entry, or no candidate when the table is empty. -/
theorem routeLookup_improves_prefix (ht : t.Homed v) (hk : k ≠ v.key t.me) :
    ((∃ h, t.routeLookup v k = .found h) ↔
        ∃ e ∈ t.hosts, (v.key t.me).keyIndex k < (v.key e).keyIndex k) ∧
      (∀ h, t.routeLookup v k = .found h →
        t.get ((v.key t.me).keyIndex k) (k.digit ((v.key t.me).keyIndex k)) = some h ∧
          (v.key t.me).keyIndex k < (v.key h).keyIndex k) ∧
      ((∀ e ∈ t.hosts, (v.key e).keyIndex k ≤ (v.key t.me).keyIndex k) →
        (t.routeLookup v k = .closest none ↔ t.hosts = []) ∧
          ∀ h, t.routeLookup v k = .closest (some h) ↔ NearestEntry v t k h) := by
  have hfound : ∀ h, t.routeLookup v k = .found h →
      t.get ((v.key t.me).keyIndex k) (k.digit ((v.key t.me).keyIndex k)) = some h ∧
        (v.key t.me).keyIndex k < (v.key h).keyIndex k := fun h hl => by
    have hg := (ht.routeLookup_eq_found_iff hk).mp hl
    exact ⟨hg, (ht.lt_keyIndex_iff hg rfl).mpr rfl⟩
  refine ⟨?_, hfound, fun hno => ?_⟩
  · rw [ht.exists_lt_keyIndex_iff]
    exact exists_congr fun h => ht.routeLookup_eq_found_iff hk
  · rcases routeLookup_of_forall_keyIndex_le hk hno with ⟨hl, hnil⟩ | ⟨h, hl, hn⟩
    · refine ⟨by simp [hl, hnil], fun h' => ?_⟩
      rw [hl]
      simp only [Lookup.closest.injEq, reduceCtorEq, false_iff]
      exact fun hn => by simpa [hnil] using hn.1
    · refine ⟨?_, fun h' => ?_⟩
      · rw [hl]
        simp only [Lookup.closest.injEq, reduceCtorEq, false_iff]
        exact List.ne_nil_of_mem hn.1
      · rw [hl, Lookup.closest.injEq, Option.some.injEq]
        exact ⟨fun he => he ▸ hn, ht.nearestEntry_unique hn⟩

/-- The table of the node at `0x08` of the three-node ring, holding the node at `0x78`. -/
theorem tightRing_zero_homed : Homed ringView (tightRing ⟨0⟩).table := by
  intro i j h hg
  rw [show (tightRing ⟨0⟩).table = (Table.new ⟨0⟩).set 0 7 (some ⟨2⟩) from rfl,
    get_set_new (by decide) (by decide)] at hg
  split at hg
  next hs =>
    obtain ⟨rfl, rfl⟩ := hs
    cases hg
    decide
  next => cases hg

theorem tightRing_zero_improves_prefix :
    Homed ringView (tightRing ⟨0⟩).table ∧ ringKey 0x7c ≠ ringView.key (tightRing ⟨0⟩).table.me ∧
      ((∃ h, (tightRing ⟨0⟩).table.routeLookup ringView (ringKey 0x7c) = .found h) ↔
          ∃ e ∈ (tightRing ⟨0⟩).table.hosts,
            (ringView.key (tightRing ⟨0⟩).table.me).keyIndex (ringKey 0x7c) <
              (ringView.key e).keyIndex (ringKey 0x7c)) ∧
        (∀ h, (tightRing ⟨0⟩).table.routeLookup ringView (ringKey 0x7c) = .found h →
          (tightRing ⟨0⟩).table.get ((ringView.key (tightRing ⟨0⟩).table.me).keyIndex (ringKey 0x7c))
              ((ringKey 0x7c).digit
                ((ringView.key (tightRing ⟨0⟩).table.me).keyIndex (ringKey 0x7c))) = some h ∧
            (ringView.key (tightRing ⟨0⟩).table.me).keyIndex (ringKey 0x7c) <
              (ringView.key h).keyIndex (ringKey 0x7c)) ∧
        ((∀ e ∈ (tightRing ⟨0⟩).table.hosts, (ringView.key e).keyIndex (ringKey 0x7c) ≤
            (ringView.key (tightRing ⟨0⟩).table.me).keyIndex (ringKey 0x7c)) →
          ((tightRing ⟨0⟩).table.routeLookup ringView (ringKey 0x7c) = .closest none ↔
              (tightRing ⟨0⟩).table.hosts = []) ∧
            ∀ h, (tightRing ⟨0⟩).table.routeLookup ringView (ringKey 0x7c) = .closest (some h) ↔
              NearestEntry ringView (tightRing ⟨0⟩).table (ringKey 0x7c) h) :=
  ⟨tightRing_zero_homed, by decide,
    routeLookup_improves_prefix tightRing_zero_homed (by decide)⟩

end PeerRing.Overlay.Table
