import PeerRing.Overlay.Routing
import PeerRing.Proofs.Key.Prefix
import Mathlib.Data.List.Nodup
/-! # Slots of the prefix table

A table is read through `get`: rows, entries and hosts list the occupied slots in row order.
Writing a slot changes that slot alone; `add` writes at most the home slot of the offered host,
`remove` clears exactly the slots holding the removed record or a record with its key, and the
hosts of a table list no record twice exactly when no record occupies two slots.
-/
namespace PeerRing.Overlay.Table

/-- A table with one slot for every row and column, as `new` makes it. -/
def Sized (t : Table) : Prop := t.slots.size = rowCount * columnCount

/-- No record occupies two slots. -/
def Injective (t : Table) : Prop :=
  ∀ ⦃i j i' j' : Nat⦄ ⦃h : Host.Id⦄, t.get i j = some h → t.get i' j' = some h → i = i' ∧ j = j'

theorem sized_new (me : Host.Id) : (new me).Sized := by
  simp [Sized, new]

theorem sized_set {t : Table} (ht : t.Sized) (i j : Nat) (e : Option Host.Id) :
    (t.set i j e).Sized := by
  unfold set
  split
  · simpa [Sized] using ht
  · exact ht

@[simp] theorem me_set (t : Table) (i j : Nat) (e : Option Host.Id) : (t.set i j e).me = t.me := by
  unfold set
  split <;> rfl

@[simp] theorem get_new (me : Host.Id) (i j : Nat) : (new me).get i j = none := by
  unfold get new
  split
  · simp only [Array.getD_eq_getD_getElem?, Array.getElem?_replicate]
    split <;> rfl
  · rfl

theorem get_of_not_lt {t : Table} {i j : Nat} (h : ¬ (i < rowCount ∧ j < columnCount)) :
    t.get i j = none :=
  if_neg h

theorem lt_of_get_eq_some {t : Table} {i j : Nat} {h : Host.Id} (hg : t.get i j = some h) :
    i < rowCount ∧ j < columnCount := by
  by_contra hn
  rw [get_of_not_lt hn] at hg
  cases hg

theorem get_set {t : Table} (ht : t.Sized) {i j : Nat} (hi : i < rowCount) (hj : j < columnCount)
    (e : Option Host.Id) (i' j' : Nat) :
    (t.set i j e).get i' j' = if i' = i ∧ j' = j then e else t.get i' j' := by
  unfold Sized at ht
  unfold set
  rw [if_pos ⟨hi, hj⟩]
  by_cases hin : i' < rowCount ∧ j' < columnCount
  · unfold get
    simp only [if_pos hin, Array.getD_eq_getD_getElem?, Array.getElem?_setIfInBounds, ht]
    unfold rowCount columnCount at *
    by_cases hs : i' = i ∧ j' = j
    · obtain ⟨rfl, rfl⟩ := hs
      simp only [and_self, if_true]
      rw [if_pos (by omega)]
      rfl
    · rw [if_neg hs, if_neg (by omega)]
  · have hne : ¬ (i' = i ∧ j' = j) := fun hs => hin (hs.1 ▸ hs.2 ▸ ⟨hi, hj⟩)
    rw [if_neg hne, get_of_not_lt hin, get_of_not_lt hin]

theorem get_set_new {me h : Host.Id} {i j : Nat} (hi : i < rowCount) (hj : j < columnCount)
    (i' j' : Nat) :
    ((new me).set i j (some h)).get i' j' = if i' = i ∧ j' = j then some h else none := by
  rw [get_set (sized_new me) hi hj, get_new]

theorem mem_entries {t : Table} {e : (Nat × Nat) × Host.Id} :
    e ∈ t.entries ↔ t.get e.1.1 e.1.2 = some e.2 := by
  obtain ⟨⟨i, j⟩, h⟩ := e
  simp only [entries, List.mem_flatMap, List.mem_range, List.mem_filterMap, Option.map_eq_some_iff,
    Prod.mk.injEq]
  constructor
  · rintro ⟨i', -, j', -, h', hg, ⟨rfl, rfl⟩, rfl⟩
    exact hg
  · intro hg
    obtain ⟨hi, hj⟩ := lt_of_get_eq_some hg
    exact ⟨i, hi, j, hj, h, hg, ⟨rfl, rfl⟩, rfl⟩

theorem mem_hosts {t : Table} {h : Host.Id} : h ∈ t.hosts ↔ ∃ i j, t.get i j = some h := by
  simp only [hosts, List.mem_map, mem_entries]
  constructor
  · rintro ⟨⟨⟨i, j⟩, h'⟩, hg, rfl⟩
    exact ⟨i, j, hg⟩
  · rintro ⟨i, j, hg⟩
    exact ⟨⟨⟨i, j⟩, h⟩, hg, rfl⟩

theorem nodup_entries (t : Table) : t.entries.Nodup := by
  unfold entries
  rw [List.nodup_flatMap]
  constructor
  · intro i _
    apply List.Nodup.filterMap _ List.nodup_range
    intro j j' e he he'
    simp only [Option.mem_def, Option.map_eq_some_iff] at he he'
    obtain ⟨_, _, rfl⟩ := he
    obtain ⟨_, _, he⟩ := he'
    simp only [Prod.mk.injEq] at he
    exact he.1.2.symm
  · apply List.Pairwise.imp _ List.nodup_range
    intro i i' hne e he he'
    simp only [List.mem_filterMap, Option.map_eq_some_iff] at he he'
    obtain ⟨_, _, _, _, rfl⟩ := he
    obtain ⟨_, _, _, _, he⟩ := he'
    simp only [Prod.mk.injEq] at he
    exact hne he.1.1.symm

/-- The hosts of a table list no record twice exactly when no record occupies two slots. -/
theorem nodup_hosts_iff (t : Table) : t.hosts.Nodup ↔ t.Injective := by
  unfold hosts Injective
  rw [List.nodup_map_iff_inj_on (nodup_entries t)]
  constructor
  · intro hinj i j i' j' h hg hg'
    have he := hinj ⟨⟨i, j⟩, h⟩ (mem_entries.mpr hg) ⟨⟨i', j'⟩, h⟩ (mem_entries.mpr hg') rfl
    simp only [Prod.mk.injEq] at he
    exact he.1
  · rintro hinj ⟨⟨i, j⟩, h⟩ he ⟨⟨i', j'⟩, h'⟩ he' (rfl : h = h')
    have hg : t.get i j = some h := mem_entries.mp he
    have hg' : t.get i' j' = some h := mem_entries.mp he'
    obtain ⟨rfl, rfl⟩ := hinj hg hg'
    rfl

theorem Injective.mono {t t' : Table} (hinj : t.Injective)
    (hsub : ∀ i j x, t'.get i j = some x → t.get i j = some x) : t'.Injective :=
  fun _ _ _ _ _ hg hg' => hinj (hsub _ _ _ hg) (hsub _ _ _ hg')

section Home

variable {v : PeerView} {t : Table}

theorem slot_me (v : PeerView) (t : Table) : t.slot v (v.key t.me) = none := by
  simp [slot, Key.keyIndex_self, rowCount, Key.digits]

/-- Slots depend on the table only through its local record. -/
theorem slot_eq_of_me_eq {t' : Table} (hme : t.me = t'.me) (k : Key) :
    t.slot v k = t'.slot v k := by
  unfold slot
  rw [hme]

theorem lt_of_slot_eq_some {k : Key} {i j : Nat} (hs : t.slot v k = some (i, j)) :
    i < rowCount ∧ j < columnCount := by
  unfold slot at hs
  dsimp only at hs
  split at hs
  · cases hs
    exact ⟨by assumption, Key.digit_lt _ _⟩
  · cases hs

theorem ne_me_of_slot_eq_some {k : Key} {p : Nat × Nat} (hs : t.slot v k = some p) :
    k ≠ v.key t.me := by
  rintro rfl
  rw [slot_me] at hs
  cases hs

end Home

section Add

variable {v : PeerView} {t : Table} {h : Host.Id}

/-- `add` either leaves the table as it is or writes the offered host into its home slot. -/
theorem add_cases (v : PeerView) (t : Table) (h : Host.Id) :
    t.add v h = (t, false) ∨
      ∃ i j, t.slot v (v.key h) = some (i, j) ∧ t.add v h = (t.set i j (some h), true) := by
  unfold add
  dsimp only
  split
  · exact Or.inl rfl
  next i j hs =>
    split
    · exact Or.inr ⟨i, j, hs, rfl⟩
    · split_ifs
      · exact Or.inl rfl
      · exact Or.inr ⟨i, j, hs, rfl⟩
      · exact Or.inl rfl

theorem sized_add (ht : t.Sized) : (t.add v h).1.Sized := by
  rcases add_cases v t h with he | ⟨i, j, -, he⟩ <;> rw [he]
  · exact ht
  · exact sized_set ht i j _

@[simp] theorem me_add : (t.add v h).1.me = t.me := by
  rcases add_cases v t h with he | ⟨i, j, -, he⟩ <;> rw [he]
  exact me_set t i j _

theorem slot_add (k : Key) : (t.add v h).1.slot v k = t.slot v k :=
  slot_eq_of_me_eq me_add k

/-- A slot holds after `add` what it held before, or the offered host in its home slot. -/
theorem get_add_eq_some (ht : t.Sized) {i j : Nat} {x : Host.Id}
    (hg : (t.add v h).1.get i j = some x) :
    t.get i j = some x ∨ (x = h ∧ t.slot v (v.key h) = some (i, j)) := by
  rcases add_cases v t h with he | ⟨i', j', hs, he⟩ <;> rw [he] at hg
  · exact Or.inl hg
  · obtain ⟨hi, hj⟩ := lt_of_slot_eq_some hs
    rw [get_set ht hi hj] at hg
    split_ifs at hg with hij
    · obtain ⟨rfl, rfl⟩ := hij
      exact Or.inr ⟨(Option.some.inj hg).symm, hs⟩
    · exact Or.inl hg

/-- `add` keeps every record in one slot when the offered host sits nowhere but in its home
slot. -/
theorem injective_add (ht : t.Sized) (hinj : t.Injective)
    (hhome : ∀ i j, t.get i j = some h → t.slot v (v.key h) = some (i, j)) :
    (t.add v h).1.Injective := by
  intro i j i' j' x hg hg'
  rcases get_add_eq_some ht hg with hg | ⟨rfl, hs⟩ <;>
    rcases get_add_eq_some ht hg' with hg' | ⟨hx', hs'⟩
  · exact hinj hg hg'
  · rw [hhome i j (hx' ▸ hg)] at hs'
    cases hs'
    exact ⟨rfl, rfl⟩
  · rw [hhome i' j' hg'] at hs
    cases hs
    exact ⟨rfl, rfl⟩
  · rw [hs] at hs'
    cases hs'
    exact ⟨rfl, rfl⟩

theorem get_add_ne_me (ht : t.Sized) (hme : ∀ i j, t.get i j ≠ some t.me) (i j : Nat) :
    (t.add v h).1.get i j ≠ some (t.add v h).1.me := by
  rw [me_add]
  intro hg
  rcases get_add_eq_some ht hg with hg | ⟨rfl, hs⟩
  · exact hme i j hg
  · exact ne_me_of_slot_eq_some hs rfl

/-- Every entry after offering a list of hosts was an entry before or is one of the hosts. -/
theorem get_foldl_add_eq_some (hs : List Host.Id) {t : Table} (ht : t.Sized) {i j : Nat}
    {x : Host.Id} (hg : (hs.foldl (fun t h => (t.add v h).1) t).get i j = some x) :
    t.get i j = some x ∨ x ∈ hs := by
  induction hs generalizing t with
  | nil => exact Or.inl hg
  | cons h hs ih =>
    rcases ih (sized_add ht) hg with hg | hx
    · rcases get_add_eq_some ht hg with hg | ⟨rfl, -⟩
      · exact Or.inl hg
      · exact Or.inr List.mem_cons_self
    · exact Or.inr (List.mem_cons_of_mem _ hx)

/-- Offering fresh hosts one after another keeps every record in one slot and the local host
out; each entry afterwards was there before or is one of the offered hosts. -/
theorem foldl_add (hs : List Host.Id) (hnodup : hs.Nodup) (t : Table) (ht : t.Sized)
    (hinj : t.Injective) (hme : ∀ i j, t.get i j ≠ some t.me)
    (hfresh : ∀ h ∈ hs, ∀ i j, t.get i j ≠ some h) :
    (hs.foldl (fun t h => (t.add v h).1) t).me = t.me ∧
      (hs.foldl (fun t h => (t.add v h).1) t).Sized ∧
      (hs.foldl (fun t h => (t.add v h).1) t).Injective ∧
      (∀ i j, (hs.foldl (fun t h => (t.add v h).1) t).get i j ≠ some t.me) ∧
      ∀ i j x, (hs.foldl (fun t h => (t.add v h).1) t).get i j = some x →
        t.get i j = some x ∨ x ∈ hs := by
  induction hs generalizing t with
  | nil => exact ⟨rfl, ht, hinj, hme, fun i j x hg => Or.inl hg⟩
  | cons h hs ih =>
    obtain ⟨hh, hnodup⟩ := List.nodup_cons.mp hnodup
    have hinj' := injective_add (v := v) ht hinj fun i j hg =>
      absurd hg (hfresh h List.mem_cons_self i j)
    have hme' := get_add_ne_me (v := v) (h := h) ht hme
    rw [me_add] at hme'
    have hfresh' : ∀ h' ∈ hs, ∀ i j, (t.add v h).1.get i j ≠ some h' := by
      intro h' hh' i j hg
      rcases get_add_eq_some ht hg with hg | ⟨rfl, -⟩
      · exact hfresh h' (List.mem_cons_of_mem _ hh') i j hg
      · exact hh hh'
    obtain ⟨hme'', hsized, hinj'', hout, -⟩ := ih hnodup (t.add v h).1 (sized_add ht) hinj'
      (by rw [me_add]; exact hme') hfresh'
    rw [me_add] at hme'' hout
    exact ⟨hme'', hsized, hinj'', hout, fun i j x hg => get_foldl_add_eq_some (h :: hs) ht hg⟩

theorem get_keyUpdate_eq_some {me : Host.Id} {i j : Nat} {x : Host.Id}
    (hg : (t.keyUpdate v me).get i j = some x) : x ∈ t.hosts := by
  rcases get_foldl_add_eq_some t.hosts (sized_new me) hg with hg | hx
  · simp at hg
  · exact hx

/-- Rebuilding around a new local host keeps every record in one slot, leaves the new local
host out, and keeps only former entries. -/
theorem keyUpdate_spec (hinj : t.Injective) (me : Host.Id) :
    (t.keyUpdate v me).me = me ∧ (t.keyUpdate v me).Sized ∧ (t.keyUpdate v me).Injective ∧
      (∀ i j, (t.keyUpdate v me).get i j ≠ some me) ∧
      ∀ i j x, (t.keyUpdate v me).get i j = some x → x ∈ t.hosts := by
  obtain ⟨hme, hsized, hinj', hout, -⟩ := foldl_add (v := v) t.hosts
    ((nodup_hosts_iff t).mpr hinj) (new me) (sized_new me) (fun _ _ _ _ _ hg => by simp at hg)
    (fun i j => by simp) (fun _ _ i j => by simp)
  exact ⟨hme, hsized, hinj', hout, fun i j x hg => get_keyUpdate_eq_some hg⟩

theorem add_of_get_eq_none {i j : Nat} (hs : t.slot v (v.key h) = some (i, j))
    (hg : t.get i j = none) : t.add v h = (t.set i j (some h), true) := by
  unfold add
  dsimp only
  rw [hs]
  dsimp only
  rw [hg]

end Add

section Remove

variable {v : PeerView} {t : Table} {h : Host.Id}

/-- Clearing a list of slots empties exactly those slots. -/
theorem get_foldl_clear {t : Table} (ht : t.Sized) (es : List ((Nat × Nat) × Host.Id))
    (hes : ∀ e ∈ es, e.1.1 < rowCount ∧ e.1.2 < columnCount) (i j : Nat) :
    (es.foldl (fun t e => t.set e.1.1 e.1.2 none) t).get i j =
      if es.any (·.1 == (i, j)) then none else t.get i j := by
  induction es generalizing t with
  | nil => rfl
  | cons e es ih =>
    obtain ⟨hi, hj⟩ := hes e List.mem_cons_self
    rw [List.foldl_cons, ih (sized_set ht _ _ _) fun e' he' => hes e' (List.mem_cons_of_mem _ he'),
      get_set ht hi hj, List.any_cons]
    by_cases he : e.1 = (i, j)
    · simp [he]
    · have hne : ¬ (i = e.1.1 ∧ j = e.1.2) := by
        rintro ⟨rfl, rfl⟩
        exact he rfl
      have hb : (e.1 == (i, j)) = false := by simpa using he
      rw [hb, Bool.false_or, if_neg hne]

theorem sized_remove (ht : t.Sized) : (t.remove v h).1.Sized := by
  unfold remove
  simp only
  generalize t.entries.filter _ = es
  induction es generalizing t with
  | nil => exact ht
  | cons e es ih => exact ih (sized_set ht _ _ _)

@[simp] theorem me_remove : (t.remove v h).1.me = t.me := by
  unfold remove
  simp only
  generalize t.entries.filter _ = es
  induction es generalizing t with
  | nil => rfl
  | cons e es ih => simp [ih]

/-- `remove` clears the slots holding the record or a record with its key, and no other. -/
theorem get_remove (ht : t.Sized) (i j : Nat) :
    (t.remove v h).1.get i j =
      (t.get i j).filter fun x => !(x == h || v.key x == v.key h) := by
  unfold remove
  simp only
  rw [get_foldl_clear ht]
  · rcases hg : t.get i j with _ | x
    · simp
    · have hmem : ((i, j), x) ∈ t.entries := mem_entries.mpr hg
      by_cases hp : (x == h || v.key x == v.key h) = true
      · have hany : (t.entries.filter fun e => e.2 == h || v.key e.2 == v.key h).any
            (·.1 == (i, j)) = true :=
          List.any_eq_true.mpr ⟨((i, j), x), List.mem_filter.mpr ⟨hmem, hp⟩, by simp⟩
        simp [hany, Option.filter, hp]
      · have hany : (t.entries.filter fun e => e.2 == h || v.key e.2 == v.key h).any
            (·.1 == (i, j)) = false := by
          rw [List.any_eq_false]
          rintro ⟨⟨i', j'⟩, x'⟩ he hij
          obtain ⟨he, hp'⟩ := List.mem_filter.mp he
          simp only [beq_iff_eq, Prod.mk.injEq] at hij
          obtain ⟨rfl, rfl⟩ := hij
          have hx : x' = x := Option.some.inj ((mem_entries.mp he).symm.trans hg)
          exact hp (hx ▸ hp')
        simp [hany, Option.filter, hp]
  · intro e he
    exact lt_of_get_eq_some (mem_entries.mp (List.mem_filter.mp he).1)

theorem get_remove_eq_some (ht : t.Sized) {i j : Nat} {x : Host.Id}
    (hg : (t.remove v h).1.get i j = some x) :
    t.get i j = some x ∧ x ≠ h ∧ v.key x ≠ v.key h := by
  rw [get_remove ht] at hg
  obtain ⟨hg, hp⟩ := Option.filter_eq_some_iff.mp hg
  simp only [Bool.not_eq_true', Bool.or_eq_false_iff, beq_eq_false_iff_ne, ne_eq] at hp
  exact ⟨hg, hp⟩

theorem remove_of_get_eq_none (hnone : ∀ i j, t.get i j = none) : (t.remove v h).1 = t := by
  have hent : t.entries = [] := List.eq_nil_iff_forall_not_mem.mpr fun e he => by
    rw [mem_entries, hnone] at he
    cases he
  unfold remove
  dsimp only
  rw [hent]
  rfl

end Remove

section Stale

variable {v : PeerView} {t : Table} {h : Host.Id}

/-- A record that is not stale sits only in its home slot. -/
theorem slot_of_isStale_eq_false (hs : t.isStale v h = false) {i j : Nat}
    (hg : t.get i j = some h) : t.slot v (v.key h) = some (i, j) := by
  unfold isStale at hs
  have hnot := List.any_eq_false.mp hs ((i, j), h) (mem_entries.mpr hg)
  simpa using hnot

theorem isStale_eq_false_of_forall (hno : ∀ i j, t.get i j ≠ some h) : t.isStale v h = false := by
  unfold isStale
  rw [List.any_eq_false]
  rintro ⟨⟨i, j⟩, x⟩ he hx
  simp only [Bool.and_eq_true, beq_iff_eq] at hx
  exact hno i j (hx.1 ▸ mem_entries.mp he)

theorem isStale_remove_self (ht : t.Sized) : (t.remove v h).1.isStale v h = false :=
  isStale_eq_false_of_forall fun _ _ hg => (get_remove_eq_some ht hg).2.1 rfl

end Stale

section Lookup

variable {v : PeerView} {t : Table}

theorem hosts_eq_nil (hnone : ∀ i j, t.get i j = none) : t.hosts = [] :=
  List.eq_nil_iff_forall_not_mem.mpr fun h hh => by
    obtain ⟨i, j, hg⟩ := mem_hosts.mp hh
    rw [hnone] at hg
    cases hg

theorem hosts_eq_singleton {i j : Nat} {h : Host.Id}
    (hget : ∀ i' j', t.get i' j' = if i' = i ∧ j' = j then some h else none) : t.hosts = [h] := by
  have hmem : ∀ e, e ∈ t.entries ↔ e ∈ [((i, j), h)] := by
    rintro ⟨⟨i', j'⟩, h'⟩
    rw [mem_entries, hget, List.mem_singleton]
    dsimp only
    by_cases hs : i' = i ∧ j' = j
    · obtain ⟨rfl, rfl⟩ := hs
      simp [eq_comm]
    · rw [if_neg hs]
      simp only [reduceCtorEq, false_iff, Prod.mk.injEq]
      exact fun ⟨he, _⟩ => hs he
  have hperm := (List.perm_ext_iff_of_nodup (nodup_entries t) (List.nodup_singleton _)).mpr hmem
  rw [hosts, List.perm_singleton.mp hperm]
  rfl

/-- A table with no entries has no candidate for a key other than the local one. -/
theorem routeLookup_of_get_eq_none (hnone : ∀ i j, t.get i j = none) {k : Key}
    (hk : v.key t.me ≠ k) : t.routeLookup v k = .closest none := by
  have hi : (v.key t.me).keyIndex k < rowCount := Key.keyIndex_lt_of_ne hk
  have hrow : t.row ((v.key t.me).keyIndex k) = [] := by simp [row, hnone]
  unfold routeLookup
  dsimp only
  rw [if_neg (Nat.not_le.mpr hi), hrow, hosts_eq_nil hnone]
  rfl

end Lookup

end PeerRing.Overlay.Table
