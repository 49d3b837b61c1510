import PeerRing.Proofs.Overlay.Sides
import PeerRing.Proofs.Overlay.Slots
import PeerRing.Proofs.Host.Registry
import PeerRing.Overlay.Routing
import Mathlib
/-! # The routing state invariant

A routing state is reached from an empty one by the four routing operations and by the changes
to records that happen between them: another record gets a new non-zero key, any record's
statistics change, or a record becomes the local one with a new key and everything is rebuilt
around it. Every such state keeps both leafset sides in order around the local key, each within
the half size; places members under distinct non-zero keys other than the local key; holds each
record at most once across the leafset and the table; and never holds the local record.

The invariant that carries the proof, `Wellformed`, adds what the steps need: members are
placed under non-zero keys and their records still have non-zero keys, and the table has all
its slots.
-/
namespace PeerRing.Overlay.Routing

open Key Leafset

/-- The invariant of a routing state read through `v`, with half size `L`. -/
structure Wellformed (v : PeerView) (L : Nat) (r : Routing) : Prop where
  leafset_me : r.leafset.me = r.me
  table_me : r.table.me = r.me
  halfSize : r.leafset.halfSize = Nat.max L 1
  placed : Placed (v.key r.me) r.leafset
  placed_ne_zero : ∀ m ∈ r.leafset.members, m.key ≠ zero
  live_ne_zero : ∀ m ∈ r.leafset.members, v.key m.host ≠ zero
  hosts_nodup : r.leafset.hosts.Nodup
  sized : r.table.Sized
  injective : r.table.Injective
  disjoint : ∀ h ∈ r.leafset.hosts, ∀ i j, r.table.get i j ≠ some h
  me_leafset : r.me ∉ r.leafset.hosts
  me_table : ∀ i j, r.table.get i j ≠ some r.me

variable {v : PeerView} {L : Nat} {r : Routing} {h : Host.Id}

theorem wellformed_new (v : PeerView) (me : Host.Id) (L : Nat) :
    Wellformed v L (Routing.new me L) where
  leafset_me := rfl
  table_me := rfl
  halfSize := rfl
  placed := placed_empty (Leafset.new me L) me _
  placed_ne_zero _ hm := absurd hm List.not_mem_nil
  live_ne_zero _ hm := absurd hm List.not_mem_nil
  hosts_nodup := List.nodup_nil
  sized := Table.sized_new me
  injective _ _ _ _ _ hg := by simp [Routing.new] at hg
  disjoint _ hh := absurd hh List.not_mem_nil
  me_leafset := List.not_mem_nil
  me_table _ _ := by simp [Routing.new]

/-- Only the local key and the current keys of the members matter to the invariant. -/
theorem Wellformed.of_view {v' : PeerView} (hw : Wellformed v L r)
    (hme : v'.key r.me = v.key r.me) (hlive : ∀ m ∈ r.leafset.members, v'.key m.host ≠ zero) :
    Wellformed v' L r :=
  { hw with placed := hme ▸ hw.placed, live_ne_zero := hlive }

theorem isZero_eq_false_iff {k : Key} : k.isZero = false ↔ k ≠ zero := by
  unfold isZero
  constructor
  · intro hz he
    rw [he] at hz
    exact Bool.noConfusion hz
  · intro hne
    simp only [beq_eq_false_iff_ne, ne_eq]
    exact fun hv => hne (ext_val (hv.trans val_zero.symm))

section Remove

theorem Wellformed.remove_both (hw : Wellformed v L r) :
    Wellformed v L { r with leafset := (r.leafset.remove v h).1, table := (r.table.remove v h).1 } where
  leafset_me := hw.leafset_me
  table_me := by simpa using hw.table_me
  halfSize := hw.halfSize
  placed := hw.placed.remove
  placed_ne_zero m hm := by
    rw [members_remove] at hm
    exact hw.placed_ne_zero m (List.mem_filter.mp hm).1
  live_ne_zero m hm := by
    rw [members_remove] at hm
    exact hw.live_ne_zero m (List.mem_filter.mp hm).1
  hosts_nodup := hw.hosts_nodup.sublist hosts_remove_sublist
  sized := Table.sized_remove hw.sized
  injective := hw.injective.mono fun _ _ _ hg => (Table.get_remove_eq_some hw.sized hg).1
  disjoint x hx i j hg :=
    hw.disjoint x (hosts_remove_sublist.subset hx) i j (Table.get_remove_eq_some hw.sized hg).1
  me_leafset hme := hw.me_leafset (hosts_remove_sublist.subset hme)
  me_table i j hg := hw.me_table i j (Table.get_remove_eq_some hw.sized hg).1

theorem Wellformed.remove (hw : Wellformed v L r) : Wellformed v L (r.remove v h).1 :=
  hw.remove_both

theorem forgetStale_cases (v : PeerView) (r : Routing) (h : Host.Id) :
    (r.forgetStale v h).1 = r ∧ r.leafset.isStale v h = false ∧ r.table.isStale v h = false ∨
      (r.forgetStale v h).1 =
        { r with leafset := (r.leafset.remove v h).1, table := (r.table.remove v h).1 } := by
  unfold forgetStale
  split
  next hfresh =>
    simp only [Bool.and_eq_true, Bool.not_eq_true'] at hfresh
    exact Or.inl ⟨rfl, hfresh⟩
  next => exact Or.inr rfl

theorem Wellformed.forgetStale (hw : Wellformed v L r) : Wellformed v L (r.forgetStale v h).1 := by
  rcases forgetStale_cases v r h with ⟨he, -⟩ | he <;> rw [he]
  · exact hw
  · exact hw.remove_both

/-- The record `h` sits nowhere under a key it no longer has. -/
def Fresh (v : PeerView) (r : Routing) (h : Host.Id) : Prop :=
  r.leafset.isStale v h = false ∧ r.table.isStale v h = false

theorem fresh_forgetStale (ht : r.table.Sized) : Fresh v (r.forgetStale v h).1 h := by
  rcases forgetStale_cases v r h with ⟨he, hls, hts⟩ | he <;> rw [he]
  · exact ⟨hls, hts⟩
  · exact ⟨isStale_remove, Table.isStale_remove_self ht⟩

end Remove

section Insert

/-- Everything `insert` can do: nothing when the key is placed already; otherwise the leafset
decides, and the table takes a rejected host or the member pushed out, and drops an admitted
one. -/
theorem insert_cases (v : PeerView) (r : Routing) (h : Host.Id) :
    (r.insert v h).1 = r ∨
      r.leafset.contains (v.key h) = false ∧
        ((r.leafset.add v h).2 = .rejected ∧
            (r.insert v h).1 = { r with table := (r.table.add v h).1 } ∨
          (r.leafset.add v h).2 = .inserted ∧
            (r.insert v h).1 =
              { r with leafset := (r.leafset.add v h).1, table := (r.table.remove v h).1 } ∨
          ∃ d, (r.leafset.add v h).2 = .displaced d ∧
            (r.insert v h).1 = { r with
              leafset := (r.leafset.add v h).1
              table := ((r.table.remove v h).1.add v d).1 }) := by
  unfold insert
  split
  · exact Or.inl rfl
  next hc =>
    refine Or.inr ⟨by simpa using hc, ?_⟩
    rcases r.leafset.add v h with ⟨ls, _ | _ | d⟩
    · exact Or.inl ⟨rfl, rfl⟩
    · exact Or.inr (Or.inl ⟨rfl, rfl⟩)
    · exact Or.inr (Or.inr ⟨d, rfl, rfl⟩)

/-- The table may take a record that is not a member and sits nowhere but in its home slot. -/
theorem Wellformed.table_add (hw : Wellformed v L r) (hnot : h ∉ r.leafset.hosts)
    (hts : r.table.isStale v h = false) :
    Wellformed v L { r with table := (r.table.add v h).1 } :=
  { hw with
    table_me := by simpa using hw.table_me
    sized := Table.sized_add hw.sized
    injective := Table.injective_add hw.sized hw.injective fun _ _ hg =>
      Table.slot_of_isStale_eq_false hts hg
    disjoint := fun x hx i j hg => by
      rcases Table.get_add_eq_some hw.sized hg with hg | ⟨rfl, -⟩
      · exact hw.disjoint x hx i j hg
      · exact hnot hx
    me_table := fun i j hg => by
      have hme := Table.get_add_ne_me (v := v) (h := h) hw.sized
        (by rw [hw.table_me]; exact hw.me_table) i j
      rw [Table.me_add, hw.table_me] at hme
      exact hme hg }

/-- Admitting a fresh record to the leafset and taking it out of the table keeps the
invariant; a member pushed out is dropped for now. -/
theorem Wellformed.add_admitted (hw : Wellformed v L r) (hz : v.key h ≠ zero)
    (hnot : h ∉ r.leafset.hosts) (hadm : (r.leafset.add v h).2 ≠ .rejected) :
    Wellformed v L
      { r with leafset := (r.leafset.add v h).1, table := (r.table.remove v h).1 } := by
  have hlen := hw.placed.length_le
  have hme : h ≠ r.me := by
    intro he
    have hk := (add_fresh_of_ne_rejected hlen hadm).1
    rw [he, hw.leafset_me] at hk
    exact hk rfl
  have hmem : ∀ m ∈ (r.leafset.add v h).1.members, m = ⟨v.key h, h⟩ ∨ m ∈ r.leafset.members :=
    fun m hm => mem_members_add hlen hm
  exact {
    leafset_me := by rw [me_add]; exact hw.leafset_me
    table_me := by simpa using hw.table_me
    halfSize := by rw [halfSize_add]; exact hw.halfSize
    placed := by
      have hp : Placed (v.key r.leafset.me) r.leafset := by
        rw [hw.leafset_me]
        exact hw.placed
      have hp' := hp.add (v := v) (h := h)
      rw [hw.leafset_me] at hp'
      exact hp'
    placed_ne_zero := fun m hm => by
      rcases hmem m hm with rfl | hm
      · exact hz
      · exact hw.placed_ne_zero m hm
    live_ne_zero := fun m hm => by
      rcases hmem m hm with rfl | hm
      · exact hz
      · exact hw.live_ne_zero m hm
    hosts_nodup := (nodup_hosts_add hlen hw.hosts_nodup hnot).1
    sized := Table.sized_remove hw.sized
    injective := hw.injective.mono fun _ _ _ hg => (Table.get_remove_eq_some hw.sized hg).1
    disjoint := fun x hx i j hg => by
      obtain ⟨hg, hxh, -⟩ := Table.get_remove_eq_some hw.sized hg
      rcases mem_hosts_add hlen hx with rfl | hx
      · exact hxh rfl
      · exact hw.disjoint x hx i j hg
    me_leafset := fun hx => by
      rcases mem_hosts_add hlen hx with he | hx
      · exact hme he.symm
      · exact hw.me_leafset hx
    me_table := fun i j hg => hw.me_table i j (Table.get_remove_eq_some hw.sized hg).1 }

/-- `insert` keeps the invariant for a record with a non-zero key that is stale in neither
structure. -/
theorem Wellformed.insert (hw : Wellformed v L r) (hz : v.key h ≠ zero)
    (hls : r.leafset.isStale v h = false) (hts : r.table.isStale v h = false) :
    Wellformed v L (r.insert v h).1 := by
  rcases insert_cases v r h with he | ⟨hc, ⟨-, he⟩ | ⟨hadm, he⟩ | ⟨d, hadm, he⟩⟩ <;> rw [he]
  · exact hw
  · exact hw.table_add (host_not_mem_of_fresh hls hc) hts
  · exact hw.add_admitted hz (host_not_mem_of_fresh hls hc) (fun he => Admission.noConfusion (hadm.symm.trans he))
  · -- the member pushed out goes to the table, where it cannot be yet
    have hnot := host_not_mem_of_fresh hls hc
    have hw' := hw.add_admitted hz hnot (fun he => Admission.noConfusion (hadm.symm.trans he))
    obtain ⟨hd, hdnot⟩ := (nodup_hosts_add hw.placed.length_le hw.hosts_nodup hnot).2 d hadm
    refine hw'.table_add hdnot (Table.isStale_eq_false_of_forall fun i j hg => ?_)
    exact hw.disjoint d hd i j (Table.get_remove_eq_some hw.sized hg).1

end Insert

section Operations

theorem add_fst (v : PeerView) (r : Routing) (h : Host.Id) :
    (r.add v h).1 = if (v.key h).isZero then r else ((r.forgetStale v h).1.insert v h).1 := by
  unfold add
  split <;> rfl

theorem refresh_fst (v : PeerView) (r : Routing) (h : Host.Id) :
    (r.refresh v h).1 = (r.forgetStale v h).1 ∨
      (v.key h).isZero = false ∧ (r.refresh v h).1 = ((r.forgetStale v h).1.insert v h).1 := by
  unfold refresh
  dsimp only
  split
  · exact Or.inl rfl
  · split
    · exact Or.inl rfl
    next hz => exact Or.inr ⟨by simpa using hz, rfl⟩

theorem Wellformed.forget_insert (hw : Wellformed v L r) (hz : v.key h ≠ zero) :
    Wellformed v L ((r.forgetStale v h).1.insert v h).1 := by
  obtain ⟨hls, hts⟩ := fresh_forgetStale (v := v) (h := h) hw.sized
  exact hw.forgetStale.insert hz hls hts

theorem Wellformed.add (hw : Wellformed v L r) : Wellformed v L (r.add v h).1 := by
  rw [add_fst]
  split
  · exact hw
  next hz => exact hw.forget_insert (isZero_eq_false_iff.mp (by simpa using hz))

theorem Wellformed.refresh (hw : Wellformed v L r) : Wellformed v L (r.refresh v h).1 := by
  rcases refresh_fst v r h with he | ⟨hz, he⟩ <;> rw [he]
  · exact hw.forgetStale
  · exact hw.forget_insert (isZero_eq_false_iff.mp hz)

/-- Rebuilding around a record `me` keeps the invariant, when only the key of `me` may have
changed. -/
theorem Wellformed.keyUpdate {v' : PeerView} (hw : Wellformed v L r) (me : Host.Id)
    (hv : ∀ x, x ≠ me → v'.key x = v.key x) : Wellformed v' L (r.keyUpdate v' me) := by
  obtain ⟨hme, hhalf, hp, hlive, hperm⟩ := Leafset.keyUpdate_spec v' r.leafset me
  obtain ⟨tme, tsized, tinj, tout, tsub⟩ := Table.keyUpdate_spec (v := v') hw.injective me
  set ls := (r.leafset.keyUpdate v' me).1
  set out := (r.leafset.keyUpdate v' me).2
  have hnodup : (ls.hosts ++ out).Nodup := hperm.nodup_iff.mpr hw.hosts_nodup
  have hformer : ∀ x, x ∈ ls.hosts ∨ x ∈ out → x ∈ r.leafset.hosts := fun x hx =>
    hperm.subset (List.mem_append.mpr hx)
  have hmember : ∀ m ∈ ls.members, m.host ≠ me ∧ ∃ m₀ ∈ r.leafset.members, m₀.host = m.host := by
    intro m hm
    obtain ⟨s, hs⟩ := mem_members.mp hm
    have hkey : v'.key m.host ≠ v'.key me := hlive m hm ▸ (hp.side s).ne_me m hs
    refine ⟨fun he => hkey (he ▸ rfl), ?_⟩
    exact List.mem_map.mp (hformer m.host (Or.inl (List.mem_map_of_mem hm)))
  have hlive' : ∀ m ∈ ls.members, v'.key m.host ≠ zero := by
    intro m hm
    obtain ⟨hne, m₀, hm₀, hhost⟩ := hmember m hm
    rw [hv _ hne, ← hhost]
    exact hw.live_ne_zero m₀ hm₀
  have hfresh : ∀ x ∈ out, ∀ i j, (r.table.keyUpdate v' me).get i j ≠ some x := by
    intro x hx i j hg
    obtain ⟨i', j', hg'⟩ := Table.mem_hosts.mp (tsub i j x hg)
    exact hw.disjoint x (hformer x (Or.inr hx)) i' j' hg'
  obtain ⟨t2me, t2sized, t2inj, t2out, t2sub⟩ := Table.foldl_add (v := v') out
    (List.nodup_append.mp hnodup).2.1 (r.table.keyUpdate v' me) tsized tinj
    (by rw [tme]; exact tout) hfresh
  rw [tme] at t2me t2out
  exact {
    leafset_me := hme
    table_me := t2me
    halfSize := hhalf.trans hw.halfSize
    placed := hp
    placed_ne_zero := fun m hm => hlive m hm ▸ hlive' m hm
    live_ne_zero := hlive'
    hosts_nodup := (List.nodup_append.mp hnodup).1
    sized := t2sized
    injective := t2inj
    disjoint := fun x hx i j hg => by
      rcases t2sub i j x hg with hg | hx'
      · obtain ⟨i', j', hg'⟩ := Table.mem_hosts.mp (tsub i j x hg)
        exact hw.disjoint x (hformer x (Or.inl hx)) i' j' hg'
      · exact (List.nodup_append.mp hnodup).2.2 x hx x hx' rfl
    me_leafset := fun hx => by
      obtain ⟨m, hm, hhost⟩ := List.mem_map.mp hx
      exact (hmember m hm).1 hhost
    me_table := t2out }

end Operations

section Run

/-- What may happen to a node's routing state and the records it reads between two looks at
it: a routing operation; a record becoming the local one with a new key, everything rebuilt
around it; another record taking a new non-zero key; any record's statistics changing. -/
inductive Step : Host.Registry × Routing → Host.Registry × Routing → Prop
  | add (reg : Host.Registry) (r : Routing) (h : Host.Id) :
      Step (reg, r) (reg, (r.add (.ofRegistry reg) h).1)
  | remove (reg : Host.Registry) (r : Routing) (h : Host.Id) :
      Step (reg, r) (reg, (r.remove (.ofRegistry reg) h).1)
  | refresh (reg : Host.Registry) (r : Routing) (h : Host.Id) :
      Step (reg, r) (reg, (r.refresh (.ofRegistry reg) h).1)
  | keyUpdate (reg : Host.Registry) (r : Routing) (me : Host.Id) (k : Key) :
      Step (reg, r) (reg.setKey me k, r.keyUpdate (.ofRegistry (reg.setKey me k)) me)
  | setKey (reg : Host.Registry) (r : Routing) (h : Host.Id) (k : Key) (hme : h ≠ r.me)
      (hk : k ≠ zero) : Step (reg, r) (reg.setKey h k, r)
  | updateStat (reg : Host.Registry) (r : Routing) (h : Host.Id) (f : Host.Stats → Host.Stats) :
      Step (reg, r) (reg.modifyStats h f, r)

/-- The states reachable from the empty routing state of `me` with half size `L`. -/
inductive Reachable (me : Host.Id) (L : Nat) : Host.Registry × Routing → Prop
  | init (reg : Host.Registry) : Reachable me L (reg, Routing.new me L)
  | step {s s' : Host.Registry × Routing} : Reachable me L s → Step s s' → Reachable me L s'

theorem Step.wellformed {s s' : Host.Registry × Routing} (hs : Step s s')
    (hw : Wellformed (.ofRegistry s.1) L s.2) : Wellformed (.ofRegistry s'.1) L s'.2 := by
  cases hs with
  | add reg r h => exact hw.add
  | remove reg r h => exact hw.remove
  | refresh reg r h => exact hw.refresh
  | keyUpdate reg r me k => exact hw.keyUpdate me fun x hx => Host.Registry.key_setKey_of_ne reg k hx
  | setKey reg r h k hme hk =>
    refine hw.of_view (Host.Registry.key_setKey_of_ne reg k hme.symm) fun m hm => ?_
    show (reg.setKey h k).key m.host ≠ zero
    by_cases hmh : m.host = h
    · rw [hmh]
      rcases Host.Registry.key_setKey_self reg h k with he | he <;> rw [he]
      · exact hk
      · exact hmh ▸ hw.live_ne_zero m hm
    · rw [Host.Registry.key_setKey_of_ne reg k hmh]
      exact hw.live_ne_zero m hm
  | updateStat reg r h f =>
    refine hw.of_view (Host.Registry.key_modifyStats reg h r.me f) fun m hm => ?_
    show (reg.modifyStats h f).key m.host ≠ zero
    rw [Host.Registry.key_modifyStats]
    exact hw.live_ne_zero m hm

theorem Reachable.wellformed {me : Host.Id} {s : Host.Registry × Routing}
    (hr : Reachable me L s) : Wellformed (.ofRegistry s.1) L s.2 := by
  induction hr with
  | init reg => exact wellformed_new _ me L
  | step _ hs ih => exact hs.wellformed ih

end Run

/-- What every reachable routing state satisfies, read through `v`, for half size `L`: sides in
strict order of distance from the local key, each within the half size and each member on its
side; distinct non-zero placed keys other than the local key; no record twice across the leafset
and the table, and the local record in neither; one local record throughout. -/
structure Invariant (v : PeerView) (L : Nat) (r : Routing) : Prop where
  sorted : ∀ s, (r.leafset.sideMembers s).Pairwise fun a b =>
    sideDistance (v.key r.me) a.key s < sideDistance (v.key r.me) b.key s
  length_le : ∀ s, (r.leafset.sideMembers s).length ≤ max L 1
  cw_on_side : ∀ m ∈ r.leafset.cw, distance (v.key r.me) m.key ≤ distance m.key (v.key r.me)
  ccw_on_side : ∀ m ∈ r.leafset.ccw, ¬ distance (v.key r.me) m.key ≤ distance m.key (v.key r.me)
  keys_nodup : (r.leafset.members.map (·.key)).Nodup
  key_ne_zero : ∀ m ∈ r.leafset.members, m.key ≠ zero
  key_ne_me : ∀ m ∈ r.leafset.members, m.key ≠ v.key r.me
  hosts_nodup : (r.leafset.hosts ++ r.table.hosts).Nodup
  me_not_mem : r.me ∉ r.leafset.hosts ++ r.table.hosts
  leafset_me : r.leafset.me = r.me
  table_me : r.table.me = r.me

theorem Wellformed.invariant (hw : Wellformed v L r) : Invariant v L r where
  sorted s := (hw.placed.side s).sorted.imp sideDistance_lt_iff.mpr
  length_le s := (hw.placed.length_le s).trans_eq hw.halfSize
  cw_on_side m hm := place_fst_eq_cw_iff.mp ((hw.placed.side .cw).on_side m hm)
  ccw_on_side m hm := place_fst_eq_ccw_iff.mp ((hw.placed.side .ccw).on_side m hm)
  keys_nodup := hw.placed.nodup_keys
  key_ne_zero := hw.placed_ne_zero
  key_ne_me m hm := by
    obtain ⟨s, hs⟩ := mem_members.mp hm
    exact (hw.placed.side s).ne_me m hs
  hosts_nodup := by
    refine List.nodup_append.mpr ⟨hw.hosts_nodup, (Table.nodup_hosts_iff _).mpr hw.injective, ?_⟩
    intro x hx y hy hxy
    obtain ⟨i, j, hg⟩ := Table.mem_hosts.mp hy
    exact hw.disjoint x hx i j (hxy ▸ hg)
  me_not_mem hme := by
    rcases List.mem_append.mp hme with hme | hme
    · exact hw.me_leafset hme
    · obtain ⟨i, j, hg⟩ := Table.mem_hosts.mp hme
      exact hw.me_table i j hg
  leafset_me := hw.leafset_me
  table_me := hw.table_me

/-- Every routing state reachable from an empty one satisfies the invariant. -/
theorem reachable_invariant {me : Host.Id} {reg : Host.Registry} (hr : Reachable me L (reg, r)) :
    Invariant (.ofRegistry reg) L r :=
  hr.wellformed.invariant

/-- Two records, at keys 8 and 24. -/
def sampleRegistry : Host.Registry :=
  ⟨#[Host.Record.ofNodeAddr ⟨ofNat 8, default⟩, Host.Record.ofNodeAddr ⟨ofNat 24, default⟩]⟩

theorem reachable_invariant_after_add :
    Reachable ⟨0⟩ 1 (sampleRegistry, ((Routing.new ⟨0⟩ 1).add (.ofRegistry sampleRegistry) ⟨1⟩).1) ∧
      Invariant (.ofRegistry sampleRegistry) 1
        ((Routing.new ⟨0⟩ 1).add (.ofRegistry sampleRegistry) ⟨1⟩).1 :=
  ⟨.step (.init _) (.add _ _ _), reachable_invariant (.step (.init _) (.add _ _ _))⟩

end PeerRing.Overlay.Routing
