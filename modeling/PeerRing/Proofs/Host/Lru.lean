import PeerRing.Proofs.Host.Cache
import Mathlib
/-! # The host cache is a pinned LRU registry

The model: a list of entries from most to least recently used, with distinct addresses, each
naming a record with its identity, its key and the number of handles its callers hold on it.
Getting a cached address moves its entry to the front and gives it the asked key when that key
is nonzero; getting a new address first evicts, when the cache is full, entries without a handle
from the least recent end until one place is free or none is left, then files a new record in
front. Releasing a handle evicts the same way down to capacity when the cache is over it.

The cache, driven with its registry and the handles held on records, refines the model: every
operation answers as the model does and leaves a cache that reads as the model. Eviction never
drops an entry whose record has a handle.
-/
namespace PeerRing.Host.Lru

open Net

/-- One entry of the model: an address, the record filed there with its key, and the handles
held on the record outside the cache. -/
structure Entry where
  addr : SocketAddr
  id : Id
  key : Key
  handles : Nat
deriving DecidableEq

/-- Drops the first `k` entries without a handle from a list ordered from least to most
recently used. -/
def dropUnheld : Nat → List Entry → List Entry
  | 0, l => l
  | _ + 1, [] => []
  | k + 1, e :: l => if e.handles = 0 then dropUnheld k l else e :: dropUnheld (k + 1) l

/-- Evicts least recently used entries without a handle until at most `target` remain or none
is left. -/
def evict (target : Nat) (l : List Entry) : List Entry :=
  (dropUnheld (l.length - target) l.reverse).reverse

/-- The registry model: entries from most to least recently used, and the number of records
created so far, which the next record gets as its identity. -/
structure Model where
  capacity : Nat
  entries : List Entry
  created : Nat

/-- What an operation answers. -/
inductive Answer where
  /-- The record an address names. -/
  | record (id : Id) (key : Key)
  /-- No record is filed at the address. -/
  | miss
  | done
  | error (e : HostError)
deriving DecidableEq

/-- Operations on the cache, and dropping a handle without telling it. -/
inductive Op where
  | get (a : NodeAddr)
  | lookup (a : SocketAddr)
  | decode (s : String)
  | release (h : Id)
  | drop (h : Id)

namespace Model

/-- An empty registry; a capacity of zero is taken as one. -/
def new (max : Nat) : Model := ⟨Nat.max max 1, [], 0⟩

/-- One handle fewer on a record. -/
def unhold (h : Id) (l : List Entry) : List Entry :=
  l.map fun e => if e.id = h then { e with handles := e.handles - 1 } else e

/-- The record for a host address, with one more handle on it. -/
def get (m : Model) (a : NodeAddr) : Model × Entry :=
  (m.entries.find? (·.addr == a.addr)).elim
    (let kept := if m.entries.length ≥ m.capacity then evict (m.capacity - 1) m.entries
      else m.entries
     let e : Entry := ⟨a.addr, ⟨m.created⟩, a.key, 1⟩
     ({ m with entries := e :: kept, created := m.created + 1 }, e))
    fun e =>
      let e := { e with key := if a.key.isZero then e.key else a.key, handles := e.handles + 1 }
      ({ m with entries := e :: m.entries.filter (·.addr != a.addr) }, e)

/-- One operation. -/
def step (m : Model) : Op → Answer × Model
  | .get a => (.record (m.get a).2.id (m.get a).2.key, (m.get a).1)
  | .lookup a => ((m.entries.find? (·.addr == a)).elim .miss fun e => .record e.id e.key, m)
  | .decode s =>
    match NodeAddr.parse s with
    | .ok a => (.record (m.get a).2.id (m.get a).2.key, (m.get a).1)
    | .error err => (.error err, m)
  | .release h =>
    let l := unhold h m.entries
    (.done, { m with entries := if l.length > m.capacity then evict m.capacity l else l })
  | .drop h => (.done, { m with entries := unhold h m.entries })

/-- A run of operations: the answers in order and the final model. -/
def exec : List Op → Model → List Answer × Model
  | [], m => ([], m)
  | op :: ops, m => ((m.step op).1 :: (exec ops (m.step op).2).1, (exec ops (m.step op).2).2)

end Model

/-- The cache as its callers drive it: with its registry and the handles held on records. -/
structure Client where
  cache : Cache
  reg : Registry
  held : Id → Nat

namespace Client

/-- An empty cache with an empty registry. -/
def new (max : Nat) : Client := ⟨Cache.new max, {}, fun _ => 0⟩

/-- A record is pinned while a handle on it is held. -/
def pinned (c : Client) (h : Id) : Bool := c.held h != 0

/-- One handle more on a record. -/
def hold (held : Id → Nat) (h : Id) : Id → Nat := fun x => if x = h then held x + 1 else held x

/-- One handle fewer on a record. -/
def unhold (held : Id → Nat) (h : Id) : Id → Nat := fun x => if x = h then held x - 1 else held x

/-- Gets the record for a host address and holds a handle on it. -/
def get (c : Client) (a : NodeAddr) : Client × Id :=
  let r := c.cache.getHost c.reg a c.pinned
  (⟨r.1, r.2.1, hold c.held r.2.2⟩, r.2.2)

/-- One operation. -/
def step (c : Client) : Op → Answer × Client
  | .get a => (.record (c.get a).2 ((c.get a).1.reg.key (c.get a).2), (c.get a).1)
  | .lookup a => ((c.cache.lookup a).elim .miss fun h => .record h (c.reg.key h), c)
  | .decode s =>
    match NodeAddr.parse s with
    | .ok a => (.record (c.get a).2 ((c.get a).1.reg.key (c.get a).2), (c.get a).1)
    | .error e => (.error e, c)
  | .release h =>
    let c' := { c with held := unhold c.held h }
    (.done, { c' with cache := c'.cache.release c'.pinned })
  | .drop h => (.done, { c with held := unhold c.held h })

/-- A run of operations: the answers in order and the final client. -/
def exec : List Op → Client → List Answer × Client
  | [], c => ([], c)
  | op :: ops, c => ((c.step op).1 :: (exec ops (c.step op).2).1, (exec ops (c.step op).2).2)

/-- The model entry of a cache entry. -/
def entryOf (c : Client) (e : SocketAddr × Id) : Entry := ⟨e.1, e.2, c.reg.key e.2, c.held e.2⟩

/-- The model a client reads as. -/
def abs (c : Client) : Model := ⟨c.cache.capacity, c.cache.entries.map c.entryOf, c.reg.records.size⟩

/-- What every reachable client keeps: each entry names a record of the registry at the entry's
address, addresses are distinct, and every record with a handle is cached. -/
structure Inv (c : Client) : Prop where
  filed : Cache.Filed c.reg c.cache
  nodup : (c.cache.entries.map (·.1)).Nodup
  cached : ∀ h, c.held h ≠ 0 → h ∈ c.cache.entries.map (·.2)

end Client

section Evict

variable {k : Nat} {l : List Entry} {e : Entry}

theorem dropUnheld_succ (k : Nat) (l : List Entry) :
    dropUnheld (k + 1) l = dropUnheld k (dropUnheld 1 l) := by
  induction l generalizing k with
  | nil => cases k <;> rfl
  | cons x l ih =>
    by_cases hx : x.handles = 0
    · simp [dropUnheld, hx]
    · cases k with
      | zero => simp [dropUnheld, hx]
      | succ k => simp [dropUnheld, hx, ih (k + 1)]

theorem dropUnheld_of_forall (h : ∀ x ∈ l, x.handles ≠ 0) (k : Nat) : dropUnheld k l = l := by
  induction l generalizing k with
  | nil => cases k <;> rfl
  | cons x l ih =>
    cases k with
    | zero => rfl
    | succ k =>
      have hx := h x List.mem_cons_self
      simp [dropUnheld, hx, ih (fun y hy => h y (List.mem_cons_of_mem x hy))]

theorem length_dropUnheld_one (h : ∃ x ∈ l, x.handles = 0) :
    (dropUnheld 1 l).length + 1 = l.length := by
  induction l with
  | nil => simp at h
  | cons x l ih =>
    by_cases hx : x.handles = 0
    · simp [dropUnheld, hx]
    · obtain ⟨y, hy, hy0⟩ := h
      have hyl : y ∈ l := by
        rcases List.mem_cons.mp hy with rfl | hyl
        · exact absurd hy0 hx
        · exact hyl
      simp [dropUnheld, hx, ih ⟨y, hyl, hy0⟩]

theorem dropUnheld_sublist (k : Nat) (l : List Entry) : (dropUnheld k l).Sublist l := by
  induction l generalizing k with
  | nil => cases k <;> exact List.Sublist.refl _
  | cons x l ih =>
    cases k with
    | zero => exact List.Sublist.refl _
    | succ k =>
      by_cases hx : x.handles = 0
      · simpa [dropUnheld, hx] using (ih k).cons x
      · simpa [dropUnheld, hx] using (ih (k + 1)).cons_cons x

theorem mem_dropUnheld (he : e ∈ l) (hh : e.handles ≠ 0) (k : Nat) : e ∈ dropUnheld k l := by
  induction l generalizing k with
  | nil => cases he
  | cons x l ih =>
    cases k with
    | zero => exact he
    | succ k =>
      rcases List.mem_cons.mp he with rfl | hel
      · simp [dropUnheld, hh]
      · by_cases hx : x.handles = 0
        · simpa [dropUnheld, hx] using ih hel k
        · simpa [dropUnheld, hx] using Or.inr (ih hel (k + 1))

theorem evict_sublist (t : Nat) (l : List Entry) : (evict t l).Sublist l := by
  simpa [evict] using (dropUnheld_sublist (l.length - t) l.reverse).reverse

theorem mem_evict (he : e ∈ l) (hh : e.handles ≠ 0) (t : Nat) : e ∈ evict t l := by
  unfold evict
  rw [List.mem_reverse]
  exact mem_dropUnheld (List.mem_reverse.mpr he) hh _

end Evict

section Loop

variable (c : Client) {t : Nat}

theorem handles_entryOf (x : SocketAddr × Id) : (c.entryOf x).handles = 0 ↔ c.pinned x.2 = false := by
  simp [Client.entryOf, Client.pinned]

theorem entryOf_injective {x y : SocketAddr × Id} (h : c.entryOf x = c.entryOf y) : x = y := by
  simp only [Client.entryOf, Entry.mk.injEq] at h
  exact Prod.ext h.1 h.2.1

/-- Taking out the entries at the address of the least recently used unpinned entry takes out
that entry alone, read from the least recent end. -/
theorem map_filter_victim {R : List (SocketAddr × Id)} (hR : (R.map (·.1)).Nodup)
    {v : SocketAddr × Id} (hv : R.find? (fun e => !c.pinned e.2) = some v) :
    (R.filter (·.1 != v.1)).map c.entryOf = dropUnheld 1 (R.map c.entryOf) := by
  induction R with
  | nil => cases hv
  | cons x R ih =>
    simp only [List.map_cons, List.nodup_cons] at hR
    have hfresh : ∀ y ∈ R, y.1 ≠ x.1 := fun y hy he => hR.1 (he ▸ List.mem_map_of_mem hy)
    cases hx : c.pinned x.2
    · -- `x` is the victim: it goes, and no other entry has its address
      rw [List.find?_cons_of_pos (by simp [hx])] at hv
      have hvx : x = v := Option.some.inj hv
      subst hvx
      have hkeep : R.filter (·.1 != x.1) = R :=
        List.filter_eq_self.mpr fun y hy => by simpa using hfresh y hy
      simp [hkeep, dropUnheld, (handles_entryOf c x).mpr hx]
    · -- `x` is pinned: the victim lies further on, at another address
      rw [List.find?_cons_of_neg (by simp [hx])] at hv
      have hne : x.1 ≠ v.1 := fun he => hfresh v (List.mem_of_find?_eq_some hv) he.symm
      have hx0 : (c.entryOf x).handles ≠ 0 := fun h => by
        rw [(handles_entryOf c x).mp h] at hx
        cases hx
      simp [hne, dropUnheld, hx0, ih hR.2 hv]

theorem capacity_evictTo_go (t f : Nat) (c' : Cache) :
    (Cache.evictTo.go c.pinned t f c').capacity = c'.capacity := by
  induction f generalizing c' with
  | zero => rfl
  | succ f ih =>
    unfold Cache.evictTo.go
    split
    · rfl
    · split
      · exact ih _
      · rfl

/-- The eviction loop of the cache, with enough turns, evicts as the model does. -/
theorem evictTo_go_entries (t : Nat) :
    ∀ (f : Nat) (c' : Cache), (c'.entries.map (·.1)).Nodup → c'.entries.length ≤ f →
      (Cache.evictTo.go c.pinned t f c').entries.map c.entryOf = evict t (c'.entries.map c.entryOf)
  | 0, c', _, hlen => by
    have he := List.eq_nil_of_length_eq_zero (Nat.le_zero.mp hlen)
    simp [Cache.evictTo.go, he, evict, dropUnheld]
  | f + 1, c', hnd, hlen => by
    unfold Cache.evictTo.go
    split
    next hsize =>
      have h0 : (c'.entries.map c.entryOf).length - t = 0 := by
        simp only [List.length_map]
        exact Nat.sub_eq_zero_of_le hsize
      simp only [evict, h0, dropUnheld, List.reverse_reverse]
    next hsize =>
      have hsize : t < c'.entries.length := Nat.lt_of_not_le hsize
      have hR : (c'.entries.reverse.map (·.1)).Nodup := by
        rw [List.map_reverse]
        exact List.nodup_reverse.mpr hnd
      split
      next a hvic =>
        unfold Cache.victim at hvic
        obtain ⟨v, hv, rfl⟩ := Option.map_eq_some_iff.mp hvic
        have hstep := map_filter_victim c hR hv
        rw [List.filter_reverse, List.map_reverse, List.map_reverse] at hstep
        have hunheld : ∃ x ∈ (c'.entries.map c.entryOf).reverse, x.handles = 0 := by
          refine ⟨c.entryOf v, ?_, (handles_entryOf c v).mpr (by simpa using List.find?_some hv)⟩
          rw [← List.map_reverse]
          exact List.mem_map_of_mem (List.mem_of_find?_eq_some hv)
        have hlen' := length_dropUnheld_one hunheld
        rw [← hstep] at hlen'
        simp only [List.length_reverse, List.length_map] at hlen'
        have hnd' : ((c'.entries.filter (·.1 != v.1)).map (·.1)).Nodup :=
          hnd.sublist (List.filter_sublist.map _)
        rw [evictTo_go_entries t f _ hnd' (by dsimp only; omega)]
        unfold evict
        dsimp only
        rw [hstep, List.length_map, List.length_map,
          show c'.entries.length - t = ((c'.entries.filter (·.1 != v.1)).length - t) + 1 by omega,
          dropUnheld_succ ((c'.entries.filter (·.1 != v.1)).length - t)]
      next hvic =>
        unfold Cache.victim at hvic
        have hnone := Option.map_eq_none_iff.mp hvic
        have hall : ∀ x ∈ (c'.entries.map c.entryOf).reverse, x.handles ≠ 0 := by
          intro x hx h0
          rw [← List.map_reverse] at hx
          obtain ⟨y, hy, rfl⟩ := List.mem_map.mp hx
          have := List.find?_eq_none.mp hnone y hy
          simp [(handles_entryOf c y).mp h0] at this
        simp only [evict]
        rw [dropUnheld_of_forall hall, List.reverse_reverse]

theorem evictTo_entries (t : Nat) (c' : Cache) (hnd : (c'.entries.map (·.1)).Nodup) :
    (Cache.evictTo c.pinned t c').entries.map c.entryOf = evict t (c'.entries.map c.entryOf) :=
  evictTo_go_entries c t _ c' hnd (Nat.le_refl _)

theorem mem_evictTo_of_pinned {c' : Cache} (hnd : (c'.entries.map (·.1)).Nodup) {x : SocketAddr × Id}
    (hx : x ∈ c'.entries) (hp : c.pinned x.2 = true) : x ∈ (Cache.evictTo c.pinned t c').entries := by
  have hkeep := mem_evict (List.mem_map_of_mem (f := c.entryOf) hx)
    (fun h => by simp [(handles_entryOf c x).mp h] at hp) t
  rw [← evictTo_entries c t c' hnd] at hkeep
  obtain ⟨y, hy, hxy⟩ := List.mem_map.mp hkeep
  rwa [entryOf_injective c hxy] at hy

theorem mem_makeRoom_of_pinned (hnd : (c.cache.entries.map (·.1)).Nodup) {x : SocketAddr × Id}
    (hx : x ∈ c.cache.entries) (hp : c.pinned x.2 = true) :
    x ∈ (c.cache.makeRoom c.pinned).entries := by
  unfold Cache.makeRoom
  split
  · exact mem_evictTo_of_pinned c hnd hx hp
  · exact hx

theorem capacity_makeRoom : (c.cache.makeRoom c.pinned).capacity = c.cache.capacity := by
  unfold Cache.makeRoom
  split
  · exact capacity_evictTo_go c _ _ _
  · rfl

end Loop

namespace Client

variable {c : Client}

theorem find?_abs (a : SocketAddr) :
    c.abs.entries.find? (·.addr == a) = (c.cache.entries.find? (·.1 == a)).map c.entryOf := by
  simp only [abs, List.find?_map]
  rfl

theorem lookup_eq (a : SocketAddr) : c.cache.lookup a = (c.cache.entries.find? (·.1 == a)).map (·.2) :=
  rfl

/-- A record nobody holds a handle on is unheld; every record the registry has not made yet is
one. -/
theorem Inv.held_fresh (hc : c.Inv) {h : Id} (hh : c.reg.records.size ≤ h.idx) : c.held h = 0 := by
  by_contra hne
  obtain ⟨e, he, rfl⟩ := List.mem_map.mp (hc.cached h hne)
  exact Nat.lt_irrefl _ (Nat.lt_of_lt_of_le (hc.filed e he).1 hh)

/-- Getting a cached address: the entry moves to the front and its record is offered the asked
key. -/
theorem get_of_find?_some {a : NodeAddr} {x : SocketAddr × Id}
    (hf : c.cache.entries.find? (·.1 == a.addr) = some x) :
    c.get a = (⟨{ c.cache with entries := (a.addr, x.2) :: c.cache.entries.filter (·.1 != a.addr) },
      c.reg.offerKey x.2 a.key, hold c.held x.2⟩, x.2) := by
  have hl : c.cache.lookup a.addr = some x.2 := by simp [lookup_eq, hf]
  simp only [get, Cache.getHost_of_lookup_some hl]

theorem get_of_find?_none {a : NodeAddr} (hf : c.cache.entries.find? (·.1 == a.addr) = none) :
    c.get a =
      (⟨{ c.cache.makeRoom c.pinned with
          entries := (a.addr, ⟨c.reg.records.size⟩) :: (c.cache.makeRoom c.pinned).entries },
        (c.reg.create a).1, hold c.held ⟨c.reg.records.size⟩⟩, ⟨c.reg.records.size⟩) := by
  have hl : c.cache.lookup a.addr = none := by simp [lookup_eq, hf]
  simp only [get, Cache.getHost_of_lookup_none hl]
  rfl

/-- Getting an address reads, through the model, as the model's get. -/
theorem abs_get (hc : c.Inv) (a : NodeAddr) :
    c.abs.get a = ((c.get a).1.abs, (c.get a).1.entryOf (a.addr, (c.get a).2)) := by
  unfold Model.get
  rw [find?_abs]
  cases hf : c.cache.entries.find? (·.1 == a.addr) with
  | some x =>
    have hx := List.mem_of_find?_eq_some hf
    have hxa : x.1 = a.addr := by simpa using List.find?_some hf
    obtain ⟨hlt, haddr⟩ := hc.filed x hx
    rw [get_of_find?_some hf]
    have hother : ∀ y ∈ c.cache.entries.filter (·.1 != a.addr),
        entryOf ⟨{ c.cache with entries := (a.addr, x.2) :: c.cache.entries.filter (·.1 != a.addr) },
          c.reg.offerKey x.2 a.key, hold c.held x.2⟩ y = c.entryOf y := by
      intro y hy
      obtain ⟨hy, hne⟩ := List.mem_filter.mp hy
      have hyx : y.2 ≠ x.2 := fun he => by
        have hya := (hc.filed y hy).2
        rw [he, haddr, hxa] at hya
        simp [← hya] at hne
      simp only [entryOf, Registry.key, Registry.get_offerKey_of_ne hyx, hold, if_neg hyx]
    simp only [Option.map_some, Option.elim, abs, entryOf, List.map_cons, hold, if_true,
      Registry.key_offerKey_self hlt, hxa]
    refine Prod.ext ?_ rfl
    simp only [Model.mk.injEq, true_and]
    refine ⟨?_, Registry.size_offerKey.symm⟩
    rw [List.map_congr_left hother, List.filter_map]
    rfl
  | none =>
    rw [get_of_find?_none hf]
    set kept := c.cache.makeRoom c.pinned
    have hsub : kept.entries.Sublist c.cache.entries := Cache.makeRoom_sublist _ _
    have hother : ∀ y ∈ kept.entries,
        entryOf ⟨{ kept with entries := (a.addr, ⟨c.reg.records.size⟩) :: kept.entries },
          (c.reg.create a).1, hold c.held ⟨c.reg.records.size⟩⟩ y = c.entryOf y := by
      intro y hy
      have hlt := (hc.filed y (hsub.subset hy)).1
      have hne : y.2 ≠ ⟨c.reg.records.size⟩ := fun he => by
        rw [he] at hlt
        exact Nat.lt_irrefl _ hlt
      simp only [entryOf, Registry.key_create_of_lt a hlt, hold, if_neg hne]
    have hkept : kept.entries.map c.entryOf = if c.abs.entries.length ≥ c.abs.capacity then
        evict (c.abs.capacity - 1) c.abs.entries else c.abs.entries := by
      have hlen : c.abs.entries.length = c.cache.size := List.length_map _
      rw [hlen, show c.abs.capacity = c.cache.capacity from rfl]
      unfold kept Cache.makeRoom
      by_cases hfull : c.cache.size ≥ c.cache.capacity
      · rw [if_pos hfull, if_pos hfull]
        exact evictTo_entries c _ _ hc.nodup
      · rw [if_neg hfull, if_neg hfull]
        rfl
    have h0 : c.held ⟨c.reg.records.size⟩ = 0 := hc.held_fresh (Nat.le_refl _)
    simp only [Option.map_none, Option.elim, abs, entryOf, List.map_cons, hold, if_true, h0,
      Registry.key_create_self, Registry.size_create]
    refine Prod.ext ?_ rfl
    simp only [Model.mk.injEq]
    refine ⟨(capacity_makeRoom c).symm, ?_, trivial⟩
    rw [List.map_congr_left hother, hkept]
    rfl

theorem Inv.get (hc : c.Inv) (a : NodeAddr) : (c.get a).1.Inv := by
  have hfiled : Cache.Filed (c.get a).1.reg (c.get a).1.cache :=
    (Cache.getHost_spec a c.pinned hc.filed).1
  cases hf : c.cache.entries.find? (·.1 == a.addr) with
  | some x =>
    have hx := List.mem_of_find?_eq_some hf
    have hxa : x.1 = a.addr := by simpa using List.find?_some hf
    rw [get_of_find?_some hf] at hfiled ⊢
    refine ⟨hfiled, ?_, fun y hy => ?_⟩
    · simp only [List.map_cons]
      refine List.nodup_cons.mpr ⟨fun hmem => ?_, hc.nodup.sublist (List.filter_sublist.map _)⟩
      obtain ⟨e, he, hea⟩ := List.mem_map.mp hmem
      simp [hea] at he
    · simp only [hold] at hy
      simp only [List.map_cons, List.mem_cons]
      by_cases hyx : y = x.2
      · exact Or.inl hyx
      · rw [if_neg hyx] at hy
        obtain ⟨e, he, rfl⟩ := List.mem_map.mp (hc.cached _ hy)
        refine Or.inr (List.mem_map_of_mem (List.mem_filter.mpr ⟨he, ?_⟩))
        -- the entry at the asked address is `x`, whose record is another one
        have hne : e.1 ≠ a.addr := fun hea => hyx (by
          rw [List.inj_on_of_nodup_map hc.nodup he hx (hea.trans hxa.symm)])
        simpa using hne
  | none =>
    have hnone := Cache.not_mem_of_lookup_none (show c.cache.lookup a.addr = none by
      simp [lookup_eq, hf])
    rw [get_of_find?_none hf] at hfiled ⊢
    set kept := c.cache.makeRoom c.pinned
    have hsub : kept.entries.Sublist c.cache.entries := Cache.makeRoom_sublist _ _
    have hpinned : ∀ e ∈ c.cache.entries, c.pinned e.2 = true → e ∈ kept.entries :=
      fun e he hp => mem_makeRoom_of_pinned c hc.nodup he hp
    refine ⟨hfiled, ?_, fun y hy => ?_⟩
    · simp only [List.map_cons]
      refine List.nodup_cons.mpr ⟨fun hmem => ?_, hc.nodup.sublist (hsub.map _)⟩
      obtain ⟨e, he, hea⟩ := List.mem_map.mp hmem
      exact hnone e (hsub.subset he) hea
    · simp only [hold] at hy
      simp only [List.map_cons, List.mem_cons]
      by_cases hyx : y = ⟨c.reg.records.size⟩
      · exact Or.inl hyx
      · rw [if_neg hyx] at hy
        obtain ⟨e, he, rfl⟩ := List.mem_map.mp (hc.cached _ hy)
        exact Or.inr (List.mem_map_of_mem (hpinned e he (by simpa [pinned] using hy)))

/-- Dropping a handle, and evicting down to `t` afterwards or not, keeps the invariant. -/
theorem Inv.of_unhold (hc : c.Inv) (h : Id) {cache : Cache} (hsub : cache.entries.Sublist c.cache.entries)
    (hpinned : ∀ e ∈ c.cache.entries, c.held e.2 - (if e.2 = h then 1 else 0) ≠ 0 → e ∈ cache.entries) :
    Inv ⟨cache, c.reg, unhold c.held h⟩ := by
  refine ⟨Cache.Filed.mono hc.filed (fun e he => hsub.subset he) (Nat.le_refl _) fun _ _ => rfl,
    hc.nodup.sublist (hsub.map _), fun y hy => ?_⟩
  have hy' : c.held y ≠ 0 := fun h0 => hy (by simp [Client.unhold, h0])
  obtain ⟨e, he, rfl⟩ := List.mem_map.mp (hc.cached _ hy')
  refine List.mem_map_of_mem (hpinned e he ?_)
  by_cases heh : e.2 = h
  · simpa [Client.unhold, heh] using hy
  · simpa [Client.unhold, heh] using hy

theorem Inv.step (hc : c.Inv) : ∀ op, (c.step op).2.Inv
  | .get a => hc.get a
  | .lookup _ => hc
  | .decode s => by
    show (match NodeAddr.parse s with
      | .ok a => (Answer.record (c.get a).2 ((c.get a).1.reg.key (c.get a).2), (c.get a).1)
      | .error e => (.error e, c)).2.Inv
    split
    · exact hc.get _
    · exact hc
  | .release h => by
    let c' : Client := { c with held := unhold c.held h }
    show Inv ⟨c'.cache.release c'.pinned, c.reg, unhold c.held h⟩
    unfold Cache.release
    split
    · refine hc.of_unhold h (Cache.evictTo_sublist _ _ _) fun e he hne =>
        mem_evictTo_of_pinned c' hc.nodup he ?_
      by_cases heh : e.2 = h <;> simpa [c', pinned, Client.unhold, heh] using hne
    · exact hc.of_unhold h (List.Sublist.refl _) fun e he _ => he
  | .drop h => hc.of_unhold h (List.Sublist.refl _) fun e he _ => he

theorem abs_unhold (h : Id) :
    Model.unhold h c.abs.entries = (abs ⟨c.cache, c.reg, Client.unhold c.held h⟩).entries := by
  simp only [Model.unhold, abs, List.map_map]
  refine List.map_congr_left fun e _ => ?_
  by_cases heh : e.2 = h <;> simp [entryOf, Client.unhold, heh]

/-- Every operation answers as the model does and leaves a client that reads as the model
after the same operation. -/
theorem abs_step (hc : c.Inv) : ∀ op, c.abs.step op = ((c.step op).1, (c.step op).2.abs)
  | .get a => by
    simp only [Model.step, Client.step, abs_get hc a]
    rfl
  | .lookup a => by
    simp only [Model.step, Client.step, find?_abs, lookup_eq]
    cases c.cache.entries.find? (·.1 == a) <;> rfl
  | .decode s => by
    simp only [Model.step, Client.step]
    split
    · rw [abs_get hc]
      rfl
    · rfl
  | .release h => by
    let c' : Client := ⟨c.cache, c.reg, Client.unhold c.held h⟩
    have hlen : c'.abs.entries.length = c.cache.size := by simp [c', abs, Cache.size]
    have hcap : c.abs.capacity = c.cache.capacity := rfl
    refine Prod.ext rfl ?_
    simp only [Model.step, Client.step, Cache.release, abs_unhold]
    rw [hlen, hcap]
    by_cases hover : c.cache.size > c.cache.capacity
    · rw [if_pos hover, if_pos hover]
      simp only [abs, Model.mk.injEq]
      exact ⟨(capacity_evictTo_go c' _ _ _).symm, (evictTo_entries c' _ _ hc.nodup).symm, trivial⟩
    · rw [if_neg hover, if_neg hover]
      rfl
  | .drop h => by
    simp only [Model.step, Client.step, abs_unhold]
    rfl

theorem Inv.new (max : Nat) : (Client.new max).Inv :=
  ⟨fun _ he => absurd he List.not_mem_nil, List.nodup_nil, fun _ hh => absurd rfl hh⟩

theorem abs_new (max : Nat) : (Client.new max).abs = Model.new max := rfl

/-- A run of operations answers as the model does and ends in a client that reads as the
model's end. -/
theorem abs_exec : ∀ (ops : List Op) (c : Client), c.Inv →
    c.abs.exec ops = ((c.exec ops).1, (c.exec ops).2.abs)
  | [], _, _ => rfl
  | op :: ops, c, hc => by
    simp only [Model.exec, Client.exec, abs_step hc op, abs_exec ops _ (hc.step op)]

theorem Inv.exec : ∀ (ops : List Op) {c : Client}, c.Inv → (c.exec ops).2.Inv
  | [], _, hc => hc
  | op :: ops, _, hc => Inv.exec ops (hc.step op)

/-- Getting an address takes out of the cache only records nobody holds a handle on. -/
theorem Inv.unheld_of_get (hc : c.Inv) (a : NodeAddr) {x : SocketAddr × Id} (hx : x ∈ c.cache.entries)
    (hout : x ∉ (c.get a).1.cache.entries) : (c.get a).1.held x.2 = 0 := by
  cases hf : c.cache.entries.find? (·.1 == a.addr) with
  | some y =>
    rw [get_of_find?_some hf] at hout
    exfalso
    have hy := List.mem_of_find?_eq_some hf
    have hya : y.1 = a.addr := by simpa using List.find?_some hf
    by_cases hxa : x.1 = a.addr
    · have hxy : x = y := List.inj_on_of_nodup_map hc.nodup hx hy (hxa.trans hya.symm)
      subst hxy
      exact hout (List.mem_cons.mpr (Or.inl (by rw [← hya])))
    · exact hout (List.mem_cons_of_mem _ (List.mem_filter.mpr ⟨hx, by simpa using hxa⟩))
  | none =>
    rw [get_of_find?_none hf] at hout ⊢
    have hne : x.2 ≠ ⟨c.reg.records.size⟩ := fun he => by
      have hlt := (hc.filed x hx).1
      rw [he] at hlt
      exact Nat.lt_irrefl _ hlt
    simp only [hold, if_neg hne]
    by_contra hheld
    exact hout (List.mem_cons_of_mem _
      (mem_makeRoom_of_pinned c hc.nodup hx (by simpa [pinned] using hheld)))

/-- No operation takes out of the cache a record that still has a handle after it. -/
theorem Inv.unheld_of_evicted (hc : c.Inv) :
    ∀ op, ∀ x ∈ c.cache.entries, x ∉ (c.step op).2.cache.entries → (c.step op).2.held x.2 = 0
  | .get a, _, hx, hout => hc.unheld_of_get a hx hout
  | .lookup _, _, hx, hout => absurd hx hout
  | .decode s, x, hx, hout => by
    revert hout
    show x ∉ (match NodeAddr.parse s with
      | .ok a => (Answer.record (c.get a).2 ((c.get a).1.reg.key (c.get a).2), (c.get a).1)
      | .error e => (.error e, c)).2.cache.entries → (match NodeAddr.parse s with
      | .ok a => (Answer.record (c.get a).2 ((c.get a).1.reg.key (c.get a).2), (c.get a).1)
      | .error e => (.error e, c)).2.held x.2 = 0
    split
    · exact hc.unheld_of_get _ hx
    · exact fun hout => absurd hx hout
  | .release h, x, hx, hout => by
    let c' : Client := { c with held := unhold c.held h }
    show c'.held x.2 = 0
    change x ∉ (c'.cache.release c'.pinned).entries at hout
    unfold Cache.release at hout
    split at hout
    · by_contra hheld
      exact hout (mem_evictTo_of_pinned c' hc.nodup hx (by simpa [pinned] using hheld))
    · exact absurd hx hout
  | .drop _, _, hx, hout => absurd hx hout

end Client

/-- The host cache refines the pinned LRU registry: from an empty cache, every run of gets,
lookups, decodes, releases and handle drops answers as the model does, identity and key of
every record included, and ends in a cache that reads as the model's, entry for entry and in
recency order. From every state so reached, no operation evicts a record that still has a
handle. -/
theorem cache_refines_model (max : Nat) (ops : List Op) :
    let c := Client.exec ops (Client.new max)
    (Model.new max).exec ops = (c.1, c.2.abs) ∧
      ∀ op, ∀ x ∈ c.2.cache.entries, x ∉ (c.2.step op).2.cache.entries → (c.2.step op).2.held x.2 = 0 := by
  intro c
  refine ⟨?_, (Client.Inv.exec ops (Client.Inv.new max)).unheld_of_evicted⟩
  rw [← Client.abs_new]
  exact Client.abs_exec ops _ (Client.Inv.new max)

end PeerRing.Host.Lru
