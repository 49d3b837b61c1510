import PeerRing.Host.Cache
import PeerRing.Proofs.Host.Registry
import Mathlib
/-! # Records the host cache hands out

The cache files each record under the address of that record. Getting a host address keeps this
so, whatever it evicts, and answers a record at that address: either a fresh one made from the
address, or the record filed there, given the asked key when the address carries one. No other
record of the registry changes.
-/
namespace PeerRing.Host

namespace Registry

theorem get_modify_self (reg : Registry) {h : Id} (hh : h.idx < reg.records.size)
    (f : Record → Record) : (reg.modify h f).get h = f (reg.get h) := by
  simp [get, modify, Array.getD_eq_getD_getElem?, Array.getElem?_modify,
    Array.getElem?_eq_getElem hh]

theorem get_create (reg : Registry) (a : NodeAddr) (h : Id) :
    (reg.create a).1.get h = if h.idx = reg.records.size then Record.ofNodeAddr a else reg.get h := by
  simp only [get, create, Array.getD_eq_getD_getElem?, Array.getElem?_push]
  split <;> rfl

@[simp] theorem size_create (reg : Registry) (a : NodeAddr) :
    (reg.create a).1.records.size = reg.records.size + 1 :=
  Array.size_push _

@[simp] theorem idx_create (reg : Registry) (a : NodeAddr) : (reg.create a).2.idx = reg.records.size :=
  rfl

@[simp] theorem size_modify (reg : Registry) (h : Id) (f : Record → Record) :
    (reg.modify h f).records.size = reg.records.size := by
  simp [modify]

theorem key_create_of_lt {reg : Registry} {x : Id} (a : NodeAddr) (hx : x.idx < reg.records.size) :
    (reg.create a).1.key x = reg.key x := by
  simp [key, get_create, Nat.ne_of_lt hx]

theorem key_create_self {reg : Registry} (a : NodeAddr) :
    (reg.create a).1.key ⟨reg.records.size⟩ = a.key := by
  simp [key, get_create, Record.ofNodeAddr]

theorem modify_of_get {reg : Registry} {h : Id} {f : Record → Record}
    (hf : h.idx < reg.records.size → f (reg.get h) = reg.get h) : reg.modify h f = reg := by
  cases reg with
  | mk records =>
    simp only [modify, mk.injEq]
    apply Array.ext (Array.size_modify)
    intro i _ hi
    rw [Array.getElem_modify]
    split
    next he =>
      subst he
      have hget : (⟨records⟩ : Registry).get h = records[h.idx] := by
        simp [get, Array.getD_eq_getD_getElem?, Array.getElem?_eq_getElem hi]
      rw [← hget, hf hi]
    next => rfl

theorem setKey_of_not_lt {reg : Registry} {h : Id} (hh : ¬ h.idx < reg.records.size) (k : Key) :
    reg.setKey h k = reg :=
  modify_of_get fun hlt => absurd hlt hh

/-- The registry once the filed record `h` is asked for under the key `k`: the record takes `k`
when `k` is not zero and differs from the key it has. -/
def offerKey (reg : Registry) (h : Id) (k : Key) : Registry :=
  if !k.isZero && reg.key h != k then reg.setKey h k else reg

section OfferKey

variable {reg : Registry} {h : Id} {k : Key}

@[simp] theorem size_offerKey : (reg.offerKey h k).records.size = reg.records.size := by
  unfold offerKey
  split
  · exact size_modify _ _ _
  · rfl

@[simp] theorem addr_offerKey (h' : Id) : (reg.offerKey h k).addr h' = reg.addr h' := by
  unfold offerKey
  split
  · exact addr_setKey reg h h' k
  · rfl

theorem get_offerKey_of_ne {h' : Id} (hne : h' ≠ h) : (reg.offerKey h k).get h' = reg.get h' := by
  unfold offerKey
  split
  · exact get_modify_of_ne reg _ hne
  · rfl

/-- A held record keeps its key under the zero key and takes any other. -/
theorem get_offerKey_self (hlt : h.idx < reg.records.size) :
    (reg.offerKey h k).get h = { reg.get h with key := if k.isZero then reg.key h else k } := by
  unfold offerKey
  split
  next hcond =>
    have hz : k.isZero = false := by simpa using ((Bool.and_eq_true _ _).mp hcond).1
    rw [setKey, get_modify_self reg hlt, hz]
    rfl
  next hcond =>
    cases hz : k.isZero
    · have hk : reg.key h = k := by simpa [hz] using hcond
      simp [← hk, key]
    · simp [key]

theorem key_offerKey_self (hlt : h.idx < reg.records.size) :
    (reg.offerKey h k).key h = if k.isZero then reg.key h else k := by
  rw [key, get_offerKey_self hlt]

/-- Nothing changes when the key is zero, already the record's, or the record is not held. -/
theorem offerKey_eq_self (hk : k.isZero = true ∨ reg.key h = k ∨ ¬ h.idx < reg.records.size) :
    reg.offerKey h k = reg := by
  unfold offerKey
  rcases hk with hz | hk | hlt
  · simp [hz]
  · simp [hk]
  · split
    · exact setKey_of_not_lt hlt k
    · rfl

end OfferKey

end Registry

namespace Cache

open Net

/-- Every entry of the cache names a record the registry holds, at the entry's address. -/
def Filed (reg : Registry) (c : Cache) : Prop :=
  ∀ e ∈ c.entries, e.2.idx < reg.records.size ∧ reg.addr e.2 = e.1

theorem Filed.mono {reg reg' : Registry} {c c' : Cache} (hf : Filed reg c)
    (hsub : ∀ e ∈ c'.entries, e ∈ c.entries) (hsize : reg.records.size ≤ reg'.records.size)
    (hget : ∀ h, h.idx < reg.records.size → reg'.addr h = reg.addr h) : Filed reg' c' := by
  intro e he
  obtain ⟨hlt, haddr⟩ := hf e (hsub e he)
  exact ⟨Nat.lt_of_lt_of_le hlt hsize, (hget e.2 hlt).trans haddr⟩

theorem evictTo_go_sublist (pinned : Id → Bool) (target : Nat) :
    ∀ (fuel : Nat) (c : Cache), (evictTo.go pinned target fuel c).entries.Sublist c.entries
  | 0, _ => List.Sublist.refl _
  | fuel + 1, c => by
    unfold evictTo.go
    split
    · exact List.Sublist.refl _
    · split
      · exact (evictTo_go_sublist pinned target fuel _).trans List.filter_sublist
      · exact List.Sublist.refl _

theorem evictTo_sublist (pinned : Id → Bool) (target : Nat) (c : Cache) :
    (evictTo pinned target c).entries.Sublist c.entries :=
  evictTo_go_sublist pinned target _ c

theorem mem_of_lookup {c : Cache} {a : SocketAddr} {h : Id} (hl : c.lookup a = some h) :
    (a, h) ∈ c.entries := by
  obtain ⟨e, he, rfl⟩ := Option.map_eq_some_iff.mp hl
  have hkey : e.1 = a := by simpa using List.find?_some he
  rw [← hkey]
  exact List.mem_of_find?_eq_some he

theorem not_mem_of_lookup_none {c : Cache} {a : SocketAddr} (hl : c.lookup a = none) :
    ∀ e ∈ c.entries, e.1 ≠ a := by
  have hfind : c.entries.find? (·.1 == a) = none := by simpa [lookup] using hl
  intro e he hea
  simpa [hea] using List.find?_eq_none.mp hfind e he

/-- The cache once room is made for a new entry: when it is full, unpinned entries are evicted
from the least recent end until a place is free. -/
def makeRoom (c : Cache) (pinned : Id → Bool) : Cache :=
  if c.size ≥ c.capacity then evictTo pinned (c.capacity - 1) c else c

theorem makeRoom_sublist (c : Cache) (pinned : Id → Bool) :
    (c.makeRoom pinned).entries.Sublist c.entries := by
  unfold makeRoom
  split
  · exact evictTo_sublist _ _ _
  · exact List.Sublist.refl _

section GetHost

variable {c : Cache} {reg : Registry} {a : NodeAddr} {pinned : Id → Bool}

/-- A filed address: its entry moves to the front and its record is offered the asked key. -/
theorem getHost_of_lookup_some {h : Id} (hl : c.lookup a.addr = some h) :
    c.getHost reg a pinned =
      ({ c with entries := (a.addr, h) :: c.entries.filter (·.1 != a.addr) }, reg.offerKey h a.key,
        h) := by
  unfold getHost
  rw [hl]
  rfl

/-- A new address: room is made and a fresh record goes in front. -/
theorem getHost_of_lookup_none (hl : c.lookup a.addr = none) :
    c.getHost reg a pinned =
      ({ c.makeRoom pinned with
          entries := (a.addr, (reg.create a).2) :: (c.makeRoom pinned).entries },
        (reg.create a).1, (reg.create a).2) := by
  unfold getHost
  rw [hl]
  rfl

variable (a pinned) in
/-- What `getHost` answers: a fresh record made from the address, or the record filed there,
given the asked key when the address carries one. Every other record stays as it was. -/
theorem getHost_spec (hf : Filed reg c) :
    let r := c.getHost reg a pinned
    Filed r.2.1 r.1 ∧ (∀ h, h ≠ r.2.2 → r.2.1.get h = reg.get h) ∧
      (r.2.1.get r.2.2 = Record.ofNodeAddr a ∧ reg.get r.2.2 = default ∨
        (r.2.2.idx < reg.records.size ∧ reg.addr r.2.2 = a.addr ∧
          r.2.1.get r.2.2 =
            { reg.get r.2.2 with key := if a.key.isZero then reg.key r.2.2 else a.key })) := by
  intro r
  unfold r
  cases hl : c.lookup a.addr with
  | some h =>
    obtain ⟨hlt, haddr⟩ := hf _ (mem_of_lookup hl)
    rw [getHost_of_lookup_some hl]
    refine ⟨fun e he => ?_, fun h' hne => Registry.get_offerKey_of_ne hne,
      Or.inr ⟨hlt, haddr, Registry.get_offerKey_self hlt⟩⟩
    rcases List.mem_cons.mp he with rfl | he
    · exact ⟨by simpa using hlt, by simpa using haddr⟩
    · obtain ⟨hlt', haddr'⟩ := hf e (List.mem_filter.mp he).1
      exact ⟨by simpa using hlt', by simpa using haddr'⟩
  | none =>
    have hold : ∀ h, h.idx < reg.records.size → (reg.create a).1.get h = reg.get h := by
      intro h hh
      rw [Registry.get_create, if_neg (Nat.ne_of_lt hh)]
    rw [getHost_of_lookup_none hl]
    refine ⟨fun e he => ?_, fun h hne => ?_, Or.inl ⟨?_, ?_⟩⟩
    · rcases List.mem_cons.mp he with rfl | he
      · refine ⟨by simp, ?_⟩
        simp [Registry.addr, Registry.get_create, Record.ofNodeAddr]
      · obtain ⟨hlt, haddr⟩ := hf e ((makeRoom_sublist c pinned).subset he)
        refine ⟨by simp; omega, ?_⟩
        unfold Registry.addr
        rw [hold _ hlt]
        exact haddr
    · rw [Registry.get_create, if_neg]
      intro hidx
      apply hne
      cases h
      simp only at hidx
      rw [hidx]
      rfl
    · simp [Registry.get_create]
    · simp [Registry.get, Array.getD_eq_getD_getElem?]

end GetHost

section Again

variable {c : Cache} {reg : Registry} {a : NodeAddr}

/-- A cache whose newest entry files `h` under the address, and no other entry under it, hands
out `h` again and stays as it is, when the record needs no new key. -/
theorem getHost_of_head {h : Id} {rest : List (SocketAddr × Id)}
    (hc : c.entries = (a.addr, h) :: rest) (hrest : ∀ e ∈ rest, e.1 ≠ a.addr)
    (hkey : a.key.isZero = true ∨ reg.key h = a.key ∨ ¬ h.idx < reg.records.size)
    (pinned : Id → Bool) : c.getHost reg a pinned = (c, reg, h) := by
  have hl : c.lookup a.addr = some h := by simp [lookup, hc]
  have hfilter : c.entries.filter (·.1 != a.addr) = rest := by
    rw [hc, List.filter_cons_of_neg (by simp), List.filter_eq_self]
    intro e he
    simpa using hrest e he
  rw [getHost_of_lookup_some hl, hfilter, Registry.offerKey_eq_self hkey, ← hc]

theorem lookup_getHost (pinned : Id → Bool) :
    (c.getHost reg a pinned).1.lookup a.addr = some (c.getHost reg a pinned).2.2 := by
  cases hl : c.lookup a.addr with
  | some h =>
    rw [getHost_of_lookup_some hl]
    simp [lookup]
  | none =>
    rw [getHost_of_lookup_none hl]
    simp [lookup]

/-- The record answered for an address has the asked key, unless the address carries none or
the registry does not hold the record. -/
theorem key_getHost (pinned : Id → Bool) :
    a.key.isZero = true ∨ (c.getHost reg a pinned).2.1.key (c.getHost reg a pinned).2.2 = a.key ∨
      ¬ (c.getHost reg a pinned).2.2.idx < (c.getHost reg a pinned).2.1.records.size := by
  cases hl : c.lookup a.addr with
  | some h =>
    rw [getHost_of_lookup_some hl]
    by_cases hz : a.key.isZero = true
    · exact Or.inl hz
    by_cases hlt : h.idx < reg.records.size
    · exact Or.inr (Or.inl (by rw [Registry.key_offerKey_self hlt, if_neg hz]))
    · exact Or.inr (Or.inr (by simpa using hlt))
  | none =>
    rw [getHost_of_lookup_none hl]
    exact Or.inr (Or.inl (Registry.key_create_self a))

/-- Getting a host address a second time, right after the first, answers the same record and
changes nothing: the first left the address in front, alone, and its record with its key. -/
theorem getHost_getHost (pinned pinned' : Id → Bool) :
    (c.getHost reg a pinned).1.getHost (c.getHost reg a pinned).2.1 a pinned' =
      c.getHost reg a pinned := by
  have hkey := @key_getHost c reg a pinned
  cases hl : c.lookup a.addr with
  | some h =>
    rw [getHost_of_lookup_some hl] at hkey ⊢
    exact getHost_of_head rfl (fun e he => by simpa using (List.mem_filter.mp he).2) hkey pinned'
  | none =>
    -- nothing was filed under the address, so nothing eviction keeps is
    rw [getHost_of_lookup_none hl] at hkey ⊢
    exact getHost_of_head rfl
      (fun e he => not_mem_of_lookup_none hl e ((makeRoom_sublist c pinned).subset he)) hkey pinned'

/-- An address filed under a record that has the asked key: getting it changes no record. -/
theorem getHost_of_settled {h : Id} (hl : c.lookup a.addr = some h)
    (hkey : a.key.isZero = true ∨ reg.key h = a.key ∨ ¬ h.idx < reg.records.size)
    (pinned : Id → Bool) : (c.getHost reg a pinned).2 = (reg, h) := by
  rw [getHost_of_lookup_some hl, Registry.offerKey_eq_self hkey]

/-- Getting a bare socket address gives no record another key. -/
theorem key_getHost_unkeyed (hf : Filed reg c) (s : SocketAddr) (pinned : Id → Bool) (h : Id) :
    (c.getHost reg (NodeAddr.unkeyed s) pinned).2.1.key h = reg.key h := by
  obtain ⟨-, hother, hself⟩ := getHost_spec (NodeAddr.unkeyed s) pinned hf
  by_cases hh : h = (c.getHost reg (NodeAddr.unkeyed s) pinned).2.2
  · rw [hh]
    rcases hself with ⟨hnew, hold⟩ | ⟨-, -, hget⟩
    · simp only [Registry.key, hnew, hold]
      rfl
    · simp only [Registry.key, hget]
      rfl
  · simp only [Registry.key, hother h hh]

end Again

end Cache

end PeerRing.Host
