import PeerRing.Host.Record
import Mathlib
/-! # Keys in the registry

Changing one record leaves every other record as it was. Giving a record a key changes the key
read for that record alone, and changing its statistics changes no key at all.
-/
namespace PeerRing.Host.Registry

theorem get_modify_of_ne (reg : Registry) {h h' : Id} (f : Record → Record) (hne : h' ≠ h) :
    (reg.modify h f).get h' = reg.get h' := by
  have hidx : h.idx ≠ h'.idx := fun he => hne (by cases h; cases h'; simp_all)
  simp only [get, modify, Array.getD_eq_getD_getElem?, Array.getElem?_modify, if_neg hidx]

theorem key_setKey_of_ne (reg : Registry) {h h' : Id} (k : Key) (hne : h' ≠ h) :
    (reg.setKey h k).key h' = reg.key h' := by
  unfold key setKey
  rw [get_modify_of_ne reg _ hne]

theorem key_setKey_self (reg : Registry) (h : Id) (k : Key) :
    (reg.setKey h k).key h = k ∨ (reg.setKey h k).key h = reg.key h := by
  simp only [key, get, setKey, modify, Array.getD_eq_getD_getElem?, Array.getElem?_modify]
  cases reg.records[h.idx]? with
  | none => exact Or.inr rfl
  | some r => exact Or.inl rfl

theorem key_setKey_of_lt (reg : Registry) {h : Id} (k : Key) (hlt : h.idx < reg.records.size) :
    (reg.setKey h k).key h = k := by
  simp [key, get, setKey, modify, Array.getD_eq_getD_getElem?, Array.getElem_modify, hlt]

@[simp] theorem addr_setKey (reg : Registry) (h h' : Id) (k : Key) :
    (reg.setKey h k).addr h' = reg.addr h' := by
  by_cases hne : h' = h
  · subst hne
    simp only [addr, get, setKey, modify, Array.getD_eq_getD_getElem?, Array.getElem?_modify]
    cases reg.records[h'.idx]? <;> rfl
  · rw [addr, setKey, get_modify_of_ne reg _ hne]
    rfl

theorem modifyStats_addr_key (reg : Registry) (h h' : Id) (f : Stats → Stats) :
    ((reg.modifyStats h f).get h').addr = (reg.get h').addr ∧
      ((reg.modifyStats h f).get h').key = (reg.get h').key := by
  by_cases hne : h' = h
  · subst hne
    simp only [get, modifyStats, modify, Array.getD_eq_getD_getElem?, Array.getElem?_modify]
    cases reg.records[h'.idx]? <;> exact ⟨rfl, rfl⟩
  · rw [modifyStats, get_modify_of_ne reg _ hne]
    exact ⟨rfl, rfl⟩

@[simp] theorem key_modifyStats (reg : Registry) (h h' : Id) (f : Stats → Stats) :
    (reg.modifyStats h f).key h' = reg.key h' :=
  (modifyStats_addr_key reg h h' f).2

@[simp] theorem addr_modifyStats (reg : Registry) (h h' : Id) (f : Stats → Stats) :
    (reg.modifyStats h f).addr h' = reg.addr h' :=
  (modifyStats_addr_key reg h h' f).1

end PeerRing.Host.Registry
