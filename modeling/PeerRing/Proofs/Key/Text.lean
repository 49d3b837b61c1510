import PeerRing.Key.Text
import PeerRing.Proofs.Key.Prefix
import PeerRing.Proofs.Text.Digits
import Mathlib
/-! # Key text read back

The 40 digits a key is written as read back as that key. They are no blanks, so trimming keeps
them; the second is no `x`, so no `0x` is dropped; each is one byte of UTF-8, so the text has
exactly 40 bytes and needs no padding; and the digits, most significant first, make up the
key's value.
-/
namespace PeerRing.Key

open Text

theorem utf8Bytes_hexChar (ds : List Nat) (h : ∀ d ∈ ds, d < 16) :
    utf8Bytes (ds.map hexChar) = ds.map fun d => (hexChar d).toNat.toUInt8 := by
  induction ds with
  | nil => rfl
  | cons d ds ih =>
    have hd := hexChar_facts d (h d List.mem_cons_self)
    simp only [List.map_cons, utf8Bytes, List.flatMap_cons, hd.2.2.1, List.singleton_append,
      List.cons.injEq, true_and]
    exact ih fun d' hd' => h d' (List.mem_cons_of_mem d hd')

/-- The text of a key: one digit per position, most significant first. -/
theorem toList_toHex (k : Key) :
    (toHex k).toList = ((List.range digits).map k.digit).map hexChar := by
  simp [toHex, List.map_map, Function.comp_def]

theorem hexNumber_digit (k : Key) : hexNumber ((List.range digits).map k.digit) = k.val := by
  have hdigits : (List.range digits).map k.digit =
      (List.range 40).reverse.map fun i => k.val / 16 ^ i % 16 := by
    rw [map_range_reverse]
    apply List.map_congr_left
    intro i hi
    rw [List.mem_range] at hi
    simp [digit_eq_val k hi]
  have hlt : k.val < 16 ^ 40 := by
    have := k.bits.isLt
    simpa [val] using this
  rw [hdigits, hexNumber, foldl_digits, Nat.mod_eq_of_lt hlt]

theorem ofHex_toHex (k : Key) : ofHex (toHex k) = .ok k := by
  have hds : ∀ d ∈ (List.range digits).map k.digit, d < 16 := by
    intro d hd
    obtain ⟨i, -, rfl⟩ := List.mem_map.mp hd
    exact digit_lt k i
  -- the second digit is no `x`, so no `0x` is taken off
  have hbody : hexBody (toHex k) = ((List.range digits).map k.digit).map hexChar := by
    have hblank : ∀ c ∈ (toHex k).toList, isBlank c = false := by
      rw [toList_toHex]
      intro c hc
      obtain ⟨d, hd, rfl⟩ := List.mem_map.mp hc
      exact (hexChar_facts d (hds d hd)).1
    have htrim := trimBlankList_of_forall hblank
    unfold hexBody
    rw [htrim, toList_toHex]
    split
    next rest heq =>
      have hsecond := congrArg (·[1]?) heq
      simp only [List.getElem?_cons_succ, List.getElem?_cons_zero, List.getElem?_map,
        List.getElem?_range (by decide : 1 < digits), Option.map_some] at hsecond
      exact absurd (Option.some.inj hsecond) (hexChar_facts _ (digit_lt k 1)).2.1
    next => rfl
  have hlen : ((List.range digits).map k.digit).length = 40 := by simp [digits]
  have hread := readHexWidth_hexChar 20 _ hds hlen
  rw [hexNumber_digit] at hread
  have hpad : ∀ bytes : List UInt8, List.replicate (digits - 40) 48 ++ bytes = bytes := fun _ => rfl
  simp only [ofHex, hbody, utf8Bytes_hexChar _ hds, List.length_map, hlen, hpad, hread]
  simp [digits, ofNat, val]

end PeerRing.Key
