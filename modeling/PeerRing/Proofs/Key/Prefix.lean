import PeerRing.Key.Basic
import Mathlib
/-! # Shared digit prefixes

A key is 20 bytes, and each byte holds two hexadecimal digits: the one at the even position in
its high half, the next one in its low half. Two keys therefore agree in a byte exactly when they
agree in both its digits, and `keyIndex`, which compares bytes from the most significant and
looks into the halves of the first pair that differs, counts the longest run of leading digits
on which the keys agree (`keyIndex_spec`, `isGreatest_keyIndex`). The digit at a position is the
key's base-16 digit of that weight, so a key is determined by its 40 digits: `keyIndex` reaches
40 only for a key and itself. The shared prefix ends at the first digit where the keys differ,
so sharing is transitive: two keys that each share `n` digits with a third share `n` digits with
each other.
-/
namespace PeerRing.Key

section Halves

theorem toNat_high (x : UInt8) : (x >>> 4).toNat = x.toNat / 16 := by
  simp [UInt8.toNat_shiftRight, Nat.shiftRight_eq_div_pow]

theorem toNat_low (x : UInt8) : (x &&& 0x0f).toNat = x.toNat % 16 := by
  simpa using Nat.and_two_pow_sub_one_eq_mod x.toNat 4

theorem toNat_halves (x : UInt8) : (x >>> 4).toNat * 16 + (x &&& 0x0f).toNat = x.toNat := by
  rw [toNat_high, toNat_low]
  omega

theorem eq_iff_halves {x y : UInt8} : x = y ↔ x >>> 4 = y >>> 4 ∧ x &&& 0x0f = y &&& 0x0f := by
  refine ⟨fun h => h ▸ ⟨rfl, rfl⟩, fun ⟨hhigh, hlow⟩ => UInt8.toNat_inj.mp ?_⟩
  rw [← toNat_halves x, ← toNat_halves y, hhigh, hlow]

theorem digit_two_mul (k : Key) (j : Nat) : k.digit (2 * j) = (k.byte j >>> 4).toNat := by
  simp [digit]

theorem digit_two_mul_add_one (k : Key) (j : Nat) :
    k.digit (2 * j + 1) = (k.byte j &&& 0x0f).toNat := by
  have hodd : (2 * j + 1) % 2 ≠ 0 := by omega
  have hhalf : (2 * j + 1) / 2 = j := by omega
  simp only [digit, hodd, hhalf, if_false]

theorem digit_lt (k : Key) (i : Nat) : k.digit i < 16 := by
  have hbyte := (k.byte (i / 2)).toNat_lt
  unfold digit
  split
  · rw [toNat_high]
    omega
  · rw [toNat_low]
    omega

/-- Byte `j` of a key is its base-256 digit of weight `256 ^ (19 - j)`. -/
theorem toNat_byte (k : Key) {j : Nat} (hj : j < 20) :
    (k.byte j).toNat = k.val / 256 ^ (19 - j) % 256 := by
  simp [byte, hj, Nat.shiftRight_eq_div_pow, pow_mul]

/-- Digit `i` of a key is its base-16 digit of weight `16 ^ (39 - i)`. -/
theorem digit_eq_val (k : Key) {i : Nat} (hi : i < digits) :
    k.digit i = k.val / 16 ^ (39 - i) % 16 := by
  unfold digits at hi
  rcases Nat.even_or_odd' i with ⟨j, rfl | rfl⟩
  · -- the high half: one more division by sixteen
    have hw : 16 ^ (39 - 2 * j) = 256 ^ (19 - j) * 16 := by
      rw [show 39 - 2 * j = 2 * (19 - j) + 1 by omega, pow_succ, pow_mul]
      norm_num
    rw [digit_two_mul, toNat_high, toNat_byte k (by omega), hw, ← Nat.div_div_eq_div_mul,
      Nat.mod_mul_right_div_self _ 16 16]
  · have hw : 16 ^ (39 - (2 * j + 1)) = 256 ^ (19 - j) := by
      rw [show 39 - (2 * j + 1) = 2 * (19 - j) by omega, pow_mul]
      norm_num
    rw [digit_two_mul_add_one, toNat_low, toNat_byte k (by omega), hw,
      Nat.mod_mod_of_dvd _ (by norm_num)]

theorem byte_eq_iff_digits {a b : Key} {j : Nat} :
    a.byte j = b.byte j ↔
      a.digit (2 * j) = b.digit (2 * j) ∧ a.digit (2 * j + 1) = b.digit (2 * j + 1) := by
  rw [eq_iff_halves, digit_two_mul, digit_two_mul, digit_two_mul_add_one, digit_two_mul_add_one,
    UInt8.toNat_inj, UInt8.toNat_inj]

/-- Keys that agree in their first `j` bytes agree in their first `2 * j` digits. -/
theorem digit_eq_of_byte_eq {a b : Key} {j : Nat} (h : ∀ m < j, a.byte m = b.byte m) :
    ∀ i < 2 * j, a.digit i = b.digit i := by
  intro i hi
  rcases Nat.even_or_odd' i with ⟨m, rfl | rfl⟩
  · exact (byte_eq_iff_digits.mp (h m (by omega))).1
  · exact (byte_eq_iff_digits.mp (h m (by omega))).2

end Halves

section Scan

/-- What the byte scan of `keyIndex` counts: at most all 40 digits, the digits before the count
agree, and the digit at the count, when there is one, differs. -/
theorem keyIndex_spec (a b : Key) :
    a.keyIndex b ≤ digits ∧ (∀ i < a.keyIndex b, a.digit i = b.digit i) ∧
      (a.keyIndex b < digits → a.digit (a.keyIndex b) ≠ b.digit (a.keyIndex b)) := by
  unfold keyIndex
  split
  next j hfind =>
    -- `j` is the first byte position where the keys differ
    obtain ⟨hne, hj, hbefore⟩ := List.find?_range_eq_some.mp hfind
    have hne : a.byte j ≠ b.byte j := by simpa using hne
    have hj : j < 20 := List.mem_range.mp hj
    have hpre := digit_eq_of_byte_eq fun m hm => by simpa using hbefore m hm
    split
    next hhigh =>
      -- the high halves agree, so the keys part at the low half
      have hlow : a.byte j &&& 0x0f ≠ b.byte j &&& 0x0f := fun hlow =>
        hne (eq_iff_halves.mpr ⟨hhigh, hlow⟩)
      refine ⟨by unfold digits; omega, fun i hi => ?_, fun _ => ?_⟩
      · rcases Nat.lt_succ_iff_lt_or_eq.mp hi with hi | rfl
        · exact hpre i hi
        · rw [digit_two_mul, digit_two_mul, hhigh]
      · rw [digit_two_mul_add_one, digit_two_mul_add_one]
        exact fun h => hlow (UInt8.toNat_inj.mp h)
    next hhigh =>
      refine ⟨by unfold digits; omega, hpre, fun _ => ?_⟩
      rw [digit_two_mul, digit_two_mul]
      exact fun h => hhigh (UInt8.toNat_inj.mp h)
  next hnone =>
    have hall : ∀ m < 20, a.byte m = b.byte m := fun m hm => by
      simpa using List.find?_range_eq_none.mp hnone m hm
    exact ⟨Nat.le_refl _, digit_eq_of_byte_eq hall, fun h => absurd h (Nat.lt_irrefl _)⟩

example : (ofNat 0xab12).keyIndex (ofNat 0xab13) = 39 := by decide
example : (ofNat (0x10 <<< 152)).keyIndex (ofNat (0x1f <<< 152)) = 1 := by decide

theorem keyIndex_le (a b : Key) : a.keyIndex b ≤ digits := (keyIndex_spec a b).1

theorem digit_eq_of_lt_keyIndex {a b : Key} {j : Nat} (hj : j < a.keyIndex b) :
    a.digit j = b.digit j :=
  (keyIndex_spec a b).2.1 j hj

/-- Where the shared prefix stops short of the whole key, the digits differ. -/
theorem digit_ne_at_keyIndex {a b : Key} (h : a.keyIndex b < digits) :
    a.digit (a.keyIndex b) ≠ b.digit (a.keyIndex b) :=
  (keyIndex_spec a b).2.2 h

theorem le_keyIndex_of_forall {a b : Key} {n : Nat} (hn : n ≤ digits)
    (h : ∀ j < n, a.digit j = b.digit j) : n ≤ a.keyIndex b := by
  by_contra hlt
  rw [Nat.not_le] at hlt
  exact digit_ne_at_keyIndex (Nat.lt_of_lt_of_le hlt hn) (h _ hlt)

/-- `keyIndex` is the longest run of leading digits, at most all 40, on which two keys agree. -/
theorem isGreatest_keyIndex (a b : Key) :
    IsGreatest {n | n ≤ digits ∧ ∀ i < n, a.digit i = b.digit i} (a.keyIndex b) :=
  ⟨⟨keyIndex_le a b, fun _ => digit_eq_of_lt_keyIndex⟩, fun _ hn => le_keyIndex_of_forall hn.1 hn.2⟩

theorem keyIndex_self (a : Key) : a.keyIndex a = digits :=
  Nat.le_antisymm (keyIndex_le a a) (le_keyIndex_of_forall (Nat.le_refl _) fun _ _ => rfl)

theorem keyIndex_comm (a b : Key) : a.keyIndex b = b.keyIndex a :=
  Nat.le_antisymm
    (le_keyIndex_of_forall (keyIndex_le a b) fun _ hj => (digit_eq_of_lt_keyIndex hj).symm)
    (le_keyIndex_of_forall (keyIndex_le b a) fun _ hj => (digit_eq_of_lt_keyIndex hj).symm)

/-- Two numbers agreeing in their lowest `m` hexadecimal digits agree modulo `16 ^ m`. -/
theorem mod_pow_eq_of_digits {x y : Nat} (h : ∀ j < digits, x / 16 ^ j % 16 = y / 16 ^ j % 16) :
    ∀ m ≤ digits, x % 16 ^ m = y % 16 ^ m
  | 0, _ => by simp [Nat.mod_one]
  | m + 1, hm => by
    rw [Nat.mod_pow_succ, Nat.mod_pow_succ, mod_pow_eq_of_digits h m (by omega),
      h m (by omega)]

theorem eq_of_keyIndex_eq {a b : Key} (h : a.keyIndex b = digits) : a = b := by
  have hdig : ∀ j < digits, a.val / 16 ^ j % 16 = b.val / 16 ^ j % 16 := by
    intro j hj
    have hpos : 39 - j < digits := by unfold digits at *; omega
    have hd : a.digit (39 - j) = b.digit (39 - j) := digit_eq_of_lt_keyIndex (h ▸ hpos)
    have hj' : 39 - (39 - j) = j := by unfold digits at hj; omega
    rwa [digit_eq_val a hpos, digit_eq_val b hpos, hj'] at hd
  have hmod := mod_pow_eq_of_digits hdig digits (Nat.le_refl _)
  have hsize : 16 ^ digits = size := by decide
  rw [hsize, Nat.mod_eq_of_lt a.val_lt, Nat.mod_eq_of_lt b.val_lt] at hmod
  exact ext_val hmod

theorem keyIndex_eq_digits_iff {a b : Key} : a.keyIndex b = digits ↔ a = b :=
  ⟨eq_of_keyIndex_eq, fun h => h ▸ keyIndex_self a⟩

theorem keyIndex_lt_of_ne {a b : Key} (h : a ≠ b) : a.keyIndex b < digits :=
  Nat.lt_of_le_of_ne (keyIndex_le a b) fun he => h (eq_of_keyIndex_eq he)

/-- `keyIndex` counts the longest run of leading digits on which two keys agree: it reaches 40
exactly for a key and itself, it does not depend on the order of the two keys, and below 40 the
keys differ in the digit at that position. -/
theorem keyIndex_counts_longest_shared_digits (a b : Key) :
    IsGreatest {n | n ≤ digits ∧ ∀ i < n, a.digit i = b.digit i} (a.keyIndex b) ∧
      (a.keyIndex b = digits ↔ a = b) ∧ a.keyIndex b = b.keyIndex a ∧
      (a.keyIndex b < digits → a.digit (a.keyIndex b) ≠ b.digit (a.keyIndex b)) :=
  ⟨isGreatest_keyIndex a b, keyIndex_eq_digits_iff, keyIndex_comm a b, digit_ne_at_keyIndex⟩

end Scan

theorem le_keyIndex_trans {a b c : Key} {n : Nat} (hab : n ≤ a.keyIndex b)
    (hbc : n ≤ b.keyIndex c) : n ≤ a.keyIndex c :=
  le_keyIndex_of_forall (hab.trans (keyIndex_le a b)) fun _ hj =>
    (digit_eq_of_lt_keyIndex (Nat.lt_of_lt_of_le hj hab)).trans
      (digit_eq_of_lt_keyIndex (Nat.lt_of_lt_of_le hj hbc))

/-- Once two keys share `i` digits, they share more exactly when their digits at `i` agree. -/
theorem lt_keyIndex_iff {a b : Key} {i : Nat} (hi : i < digits) (hle : i ≤ a.keyIndex b) :
    i < a.keyIndex b ↔ a.digit i = b.digit i := by
  refine ⟨digit_eq_of_lt_keyIndex, fun he => Nat.lt_of_le_of_ne hle fun heq => ?_⟩
  exact digit_ne_at_keyIndex (heq ▸ hi) (heq ▸ he)

/-- A key `b` sharing more digits with `c` than `a` does shares with `a` exactly the prefix
that `a` shares with `c`. -/
theorem keyIndex_eq_of_lt_keyIndex {a b c : Key} (h : a.keyIndex c < b.keyIndex c) :
    a.keyIndex b = a.keyIndex c := by
  have hlt : a.keyIndex c < digits := Nat.lt_of_lt_of_le h (keyIndex_le b c)
  have hcb : a.keyIndex c ≤ c.keyIndex b := by
    rw [keyIndex_comm c b]
    exact Nat.le_of_lt h
  refine Nat.le_antisymm (Nat.not_lt.mp fun hgt => ?_) (le_keyIndex_trans (Nat.le_refl _) hcb)
  -- past the prefix of `a` and `c`, the digit of `a` would agree with `b`'s and so with `c`'s
  exact digit_ne_at_keyIndex hlt
    ((digit_eq_of_lt_keyIndex hgt).trans (digit_eq_of_lt_keyIndex h))

end PeerRing.Key
