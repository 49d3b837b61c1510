import PeerRing.Key.Basic
import PeerRing.Proofs.Text.Digits
import PeerRing.Proofs.Key.Prefix
import Mathlib
/-! # Keys as bytes

A key is kept as 20 bytes, most significant first, and they write its number: a byte counts 256
times for each byte after it. Byte `j` of the list is the byte `Key.byte j` that the digits are
read from. The carry loop adds two keys position by position from the least
significant byte, and after each turn the bytes written so far, with the carry counted at 256
to the power of their number, make up the sum of the positions passed. After all 20 positions
the bytes hold the sum modulo 2^160, the last carry being dropped. The borrow loop works the
same way for differences, a borrow standing for what the difference owes the next position.
Comparing the bytes from the most significant compares the numbers, since a byte outweighs
everything after it.
-/
namespace PeerRing.Key

theorem size_eq : size = 1461501637330902918203684832716283019655932542976 := rfl

section Value

/-- The number that big-endian bytes write. -/
def bytesValue (bytes : List UInt8) : Nat :=
  bytes.foldl (fun acc b => acc * 256 + b.toNat) 0

theorem bytesValue_eq (bs : List UInt8) :
    bytesValue bs = (bs.map UInt8.toNat).foldl (fun acc d => acc * 256 + d) 0 := by
  rw [bytesValue, List.foldl_map]

theorem bytesValue_cons (b : UInt8) (bs : List UInt8) :
    bytesValue (b :: bs) = b.toNat * 256 ^ bs.length + bytesValue bs := by
  rw [bytesValue_eq, bytesValue_eq, List.map_cons, Text.foldl_positional_cons, List.length_map]

theorem bytesValue_append (xs ys : List UInt8) :
    bytesValue (xs ++ ys) = bytesValue xs * 256 ^ ys.length + bytesValue ys := by
  rw [bytesValue, List.foldl_append, ← List.foldl_map, Text.foldl_positional, List.foldl_map]
  simp [bytesValue]

theorem bytesValue_lt (bs : List UInt8) : bytesValue bs < 256 ^ bs.length := by
  have hdigits : ∀ d ∈ bs.map UInt8.toNat, d < 256 := by
    intro d hd
    obtain ⟨b, -, rfl⟩ := List.mem_map.mp hd
    exact b.toNat_lt
  rw [bytesValue_eq, ← List.length_map UInt8.toNat]
  exact Text.foldl_positional_lt hdigits

/-- The bytes of a word, put in front of others, count as the word's lowest bytes. -/
theorem bytesValue_wordBytes (w : UInt64) (n : Nat) (rest : List UInt8) :
    bytesValue (wordBytes w n rest) = w.toNat % 256 ^ n * 256 ^ rest.length + bytesValue rest ∧
      (wordBytes w n rest).length = n + rest.length := by
  induction n generalizing w rest with
  | zero => simp [wordBytes, Nat.mod_one]
  | succ n ih =>
    obtain ⟨hv, hl⟩ := ih (w >>> 8) (w.toUInt8 :: rest)
    rw [wordBytes, hv, hl, bytesValue_cons, List.length_cons]
    refine ⟨?_, by omega⟩
    have hshift : (w >>> 8).toNat = w.toNat / 256 := by
      simp [UInt64.toNat_shiftRight, Nat.shiftRight_eq_div_pow]
    have hlow : w.toUInt8.toNat = w.toNat % 256 := by simp [UInt64.toNat_toUInt8]
    rw [hshift, hlow, pow_succ 256 n, Nat.mul_comm (256 ^ n) 256, Nat.mod_mul, pow_succ]
    ring

theorem length_bytes (k : Key) : k.bytes.length = 20 := by
  simp [bytes, (bytesValue_wordBytes _ _ _).2]

theorem bytesValue_bytes (k : Key) : bytesValue k.bytes = k.val := by
  have hlt : k.val < 2 ^ 160 := k.val_lt
  simp only [bytes, (bytesValue_wordBytes _ _ _).1, (bytesValue_wordBytes _ _ _).2]
  simp [Nat.shiftRight_eq_div_pow, bytesValue]
  omega

/-- Up to eight bytes fit in a word, which holds their number. -/
theorem toNat_wordOf {bs : List UInt8} (h : bs.length ≤ 8) :
    (wordOf bs).toNat = bytesValue bs := by
  induction bs using List.reverseRecOn with
  | nil => rfl
  | append_singleton bs b ih =>
    have hlen : bs.length ≤ 7 := by simp at h; omega
    have hv := ih (by omega)
    have hlt : bytesValue bs < 256 ^ 7 :=
      (bytesValue_lt bs).trans_le (Nat.pow_le_pow_right (by decide) hlen)
    have hb := b.toNat_lt
    rw [wordOf, List.foldl_append, ← wordOf, bytesValue_append, ← hv]
    simp only [List.foldl_cons, List.foldl_nil, List.length_singleton, pow_one, bytesValue,
      Nat.zero_mul, Nat.zero_add]
    rw [← hv] at hlt
    simp [UInt64.toNat_add, UInt64.toNat_mul, UInt8.toNat_toUInt64]
    omega

theorem val_ofBytes {bs : List UInt8} (h : bs.length = 20) : (ofBytes bs).val = bytesValue bs := by
  have hsplit : bs = bs.take 4 ++ ((bs.drop 4).take 8 ++ bs.drop 12) := by
    rw [show 12 = 4 + 8 from rfl, ← List.drop_drop, List.take_append_drop, List.take_append_drop]
  have h1 := @toNat_wordOf (bs.take 4) (by simp)
  have h2 := @toNat_wordOf ((bs.drop 4).take 8) (by simp)
  have h3 := @toNat_wordOf (bs.drop 12) (by simp; omega)
  have l2 : ((bs.drop 4).take 8).length = 8 := by simp; omega
  have l3 : (bs.drop 12).length = 8 := by simp; omega
  have b1 := bytesValue_lt (bs.take 4)
  have b2 := bytesValue_lt ((bs.drop 4).take 8)
  have b3 := bytesValue_lt (bs.drop 12)
  rw [l2] at b2
  rw [l3] at b3
  simp only [List.length_take, h] at b1
  conv_rhs => rw [hsplit, bytesValue_append, bytesValue_append, List.length_append, l2, l3]
  simp only [ofBytes, val, ofNat, BitVec.toNat_ofNat, Nat.shiftLeft_eq, h1, h2, h3]
  norm_num at b1 b2 b3 ⊢
  omega

/-- Byte `j` of big-endian bytes is the base-256 digit of weight `256 ^ (n - 1 - j)` of the
number they write, `n` being their count. -/
theorem toNat_getElem_eq_bytesValue (bs : List UInt8) {j : Nat} (hj : j < bs.length) :
    bs[j].toNat = bytesValue bs / 256 ^ (bs.length - 1 - j) % 256 := by
  induction bs generalizing j with
  | nil => simp at hj
  | cons b bs ih =>
    have hrest := bytesValue_lt bs
    rw [bytesValue_cons]
    cases j with
    | zero =>
      -- the leading byte: all the bytes after it count for less than its weight
      have hpos : 0 < 256 ^ bs.length := by positivity
      simp only [List.getElem_cons_zero, List.length_cons, Nat.add_sub_cancel, Nat.sub_zero]
      rw [Nat.add_comm, Nat.add_mul_div_right _ _ hpos, Nat.div_eq_of_lt hrest, Nat.zero_add,
        Nat.mod_eq_of_lt b.toNat_lt]
    | succ j =>
      -- a later byte: the leading one counts a multiple of 256 at this byte's weight
      have hj : j < bs.length := by simpa using hj
      have hw : 256 ^ bs.length = 256 ^ (bs.length - 1 - j) * 256 ^ (j + 1) := by
        rw [← pow_add]
        congr 1
        omega
      have hpos : 0 < 256 ^ (bs.length - 1 - j) := by positivity
      simp only [List.getElem_cons_succ, List.length_cons]
      rw [ih hj, show bs.length + 1 - 1 - (j + 1) = bs.length - 1 - j by omega, hw,
        ← Nat.mul_assoc, Nat.mul_comm _ (256 ^ (bs.length - 1 - j)), Nat.mul_assoc, Nat.add_comm,
        Nat.add_mul_div_left _ _ hpos, pow_succ, ← Nat.mul_assoc, Nat.add_mul_mod_self_right]

/-- The bytes the carry and borrow loops and the order read are the bytes the digits are read
from. -/
theorem getElem_bytes (k : Key) {j : Nat} (hj : j < k.bytes.length) : k.bytes[j] = k.byte j := by
  have hj' : j < 20 := length_bytes k ▸ hj
  apply UInt8.toNat_inj.mp
  rw [toNat_getElem_eq_bytesValue _ hj, bytesValue_bytes, length_bytes, toNat_byte k hj']

theorem map_fst_zip_bytes (a b : Key) : (a.bytes.zip b.bytes).map Prod.fst = a.bytes :=
  List.map_fst_zip (by simp [length_bytes])

theorem map_snd_zip_bytes (a b : Key) : (a.bytes.zip b.bytes).map Prod.snd = b.bytes :=
  List.map_snd_zip (by simp [length_bytes])

theorem length_zip_bytes (a b : Key) : (a.bytes.zip b.bytes).length = 20 := by
  simp [length_bytes]

end Value

section Carry

/-- One turn of the carry loop: the byte it writes and 256 times the carry it passes on make up
the two bytes and the carry it took. -/
theorem addStep_spec (a b : UInt8) (c : UInt16) (out : List UInt8) (hc : c.toNat ≤ 1) :
    ∃ c' byte, addStep (a, b) (c, out) = (c', byte :: out) ∧ c'.toNat ≤ 1 ∧
      byte.toNat + 256 * c'.toNat = a.toNat + b.toNat + c.toNat := by
  have ha := a.toNat_lt
  have hb := b.toNat_lt
  refine ⟨_, _, rfl, ?_, ?_⟩
  · simp [UInt16.toNat_add, UInt16.toNat_shiftRight, Nat.shiftRight_eq_div_pow]
    omega
  · simp [UInt16.toNat_toUInt8, UInt16.toNat_add, UInt16.toNat_shiftRight,
      Nat.shiftRight_eq_div_pow]
    omega

/-- The carry loop over pairs of bytes, run from the last pair back: the bytes it writes, with
the carry out counted at 256 to the power of their number, make up the numbers that both
columns write. -/
theorem foldr_addStep (ps : List (UInt8 × UInt8)) :
    (ps.foldr addStep (0, [])).1.toNat ≤ 1 ∧ (ps.foldr addStep (0, [])).2.length = ps.length ∧
      bytesValue (ps.foldr addStep (0, [])).2 + 256 ^ ps.length * (ps.foldr addStep (0, [])).1.toNat =
        bytesValue (ps.map Prod.fst) + bytesValue (ps.map Prod.snd) := by
  induction ps with
  | nil => simp [bytesValue]
  | cons p ps ih =>
    obtain ⟨hc, hlen, hsum⟩ := ih
    obtain ⟨c', byte, heq, hc', hbyte⟩ := addStep_spec p.1 p.2 _ (ps.foldr addStep (0, [])).2 hc
    rw [List.foldr_cons, heq]
    refine ⟨hc', by simp [hlen], ?_⟩
    simp only [List.map_cons, bytesValue_cons, List.length_map, List.length_cons, hlen, pow_succ]
    have hscaled := congrArg (· * 256 ^ ps.length) hbyte
    linarith [hscaled, hsum]

/-- Adding keys adds their numbers modulo 2^160. -/
@[simp] theorem val_add (a b : Key) : (a + b).val = (a.val + b.val) % size := by
  obtain ⟨-, hlen, hsum⟩ := foldr_addStep (a.bytes.zip b.bytes)
  rw [map_fst_zip_bytes, map_snd_zip_bytes, bytesValue_bytes, bytesValue_bytes,
    length_zip_bytes] at hsum
  have hlt := bytesValue_lt (List.foldr addStep (0, []) (a.bytes.zip b.bytes)).2
  rw [hlen, length_zip_bytes] at hlt
  have hsize : (256 : Nat) ^ 20 = size := rfl
  rw [hsize] at hlt hsum
  show (ofBytes _).val = _
  rw [val_ofBytes (hlen.trans (length_zip_bytes a b)), ← hsum, Nat.add_mul_mod_self_left,
    Nat.mod_eq_of_lt hlt]

end Carry

section Borrow

theorem toInt_toInt16_toUInt16 (a : UInt8) : a.toUInt16.toInt16.toInt = a.toNat := by
  have ha := a.toNat_lt
  simp [Int16.toInt, BitVec.toInt_eq_toNat_cond]
  omega

theorem toNat_toUInt8_toUInt16 (x : Int16) :
    (x.toUInt16.toUInt8.toNat : Int) = x.toInt % 256 := by
  have h := BitVec.toInt_eq_toNat_cond x.toBitVec
  have hlt := x.toBitVec.isLt
  rw [UInt16.toNat_toUInt8, ← Int16.toNat_toBitVec, Int16.toInt]
  split at h <;> omega

/-- Signed 16-bit arithmetic does not wrap below 2^15 either way. -/
theorem bmod_eq_of_small {x : Int} (h1 : -32768 ≤ x) (h2 : x < 32768) : x.bmod (2 ^ 16) = x :=
  Int.bmod_eq_of_le (by omega) (by omega)

/-- One turn of the borrow loop: the byte it writes, the byte taken away and the borrow it took
make up the byte it started from and 256 times the borrow it passes on. -/
theorem subStep_spec (a b : UInt8) (c : Int16) (out : List UInt8) (hc : c = 0 ∨ c = 1) :
    ∃ c' byte, subStep (a, b) (c, out) = (c', byte :: out) ∧ (c' = 0 ∨ c' = 1) ∧
      (byte.toNat : Int) + b.toNat + c.toInt = a.toNat + 256 * c'.toInt := by
  have ha := a.toNat_lt
  have hb := b.toNat_lt
  have hc0 : (0 : Int16).toInt = 0 := by decide
  have hc1 : (1 : Int16).toInt = 1 := by decide
  have hcv : c.toInt = 0 ∨ c.toInt = 1 := by rcases hc with rfl | rfl <;> simp [hc0, hc1]
  have hab : (a.toUInt16.toInt16 - b.toUInt16.toInt16).toInt = a.toNat - b.toNat := by
    rw [Int16.toInt_sub, toInt_toInt16_toUInt16, toInt_toInt16_toUInt16]
    exact bmod_eq_of_small (by omega) (by omega)
  have hdiff : (a.toUInt16.toInt16 - b.toUInt16.toInt16 - c).toInt =
      a.toNat - b.toNat - c.toInt := by
    rw [Int16.toInt_sub, hab]
    exact bmod_eq_of_small (by omega) (by omega)
  unfold subStep
  dsimp only
  split
  next hneg =>
    rw [Int16.lt_iff_toInt_lt, hdiff, hc0] at hneg
    have h256 : (256 : Int16).toInt = 256 := by decide
    refine ⟨_, _, rfl, Or.inr rfl, ?_⟩
    rw [toNat_toUInt8_toUInt16, Int16.toInt_add, hdiff, h256,
      bmod_eq_of_small (by omega) (by omega), hc1]
    omega
  next hpos =>
    rw [Int16.lt_iff_toInt_lt, hdiff, hc0] at hpos
    refine ⟨_, _, rfl, Or.inl rfl, ?_⟩
    rw [toNat_toUInt8_toUInt16, hdiff, hc0]
    omega

/-- The borrow loop over pairs of bytes, run from the last pair back: the bytes it writes and
the bytes taken away make up the bytes started from and the borrow out, counted at 256 to the
power of their number. -/
theorem foldr_subStep (ps : List (UInt8 × UInt8)) :
    ((ps.foldr subStep (0, [])).1 = 0 ∨ (ps.foldr subStep (0, [])).1 = 1) ∧
      (ps.foldr subStep (0, [])).2.length = ps.length ∧
      (bytesValue (ps.foldr subStep (0, [])).2 : Int) + bytesValue (ps.map Prod.snd) =
        bytesValue (ps.map Prod.fst) + 256 ^ ps.length * (ps.foldr subStep (0, [])).1.toInt := by
  induction ps with
  | nil => simp [bytesValue]
  | cons p ps ih =>
    obtain ⟨hc, hlen, hdiff⟩ := ih
    obtain ⟨c', byte, heq, hc', hbyte⟩ := subStep_spec p.1 p.2 _ (ps.foldr subStep (0, [])).2 hc
    rw [List.foldr_cons, heq]
    refine ⟨hc', by simp [hlen], ?_⟩
    simp only [List.map_cons, bytesValue_cons, List.length_map, List.length_cons, hlen, pow_succ]
    push_cast
    have hscaled := congrArg (· * (256 : Int) ^ ps.length) hbyte
    linarith [hscaled, hdiff]

theorem val_sub (a b : Key) : (a - b).val = (size - b.val + a.val) % size := by
  obtain ⟨hc, hlen, hdiff⟩ := foldr_subStep (a.bytes.zip b.bytes)
  rw [map_fst_zip_bytes, map_snd_zip_bytes, bytesValue_bytes, bytesValue_bytes,
    length_zip_bytes] at hdiff
  have hlt := bytesValue_lt (List.foldr subStep (0, []) (a.bytes.zip b.bytes)).2
  rw [hlen, length_zip_bytes] at hlt
  have hsize : (256 : Nat) ^ 20 = size := rfl
  rw [hsize] at hlt
  have hb := b.val_lt
  have hborrow : (List.foldr subStep (0, []) (a.bytes.zip b.bytes)).1.toInt = 0 ∨
      (List.foldr subStep (0, []) (a.bytes.zip b.bytes)).1.toInt = 1 := by
    rcases hc with h | h <;> rw [h] <;> decide
  show (ofBytes _).val = _
  rw [val_ofBytes (hlen.trans (length_zip_bytes a b))]
  simp only [size_eq] at *
  omega

end Borrow

section Order

theorem compare_byte (x y : UInt8) : compare x y = compare x.toNat y.toNat := by
  simp only [compare, compareOfLessAndEq, UInt8.lt_iff_toNat_lt, UInt8.toNat_inj]

/-- A leading digit outweighs every digit after it. -/
theorem compare_mul_add {x y vx vy p : Nat} (hx : vx < p) (hy : vy < p) :
    compare (x * p + vx) (y * p + vy) = (compare x y).then (compare vx vy) := by
  have hlead : ∀ {x y vx vy : Nat}, vx < p → x < y → x * p + vx < y * p + vy := by
    intro x y vx vy hx hlt
    calc x * p + vx < (x + 1) * p := by rw [Nat.succ_mul]; omega
      _ ≤ y * p := Nat.mul_le_mul_right _ hlt
      _ ≤ y * p + vy := Nat.le_add_right _ _
  rcases Nat.lt_trichotomy x y with hlt | rfl | hgt
  · rw [Nat.compare_eq_lt.mpr (hlead hx hlt), Nat.compare_eq_lt.mpr hlt]
    rfl
  · rw [Nat.compare_eq_ite_lt, Nat.compare_eq_ite_lt vx vy, Nat.compare_eq_ite_lt x x]
    simp only [Nat.lt_irrefl, if_false, Nat.add_lt_add_iff_left]
    rfl
  · rw [Nat.compare_eq_gt.mpr (hlead hy hgt), Nat.compare_eq_gt.mpr hgt]
    rfl

/-- Byte strings of one length compare, from the first byte on, as the numbers they write. -/
theorem compare_eq_bytesValue : ∀ (xs ys : List UInt8), xs.length = ys.length →
    compare xs ys = compare (bytesValue xs) (bytesValue ys)
  | [], [], _ => rfl
  | x :: xs, y :: ys, h => by
    have hlen : xs.length = ys.length := by simpa using h
    rw [List.compare_cons_cons, compare_eq_bytesValue xs ys hlen, bytesValue_cons,
      bytesValue_cons, hlen, compare_byte,
      compare_mul_add (hlen ▸ bytesValue_lt xs) (bytesValue_lt ys)]

theorem compare_eq_val (a b : Key) : compare a b = compare a.val b.val := by
  show compare a.bytes b.bytes = _
  rw [compare_eq_bytesValue _ _ (by simp [length_bytes]), bytesValue_bytes, bytesValue_bytes]

theorem lt_iff_val (a b : Key) : a < b ↔ a.val < b.val := by
  show compare a b = .lt ↔ _
  rw [compare_eq_val, Nat.compare_eq_lt]

theorem le_iff_val (a b : Key) : a ≤ b ↔ a.val ≤ b.val := by
  show compare a b ≠ .gt ↔ _
  rw [compare_eq_val, Nat.compare_ne_gt]

end Order

end PeerRing.Key
