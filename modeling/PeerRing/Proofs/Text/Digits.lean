import PeerRing.Text.Hex
import PeerRing.Text.Blank
import Mathlib
/-! # Positional digits

Numbers written digit by digit in a base, most significant first, read back by the fold that
multiplies by the base and adds the next digit: the `w` lowest digits of `x` give `x % b ^ w`.
Keys are written this way in base 16 and frame headers in base 256. Besides, the sixteen
hexadecimal digit characters are plain ASCII letters and numerals that read back as their
values.
-/
namespace PeerRing.Text

/-- The fold of positional reading, started from `s`, keeps `s` in front of the digits. -/
theorem foldl_positional (b : Nat) (l : List Nat) (s : Nat) :
    l.foldl (fun acc d => acc * b + d) s = s * b ^ l.length + l.foldl (fun acc d => acc * b + d) 0 := by
  induction l generalizing s with
  | nil => simp
  | cons d l ih =>
    rw [List.foldl_cons, List.foldl_cons, ih, ih (0 * b + d), List.length_cons, pow_succ]
    ring

theorem foldl_positional_cons (b d : Nat) (l : List Nat) :
    (d :: l).foldl (fun acc d => acc * b + d) 0 =
      d * b ^ l.length + l.foldl (fun acc d => acc * b + d) 0 := by
  rw [List.foldl_cons, foldl_positional]
  simp

/-- Digits below the base write a number below the base to the power of their count. -/
theorem foldl_positional_lt {b : Nat} {l : List Nat} (h : ∀ d ∈ l, d < b) :
    l.foldl (fun acc d => acc * b + d) 0 < b ^ l.length := by
  induction l with
  | nil => simp
  | cons d l ih =>
    have hd : d + 1 ≤ b := h d List.mem_cons_self
    have hrest := ih fun d' hd' => h d' (List.mem_cons_of_mem d hd')
    rw [foldl_positional_cons]
    calc d * b ^ l.length + l.foldl (fun acc d => acc * b + d) 0 < (d + 1) * b ^ l.length := by
          rw [Nat.succ_mul]
          omega
      _ ≤ b ^ (d :: l).length := by
        rw [List.length_cons, pow_succ, Nat.mul_comm _ b]
        exact Nat.mul_le_mul_right _ hd

/-- The `w` lowest digits of `x` in base `b`, most significant first, read as `x % b ^ w`. -/
theorem foldl_digits (b w x : Nat) :
    ((List.range w).reverse.map fun i => x / b ^ i % b).foldl (fun acc d => acc * b + d) 0 =
      x % b ^ w := by
  induction w with
  | zero => simp [Nat.mod_one]
  | succ w ih =>
    rw [List.range_succ, List.reverse_append, List.reverse_singleton, List.singleton_append,
      List.map_cons, List.foldl_cons, foldl_positional, List.length_map, List.length_reverse,
      List.length_range, ih, Nat.mod_pow_succ]
    ring

/-- The digits of a number read most significant first, position by position. -/
theorem map_range_reverse (w : Nat) (f : Nat → Nat) :
    (List.range w).reverse.map f = (List.range w).map fun i => f (w - 1 - i) := by
  conv_lhs => rw [List.range_eq_range', List.reverse_range', List.map_map]
  simp [Function.comp_def]

/-- Each of the sixteen digits is no blank and no `x`, is one byte of UTF-8, and reads back as
its value. -/
theorem hexChar_facts : ∀ d < 16, isBlank (hexChar d) = false ∧ hexChar d ≠ 'x' ∧
    String.utf8EncodeChar (hexChar d) = [(hexChar d).toNat.toUInt8] ∧
    hexValue (hexChar d).toNat.toUInt8 = some d := by
  decide

theorem trimBlankList_of_forall {cs : List Char} (h : ∀ c ∈ cs, isBlank c = false) :
    trimBlankList cs = cs := by
  have hkeep : ∀ l : List Char, (∀ c ∈ l, isBlank c = false) → l.dropWhile isBlank = l := by
    intro l hl
    cases l with
    | nil => rfl
    | cons c l => simp [hl c List.mem_cons_self]
  rw [trimBlankList, hkeep cs h, hkeep cs.reverse (by simpa using h), List.reverse_reverse]

/-- The bytes of hexadecimal digits, `width` of them twice over, read as the number they write. -/
theorem readHexWidth_hexChar (width : Nat) (ds : List Nat) (h : ∀ d ∈ ds, d < 16)
    (hlen : ds.length = 2 * width) :
    readHexWidth width (ds.map fun d => (hexChar d).toNat.toUInt8) = .ok (hexNumber ds) := by
  have hnone : (ds.map fun d => (hexChar d).toNat.toUInt8).findIdx?
      (fun b => (hexValue b).isNone) = none := by
    rw [List.findIdx?_eq_none_iff]
    intro b hb
    obtain ⟨d, hd, rfl⟩ := List.mem_map.mp hb
    simp [(hexChar_facts d (h d hd)).2.2.2]
  have hvals : (ds.map fun d => (hexChar d).toNat.toUInt8).map (fun b => (hexValue b).getD 0) = ds := by
    rw [List.map_map]
    conv_rhs => rw [← List.map_id ds]
    apply List.map_congr_left
    intro d hd
    simp [(hexChar_facts d (h d hd)).2.2.2]
  simp [readHexWidth, hlen, hnone, hvals]

end PeerRing.Text
