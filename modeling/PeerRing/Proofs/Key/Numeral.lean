import PeerRing.Proofs.Key.Text
/-! # Key numerals

A text reads as a key exactly when, trimmed of blanks and of one leading `0x`, it is a key
numeral: at most 40 ASCII hexadecimal digits of either case, the empty numeral standing for
zero. The length check counts UTF-8 bytes while the zero padding counts characters. The two
counts agree exactly when every character is ASCII; a character beyond ASCII makes the padded
text longer than 40 bytes, so the reader refuses it as invalid hex by its length alone. A text
of more than 40 bytes is refused as too long, and any other text that is no numeral as invalid
hex.
-/
namespace PeerRing.Key

open Text

/-- The value of an ASCII hexadecimal digit of either case. -/
def hexDigitValue? (c : Char) : Option Nat :=
  if '0' ≤ c ∧ c ≤ '9' then some (c.toNat - '0'.toNat)
  else if 'a' ≤ c ∧ c ≤ 'f' then some (c.toNat - 'a'.toNat + 10)
  else if 'A' ≤ c ∧ c ≤ 'F' then some (c.toNat - 'A'.toNat + 10)
  else none

/-- At most 40 hexadecimal digits. -/
def isKeyNumeral (t : List Char) : Bool :=
  t.length ≤ digits && t.all fun c => (hexDigitValue? c).isSome

/-- The number a numeral writes in base 16. -/
def numeralValue (t : List Char) : Nat :=
  hexNumber (t.map fun c => (hexDigitValue? c).getD 0)

section Utf8

theorem utf8EncodeChar_of_ascii {c : Char} (h : c.toNat < 128) :
    String.utf8EncodeChar c = [c.toNat.toUInt8] := by
  have hv : c.toNat ≤ 127 := by omega
  simp [String.utf8EncodeChar, hv]

theorem two_le_length_utf8EncodeChar {c : Char} (h : 128 ≤ c.toNat) :
    2 ≤ (String.utf8EncodeChar c).length := by
  have hpos := Char.utf8Size_pos c
  have hne : c.utf8Size ≠ 1 := by
    rw [Ne, Char.utf8Size_eq_one_iff, UInt32.le_iff_toNat_le, Char.toNat_val]
    exact Nat.not_le.mpr h
  rw [String.length_utf8EncodeChar]
  omega

/-- Each character takes at least one byte, and each one beyond ASCII at least two. -/
theorem length_utf8Bytes_ge (t : List Char) :
    t.length + t.countP (fun c => 128 ≤ c.toNat) ≤ (utf8Bytes t).length := by
  induction t with
  | nil => simp [utf8Bytes]
  | cons c t ih =>
    have hlen : (utf8Bytes (c :: t)).length =
        (String.utf8EncodeChar c).length + (utf8Bytes t).length := by
      simp [utf8Bytes]
    rw [hlen, List.countP_cons, List.length_cons]
    by_cases hc : 128 ≤ c.toNat
    · have := two_le_length_utf8EncodeChar hc
      simp only [hc, decide_true, if_true]
      omega
    · have := Char.utf8Size_pos c
      rw [← String.length_utf8EncodeChar] at this
      simp only [hc, decide_false, Bool.false_eq_true, if_false]
      omega

theorem utf8Bytes_of_ascii {t : List Char} (h : ∀ c ∈ t, c.toNat < 128) :
    utf8Bytes t = t.map fun c => c.toNat.toUInt8 := by
  induction t with
  | nil => rfl
  | cons c t ih =>
    rw [utf8Bytes, List.flatMap_cons, ← utf8Bytes, utf8EncodeChar_of_ascii (h c List.mem_cons_self),
      ih fun c' hc' => h c' (List.mem_cons_of_mem c hc')]
    rfl

theorem ascii_of_length_utf8Bytes {t : List Char} (h : (utf8Bytes t).length ≤ t.length) :
    ∀ c ∈ t, c.toNat < 128 := by
  have hcount := length_utf8Bytes_ge t
  have hzero : t.countP (fun c => 128 ≤ c.toNat) = 0 := by omega
  intro c hc
  have := List.countP_eq_zero.mp hzero c hc
  simpa using this

end Utf8

section Digits

/-- The digit ranges as character codes. -/
theorem hexDigitValue?_eq (c : Char) : hexDigitValue? c =
    if 48 ≤ c.toNat ∧ c.toNat ≤ 57 then some (c.toNat - 48)
    else if 97 ≤ c.toNat ∧ c.toNat ≤ 102 then some (c.toNat - 87)
    else if 65 ≤ c.toNat ∧ c.toNat ≤ 70 then some (c.toNat - 55) else none := by
  have h0 : '0'.toNat = 48 := rfl
  have h9 : '9'.toNat = 57 := rfl
  have ha : 'a'.toNat = 97 := rfl
  have hf : 'f'.toNat = 102 := rfl
  have hA : 'A'.toNat = 65 := rfl
  have hF : 'F'.toNat = 70 := rfl
  simp only [hexDigitValue?, Char.le_def, UInt32.le_iff_toNat_le, Char.toNat_val, h0, h9, ha, hf,
    hA, hF]
  grind

/-- An ASCII character's byte is a hexadecimal digit exactly when the character is one, with
the same value. -/
theorem hexValue_ascii {c : Char} (h : c.toNat < 128) :
    hexValue c.toNat.toUInt8 = hexDigitValue? c := by
  have hb : c.toNat.toUInt8.toNat = c.toNat := by simp; omega
  rw [hexDigitValue?_eq, hexValue, hb]

theorem ascii_of_hexDigitValue? {c : Char} (h : (hexDigitValue? c).isSome) : c.toNat < 128 := by
  rw [hexDigitValue?_eq] at h
  split_ifs at h with h1 h2 h3
  · omega
  · omega
  · omega
  · simp at h

theorem hexDigitValue?_getD_lt (c : Char) : (hexDigitValue? c).getD 0 < 16 := by
  rw [hexDigitValue?_eq]
  split_ifs with h1 h2 h3
  · simp only [Option.getD_some]; omega
  · simp only [Option.getD_some]; omega
  · simp only [Option.getD_some]; omega
  · simp

theorem hexNumber_cons (d : Nat) (ds : List Nat) :
    hexNumber (d :: ds) = d * 16 ^ ds.length + hexNumber ds :=
  foldl_positional_cons 16 d ds

theorem hexNumber_replicate_zero (m : Nat) (ds : List Nat) :
    hexNumber (List.replicate m 0 ++ ds) = hexNumber ds := by
  induction m with
  | zero => rfl
  | succ m ih => rw [List.replicate_succ, List.cons_append, hexNumber_cons, ih, Nat.zero_mul,
      Nat.zero_add]


end Digits

section Numeral

variable {t : List Char}

theorem isKeyNumeral_iff : isKeyNumeral t = true ↔
    t.length ≤ digits ∧ ∀ c ∈ t, (hexDigitValue? c).isSome := by
  simp [isKeyNumeral]

/-- A numeral is ASCII, so its text has one byte per digit. -/
theorem length_utf8Bytes_of_numeral (h : isKeyNumeral t = true) :
    (utf8Bytes t).length = t.length := by
  obtain ⟨-, hdigits⟩ := isKeyNumeral_iff.mp h
  rw [utf8Bytes_of_ascii fun c hc => ascii_of_hexDigitValue? (hdigits c hc), List.length_map]

theorem numeralValue_lt (t : List Char) : numeralValue t < 16 ^ t.length := by
  rw [numeralValue, hexNumber, ← List.length_map fun c => (hexDigitValue? c).getD 0]
  apply foldl_positional_lt
  intro d hd
  obtain ⟨c, -, rfl⟩ := List.mem_map.mp hd
  exact hexDigitValue?_getD_lt c

/-- At most 40 digits write a number below 2^160, so the key of a numeral has its value. -/
theorem val_ofNat_numeralValue (h : isKeyNumeral t = true) :
    (ofNat (numeralValue t)).val = numeralValue t := by
  obtain ⟨hlen, -⟩ := isKeyNumeral_iff.mp h
  have hlt := numeralValue_lt t
  have hsize : 16 ^ t.length ≤ 2 ^ 160 :=
    calc 16 ^ t.length ≤ 16 ^ 40 := Nat.pow_le_pow_right (by decide) hlen
      _ = 2 ^ 160 := by norm_num
  simp only [ofNat, val, BitVec.toNat_ofNat]
  exact Nat.mod_eq_of_lt (by omega)

theorem hexValue_zero_byte : hexValue 48 = some 0 := by decide

/-- The values of the padded bytes of an ASCII text: zeros, then the values of its characters. -/
theorem map_hexValue_padded (m : Nat) (h : ∀ c ∈ t, c.toNat < 128) :
    (List.replicate m (48 : UInt8) ++ utf8Bytes t).map (fun b => (hexValue b).getD 0) =
      List.replicate m 0 ++ t.map fun c => (hexDigitValue? c).getD 0 := by
  rw [utf8Bytes_of_ascii h, List.map_append, List.map_replicate, List.map_map, hexValue_zero_byte]
  congr 1
  apply List.map_congr_left
  intro c hc
  simp [hexValue_ascii (h c hc)]

/-- The padded bytes of an ASCII text are all hexadecimal digits exactly when its characters
are. -/
theorem findIdx?_padded_eq_none_iff (m : Nat) (h : ∀ c ∈ t, c.toNat < 128) :
    (List.replicate m (48 : UInt8) ++ utf8Bytes t).findIdx? (fun b => (hexValue b).isNone) = none ↔
      ∀ c ∈ t, (hexDigitValue? c).isSome := by
  rw [List.findIdx?_eq_none_iff, utf8Bytes_of_ascii h]
  simp only [List.mem_append, List.mem_replicate, List.mem_map]
  constructor
  · intro hall c hc
    have hbyte := hall c.toNat.toUInt8 (Or.inr ⟨c, hc, rfl⟩)
    simpa [hexValue_ascii (h c hc)] using hbyte
  · rintro hall b (⟨-, rfl⟩ | ⟨c, hc, rfl⟩)
    · rw [hexValue_zero_byte]
      rfl
    · simpa [hexValue_ascii (h c hc)] using hall c hc

/-- A key numeral, padded with zeros to 40 digits, reads as its value. -/
theorem readHexWidth_padded_of_numeral (h : isKeyNumeral t = true) :
    readHexWidth 20 (List.replicate (digits - t.length) 48 ++ utf8Bytes t) =
      .ok (numeralValue t) := by
  obtain ⟨hlen, hdigits⟩ := isKeyNumeral_iff.mp h
  have hascii : ∀ c ∈ t, c.toNat < 128 := fun c hc => ascii_of_hexDigitValue? (hdigits c hc)
  have hpadded : (List.replicate (digits - t.length) (48 : UInt8) ++ utf8Bytes t).length = 40 := by
    rw [List.length_append, List.length_replicate, length_utf8Bytes_of_numeral h]
    simp only [digits] at hlen ⊢
    omega
  unfold readHexWidth
  rw [hpadded, (findIdx?_padded_eq_none_iff _ hascii).mpr hdigits, map_hexValue_padded _ hascii,
    hexNumber_replicate_zero]
  rfl

/-- What reads as a number from a text of at most 40 bytes, padded with zeros, is a key numeral
and its value. -/
theorem numeral_of_readHexWidth_padded {n : Nat} (hlen : (utf8Bytes t).length ≤ digits)
    (h : readHexWidth 20 (List.replicate (digits - t.length) 48 ++ utf8Bytes t) = .ok n) :
    isKeyNumeral t = true ∧ n = numeralValue t := by
  have hge := length_utf8Bytes_ge t
  unfold readHexWidth at h
  split at h
  · cases h
  next hodd =>
  split at h
  · cases h
  next hwidth =>
  -- forty bytes in all: the text took one byte per character, so it is ASCII
  have hbytes : (utf8Bytes t).length ≤ t.length := by
    simp only [List.length_append, List.length_replicate, ne_eq, Decidable.not_not] at hodd hwidth
    simp only [digits] at hlen hodd hwidth
    omega
  have hascii := ascii_of_length_utf8Bytes hbytes
  split at h
  · cases h
  next hnone =>
  rw [map_hexValue_padded _ hascii, hexNumber_replicate_zero] at h
  refine ⟨isKeyNumeral_iff.mpr ⟨by omega, (findIdx?_padded_eq_none_iff _ hascii).mp hnone⟩, ?_⟩
  exact (Except.ok.inj h).symm

end Numeral

theorem short_of_numeral (h : isKeyNumeral t = true) : (utf8Bytes t).length ≤ digits := by
  rw [length_utf8Bytes_of_numeral h]
  exact (isKeyNumeral_iff.mp h).1

section Reading

variable {s : String}

theorem ofHex_of_long (h : digits < (utf8Bytes (hexBody s)).length) :
    ofHex s = .error (.tooLong (utf8Bytes (hexBody s)).length) := by
  simp only [ofHex]
  rw [if_pos h]

theorem ofHex_of_numeral (h : isKeyNumeral (hexBody s) = true) :
    ofHex s = .ok (ofNat (numeralValue (hexBody s))) := by
  simp only [ofHex]
  rw [if_neg (Nat.not_lt.mpr (short_of_numeral h)), readHexWidth_padded_of_numeral h]

theorem ofHex_of_not_numeral (hlen : (utf8Bytes (hexBody s)).length ≤ digits)
    (h : isKeyNumeral (hexBody s) = false) : ∃ e, ofHex s = .error (.invalidHex e) := by
  simp only [ofHex]
  rw [if_neg (Nat.not_lt.mpr hlen)]
  split
  next n hread =>
    have := (numeral_of_readHexWidth_padded hlen hread).1
    simp [h] at this
  next e _ => exact ⟨e, rfl⟩

/-- Everything reading a key text can do: refuse it as too long by its bytes, read a numeral,
or refuse any other text as invalid hex. -/
theorem ofHex_cases (s : String) :
    (digits < (utf8Bytes (hexBody s)).length ∧
        ofHex s = .error (.tooLong (utf8Bytes (hexBody s)).length)) ∨
      (isKeyNumeral (hexBody s) = true ∧ ofHex s = .ok (ofNat (numeralValue (hexBody s)))) ∨
      ((utf8Bytes (hexBody s)).length ≤ digits ∧ isKeyNumeral (hexBody s) = false ∧
        ∃ e, ofHex s = .error (.invalidHex e)) := by
  rcases Nat.lt_or_ge digits (utf8Bytes (hexBody s)).length with hlong | hshort
  · exact Or.inl ⟨hlong, ofHex_of_long hlong⟩
  · cases hnum : isKeyNumeral (hexBody s)
    · exact Or.inr (Or.inr ⟨hshort, rfl, ofHex_of_not_numeral hshort hnum⟩)
    · exact Or.inr (Or.inl ⟨rfl, ofHex_of_numeral hnum⟩)

theorem ofHex_eq_ok_iff (k : Key) :
    ofHex s = .ok k ↔ isKeyNumeral (hexBody s) = true ∧ k.val = numeralValue (hexBody s) := by
  rcases ofHex_cases s with ⟨hlong, he⟩ | ⟨hnum, he⟩ | ⟨-, hnum, e, he⟩
  · have hnum : isKeyNumeral (hexBody s) = false := by
      cases hn : isKeyNumeral (hexBody s)
      · rfl
      · exact absurd (short_of_numeral hn) (Nat.not_le.mpr hlong)
    simp [he, hnum]
  · rw [he, Except.ok.injEq]
    constructor
    · rintro rfl
      exact ⟨hnum, val_ofNat_numeralValue hnum⟩
    · rintro ⟨-, hval⟩
      exact ext_val ((val_ofNat_numeralValue hnum).trans hval.symm)
  · simp [he, hnum]

theorem ofHex_eq_tooLong_iff (n : Nat) :
    ofHex s = .error (.tooLong n) ↔
      digits < (utf8Bytes (hexBody s)).length ∧ n = (utf8Bytes (hexBody s)).length := by
  rcases ofHex_cases s with ⟨hlong, he⟩ | ⟨hnum, he⟩ | ⟨hshort, -, e, he⟩
  · simp [he, hlong, eq_comm]
  · simp [he, Nat.not_lt.mpr (short_of_numeral hnum)]
  · simp [he, Nat.not_lt.mpr hshort]

theorem exists_ofHex_eq_invalidHex_iff :
    (∃ e, ofHex s = .error (.invalidHex e)) ↔
      (utf8Bytes (hexBody s)).length ≤ digits ∧ isKeyNumeral (hexBody s) = false := by
  rcases ofHex_cases s with ⟨hlong, he⟩ | ⟨hnum, he⟩ | ⟨hshort, hnum, e, he⟩
  · simp [he, hlong]
  · simp [he, hnum]
  · exact ⟨fun _ => ⟨hshort, hnum⟩, fun _ => ⟨e, he⟩⟩

end Reading

section Writing

theorem hexChar_lowercase : ∀ d < 16,
    ('0' ≤ hexChar d ∧ hexChar d ≤ '9') ∨ ('a' ≤ hexChar d ∧ hexChar d ≤ 'f') := by
  decide

theorem toHex_lowercase (k : Key) : (toHex k).toList.length = digits ∧
    ∀ c ∈ (toHex k).toList, ('0' ≤ c ∧ c ≤ '9') ∨ ('a' ≤ c ∧ c ≤ 'f') := by
  rw [toList_toHex]
  refine ⟨by simp, ?_⟩
  intro c hc
  obtain ⟨d, hd, rfl⟩ := List.mem_map.mp hc
  obtain ⟨i, -, rfl⟩ := List.mem_map.mp hd
  exact hexChar_lowercase _ (digit_lt k i)

end Writing

/-- A text reads as a key exactly when, trimmed of blanks and of one leading `0x`, it is at most
40 ASCII hexadecimal digits, and then as the number they write; a text of more than 40 bytes is
refused as too long and any other text as invalid hex. A key is written as 40 lowercase digits
that read back as the key. -/
theorem ofHex_reads_exactly_key_numerals (s : String) (k : Key) (n : Nat) :
    (ofHex s = .ok k ↔ isKeyNumeral (hexBody s) = true ∧ k.val = numeralValue (hexBody s)) ∧
    (ofHex s = .error (.tooLong n) ↔
      digits < (utf8Bytes (hexBody s)).length ∧ n = (utf8Bytes (hexBody s)).length) ∧
    ((∃ e, ofHex s = .error (.invalidHex e)) ↔
      (utf8Bytes (hexBody s)).length ≤ digits ∧ isKeyNumeral (hexBody s) = false) ∧
    (toHex k).toList.length = digits ∧
    (∀ c ∈ (toHex k).toList, ('0' ≤ c ∧ c ≤ '9') ∨ ('a' ≤ c ∧ c ≤ 'f')) ∧
    ofHex (toHex k) = .ok k :=
  ⟨ofHex_eq_ok_iff k, ofHex_eq_tooLong_iff n, exists_ofHex_eq_invalidHex_iff,
    (toHex_lowercase k).1, (toHex_lowercase k).2, ofHex_toHex k⟩

example : ofHex "0g" = .error (.invalidHex (.invalidChar 'g' 39)) := by decide +kernel

example : ofHex " 0xff " = .ok (ofU32 255) := by decide +kernel

end PeerRing.Key
