import PeerRing.Json.Parse
import PeerRing.Json.Print
import Mathlib
/-! # Reading back written JSON

What the compact writer produces, the reader reads back, for the values messages are made of:
null, booleans, whole numbers that fit 64 bits, strings of any characters, and arrays and
objects of such values nested fewer times than the reader allows. Floats are left out.

A value is read from the front of a text whose rest begins with what may follow a value: a
comma, a closing bracket or brace, or nothing. One turn of the reader's fuel per character
written is enough, so the fuel a whole text gets never runs out.
-/
namespace PeerRing.Json

open Text

/-- A value of the kind messages are made of, with at most `d` arrays and objects nested. -/
inductive Plain : Nat → Value → Prop where
  | null (d : Nat) : Plain d .null
  | bool (d : Nat) (b : Bool) : Plain d (.bool b)
  | nat (d : Nat) {n : Nat} (h : n ≤ maxWord) : Plain d (.num (.nat n))
  | str (d : Nat) (s : String) : Plain d (.str s)
  | arr {d : Nat} {items : List Value} (h : ∀ v ∈ items, Plain d v) : Plain (d + 1) (.arr items)
  | obj {d : Nat} {fields : List (String × Value)} (h : ∀ f ∈ fields, Plain d f.2) :
      Plain (d + 1) (.obj fields)

theorem Plain.mono {d : Nat} {v : Value} (h : Plain d v) : ∀ {e : Nat}, d ≤ e → Plain e v := by
  induction h with
  | null => exact fun _ => .null _
  | bool _ b => exact fun _ => .bool _ b
  | nat _ hn => exact fun _ => .nat _ hn
  | str _ s => exact fun _ => .str _ s
  | arr _ ih =>
    intro e he
    obtain ⟨e, rfl⟩ : ∃ e', e = e' + 1 := ⟨e - 1, by omega⟩
    exact .arr fun v hv => ih v hv (by omega)
  | obj _ ih =>
    intro e he
    obtain ⟨e, rfl⟩ : ∃ e', e = e' + 1 := ⟨e - 1, by omega⟩
    exact .obj fun f hf => ih f hf (by omega)

/-- What may follow a value: a comma, a closing bracket or brace, or nothing. -/
def Stops (rest : List Char) : Prop := ∀ c r, rest = c :: r → c = ',' ∨ c = ']' ∨ c = '\x7d'

theorem stops_nil : Stops [] := fun _ _ h => by cases h

theorem stops_cons {c : Char} (h : c = ',' ∨ c = ']' ∨ c = '\x7d') (r : List Char) : Stops (c :: r) :=
  fun _ _ he => by
    obtain ⟨rfl, -⟩ := List.cons.inj he
    exact h

section Chars

theorem isDigit_toNat {c : Char} (h : c.isDigit = true) : 48 ≤ c.toNat ∧ c.toNat ≤ 57 := by
  simp only [Char.isDigit, Bool.and_eq_true, decide_eq_true_eq] at h
  exact ⟨h.1, h.2⟩

theorem skipBlank_cons {c : Char} (h : isJsonBlank c = false) (r : List Char) :
    skipBlank (c :: r) = c :: r := by
  simp [skipBlank, h]

theorem isJsonBlank_of_isDigit {c : Char} (h : c.isDigit = true) : isJsonBlank c = false := by
  have hd := isDigit_toNat h
  simp only [isJsonBlank, Bool.or_eq_false_iff, decide_eq_false_iff_not]
  refine ⟨⟨⟨?_, ?_⟩, ?_⟩, ?_⟩ <;> intro he <;> subst he <;> simp at hd

theorem digitChar_spec : ∀ d < 10,
    (Nat.digitChar d).isDigit = true ∧ digitValue (Nat.digitChar d) = d := by
  decide

theorem hexQuad_control : ∀ x < 32, hexQuad '0' '0' (hexChar (x / 16)) (hexChar (x % 16)) = some x := by
  decide

end Chars

section Strings

theorem parseString_escapeChar (acc : List Char) (c : Char) (rest : List Char) :
    parseString acc (escapeChar c ++ rest) = parseString (c :: acc) rest := by
  unfold escapeChar
  split_ifs with h1 h2 h3 h4 h5 h6 h7 h8
  · subst h1
    simp [parseString, simpleEscape]
  · subst h2
    simp [parseString, simpleEscape]
  · subst h3
    simp [parseString, simpleEscape]
  · subst h4
    simp [parseString, simpleEscape]
  · subst h5
    simp [parseString, simpleEscape]
  · subst h6
    simp [parseString, simpleEscape]
  · subst h7
    simp [parseString, simpleEscape]
  · -- another control: `\u00` and two hexadecimal digits
    have hquad := hexQuad_control c.toNat h8
    have hlow : isLowSurrogate c.toNat = false := by simp [isLowSurrogate]; omega
    have hhigh : isHighSurrogate c.toNat = false := by simp [isHighSurrogate]; omega
    simp [parseString, hquad, hlow, hhigh]
  · -- any other character stands for itself
    rw [List.singleton_append, parseString.eq_def]
    split <;> simp_all

/-- The escaped characters of a text, closed by a quote, read back as that text. -/
theorem parseString_escaped (acc l rest : List Char) :
    parseString acc (l.flatMap escapeChar ++ '"' :: rest) =
      some (String.ofList (acc.reverse ++ l), rest) := by
  induction l generalizing acc with
  | nil => simp [parseString]
  | cons c l ih =>
    rw [List.flatMap_cons, List.append_assoc, parseString_escapeChar, ih]
    simp

theorem toList_quote (s : String) : (quote s).toList = '"' :: (s.toList.flatMap escapeChar ++ ['"']) := by
  simp [quote]

end Strings

section Numbers

variable {n : Nat}

/-- The step of the reader over integer digits. -/
def digitStep (acc : Nat) (c : Char) : Nat := acc * 10 + digitValue c

theorem isDigit_of_mem_toDigits : ∀ n, ∀ c ∈ Nat.toDigits 10 n, c.isDigit = true := by
  intro n
  induction n using Nat.strong_induction_on with
  | _ n ih =>
    intro c hc
    rw [Nat.toDigits_eq_if (by decide)] at hc
    split at hc
    next hn =>
      rw [List.mem_singleton] at hc
      subst hc
      exact (digitChar_spec n hn).1
    next hn =>
      rcases List.mem_append.mp hc with hc | hc
      · exact ih (n / 10) (Nat.div_lt_self (by omega) (by decide)) c hc
      · rw [List.mem_singleton] at hc
        subst hc
        exact (digitChar_spec (n % 10) (Nat.mod_lt _ (by decide))).1

theorem foldl_toDigits : ∀ n, (Nat.toDigits 10 n).foldl digitStep 0 = n := by
  intro n
  induction n using Nat.strong_induction_on with
  | _ n ih =>
    rw [Nat.toDigits_eq_if (by decide)]
    split
    next hn => simp [digitStep, (digitChar_spec n hn).2]
    next hn =>
      rw [List.foldl_append, ih (n / 10) (Nat.div_lt_self (by omega) (by decide))]
      simp only [List.foldl_cons, List.foldl_nil, digitStep,
        (digitChar_spec (n % 10) (Nat.mod_lt _ (by decide))).2]
      omega

theorem le_foldl_digitStep (ds : List Char) (s : Nat) : s ≤ ds.foldl digitStep s := by
  induction ds generalizing s with
  | nil => exact Nat.le_refl _
  | cons c ds ih => exact Nat.le_trans (by simp [digitStep]; nlinarith) (ih _)

/-- Integer digits are taken one by one while the number fits 64 bits. -/
theorem integerDigits_append (ds : List Char) (hds : ∀ c ∈ ds, c.isDigit = true) (s : Nat)
    (hfit : ds.foldl digitStep s ≤ maxWord) (rest : List Char) :
    integerDigits true s (ds ++ rest) = integerDigits true (ds.foldl digitStep s) rest := by
  induction ds generalizing s with
  | nil => rfl
  | cons c ds ih =>
    have hc := hds c List.mem_cons_self
    have hle : digitStep s c ≤ maxWord :=
      Nat.le_trans (le_foldl_digitStep ds _) (by simpa using hfit)
    rw [List.cons_append, integerDigits, if_pos hc, if_neg (by simpa [digitStep] using hle)]
    exact ih (fun c' h' => hds c' (List.mem_cons_of_mem c h')) _ hfit

/-- After the last digit, the number ends where a value may end. -/
theorem integerDigits_stop (s : Nat) {rest : List Char} (hstop : Stops rest) :
    integerDigits true s rest = some (.nat s, rest) := by
  cases rest with
  | nil => simp [integerDigits, afterInteger]
  | cons c r =>
    rcases hstop c r rfl with rfl | rfl | rfl <;> simp [integerDigits, afterInteger]

theorem head_toDigits : ∀ n, n ≠ 0 → (Nat.toDigits 10 n).head? ≠ some '0' := by
  intro n
  induction n using Nat.strong_induction_on with
  | _ n ih =>
    intro hn
    rw [Nat.toDigits_eq_if (by decide)]
    split
    next hlt =>
      have hne : ∀ d < 10, d ≠ 0 → Nat.digitChar d ≠ '0' := by decide
      simpa using hne n hlt hn
    next hge =>
      have hd : n / 10 ≠ 0 := by omega
      obtain ⟨c, ds, hcd⟩ := List.exists_cons_of_ne_nil (Nat.toDigits_ne_nil (n := n / 10) (b := 10))
      have := ih (n / 10) (Nat.div_lt_self (by omega) (by decide)) hd
      rw [hcd] at this ⊢
      simpa using this

/-- A number led by a digit other than zero is read digit by digit. -/
theorem parseNumber_lead {c : Char} (hc : c.isDigit = true) (h0 : c ≠ '0') (r : List Char) :
    parseNumber (c :: r) = integerDigits true (digitValue c) r := by
  have hm : c ≠ '-' := by rintro rfl; exact absurd hc (by decide)
  unfold parseNumber
  split
  next p cs heq =>
    split at heq
    next r' h => exact absurd (List.cons.inj h).1 hm
    next =>
      obtain ⟨rfl, rfl⟩ := Prod.mk.inj heq
      split
      next r' h => exact absurd (List.cons.inj h).1 h0
      next c' r' _ h =>
        obtain ⟨rfl, rfl⟩ := List.cons.inj h
        simp [hc]
      next h => cases h

/-- A whole number that fits 64 bits reads back from its decimal digits. -/
theorem parseNumber_toDigits (hn : n ≤ maxWord) {rest : List Char} (hstop : Stops rest) :
    parseNumber (Nat.toDigits 10 n ++ rest) = some (.nat n, rest) := by
  by_cases h0 : n = 0
  · subst h0
    cases rest with
    | nil => simp [parseNumber, Nat.toDigits_zero, afterInteger]
    | cons c r =>
      rcases hstop c r rfl with rfl | rfl | rfl <;> simp [parseNumber, Nat.toDigits_zero, afterInteger]
  · -- a leading digit that is not zero, then the others one by one
    have hdig := isDigit_of_mem_toDigits n
    obtain ⟨c, ds, hcd⟩ := List.exists_cons_of_ne_nil (Nat.toDigits_ne_nil (n := n) (b := 10))
    have hc : c.isDigit = true := hdig c (by rw [hcd]; exact List.mem_cons_self)
    have hlead : c ≠ '0' := fun he => head_toDigits n h0 (by rw [hcd, he]; rfl)
    have hfold : ds.foldl digitStep (digitValue c) = n := by
      have := foldl_toDigits n
      rwa [hcd, List.foldl_cons, show digitStep 0 c = digitValue c by simp [digitStep]] at this
    have hds : ∀ c' ∈ ds, c'.isDigit = true := fun c' h' => hdig c' (by rw [hcd]; exact List.mem_cons_of_mem c h')
    rw [hcd, List.cons_append, parseNumber_lead hc hlead, integerDigits_append ds hds _ (hfold ▸ hn), hfold,
      integerDigits_stop n hstop]

end Numbers

section Values

theorem toList_render_nat (n : Nat) : (Value.num (.nat n)).render.toList = Nat.toDigits 10 n := by
  simp [Value.render, Number.render, show toString n = Nat.repr n from rfl, Nat.toList_repr]

theorem toList_render_arr (items : List Value) :
    (Value.arr items).render.toList = '[' :: ((renderItems items).toList ++ [']']) := by
  simp [Value.render]

theorem toList_render_obj (fields : List (String × Value)) :
    (Value.obj fields).render.toList = '\x7b' :: ((renderFields fields).toList ++ ['\x7d']) := by
  simp [Value.render]

theorem toList_renderItems_cons_cons (v w : Value) (ws : List Value) :
    (renderItems (v :: w :: ws)).toList = v.render.toList ++ ',' :: (renderItems (w :: ws)).toList := by
  simp [renderItems]

theorem toList_renderFields_single (k : String) (v : Value) :
    (renderFields [(k, v)]).toList = (quote k).toList ++ ':' :: v.render.toList := by
  simp [renderFields]

theorem toList_renderFields_cons_cons (k : String) (v : Value) (f : String × Value)
    (fs : List (String × Value)) :
    (renderFields ((k, v) :: f :: fs)).toList =
      (quote k).toList ++ ':' :: (v.render.toList ++ ',' :: (renderFields (f :: fs)).toList) := by
  simp [renderFields]

/-- The text of a value starts with a character that is no blank and closes nothing. -/
theorem render_head {d : Nat} {v : Value} (hv : Plain d v) :
    ∃ c r, v.render.toList = c :: r ∧ isJsonBlank c = false ∧ c ≠ ']' ∧ c ≠ '\x7d' := by
  cases hv with
  | null => exact ⟨'n', ['u', 'l', 'l'], by simp [Value.render], by decide, by decide, by decide⟩
  | bool _ b =>
    cases b
    · exact ⟨'f', ['a', 'l', 's', 'e'], by simp [Value.render], by decide, by decide, by decide⟩
    · exact ⟨'t', ['r', 'u', 'e'], by simp [Value.render], by decide, by decide, by decide⟩
  | @nat _ n _ =>
    obtain ⟨c, ds, hcd⟩ := List.exists_cons_of_ne_nil (Nat.toDigits_ne_nil (n := n) (b := 10))
    have hc : c.isDigit = true := isDigit_of_mem_toDigits n c (by rw [hcd]; exact List.mem_cons_self)
    refine ⟨c, ds, by rw [toList_render_nat, hcd], isJsonBlank_of_isDigit hc, ?_, ?_⟩ <;>
      (rintro rfl; exact absurd hc (by decide))
  | str _ s => exact ⟨'"', _, toList_quote s, by decide, by decide, by decide⟩
  | arr _ => exact ⟨'[', _, toList_render_arr _, by decide, by decide, by decide⟩
  | obj _ => exact ⟨'\x7b', _, toList_render_obj _, by decide, by decide, by decide⟩

theorem parseValue_digit {c : Char} (hc : c.isDigit = true) (fuel depth : Nat) (r : List Char) :
    parseValue (fuel + 1) depth (c :: r) = (parseNumber (c :: r)).map fun (n, r) => (.num n, r) := by
  have hne : c ≠ 'n' ∧ c ≠ 't' ∧ c ≠ 'f' ∧ c ≠ '"' ∧ c ≠ '[' ∧ c ≠ '\x7b' := by
    refine ⟨?_, ?_, ?_, ?_, ?_, ?_⟩ <;> (rintro rfl; exact absurd hc (by decide))
  obtain ⟨h1, h2, h3, h4, h5, h6⟩ := hne
  simp only [parseValue, skipBlank_cons (isJsonBlank_of_isDigit hc)]
  split <;> simp_all

/-- An opening bracket, then a character that neither is a blank nor closes the array, starts
the items. -/
theorem parseValue_open_arr {depth : Nat} (hdepth : 1 < depth) {c : Char} (hb : isJsonBlank c = false)
    (hc : c ≠ ']') (fuel : Nat) (r : List Char) :
    parseValue (fuel + 1) depth ('[' :: c :: r) = parseItems fuel (depth - 1) [] (c :: r) := by
  simp only [parseValue, skipBlank_cons (by decide : isJsonBlank '[' = false), skipBlank_cons hb,
    if_neg (Nat.not_le.mpr hdepth)]
  split <;> simp_all

/-- The reader at depth `depth` reads `v` back from its text, given a turn of fuel for every
character and a rest that may follow a value. -/
def ReadsBack (depth : Nat) (v : Value) : Prop :=
  ∀ fuel rest, v.render.toList.length ≤ fuel → Stops rest →
    parseValue fuel depth (v.render.toList ++ rest) = some (v, rest)

/-- Items that read back, written with commas between them and a closing bracket after. -/
theorem parseItems_render {depth : Nat} (v : Value) (vs : List Value)
    (ih : ∀ w ∈ v :: vs, ReadsBack depth w) (acc : List Value) {fuel : Nat} {rest : List Char}
    (hfuel : (renderItems (v :: vs)).toList.length < fuel) :
    parseItems fuel depth acc ((renderItems (v :: vs)).toList ++ ']' :: rest) =
      some (.arr (acc.reverse ++ v :: vs), rest) := by
  induction vs generalizing v acc fuel with
  | nil =>
    obtain ⟨f, rfl⟩ : ∃ f, fuel = f + 1 := ⟨fuel - 1, by omega⟩
    simp only [renderItems] at hfuel ⊢
    have hv := ih v List.mem_cons_self f (']' :: rest) (by omega) (stops_cons (by simp) rest)
    simp [parseItems, hv, skipBlank_cons (by decide : isJsonBlank ']' = false)]
  | cons w ws ihl =>
    obtain ⟨f, rfl⟩ : ∃ f, fuel = f + 1 := ⟨fuel - 1, by omega⟩
    rw [toList_renderItems_cons_cons] at hfuel ⊢
    simp only [List.length_append, List.length_cons] at hfuel
    have hv := ih v List.mem_cons_self f (',' :: ((renderItems (w :: ws)).toList ++ ']' :: rest))
      (by omega) (stops_cons (by simp) _)
    have hrest := ihl w (fun u hu => ih u (List.mem_cons_of_mem v hu)) (v :: acc)
      (show _ < f by omega)
    simp [parseItems, hv, skipBlank_cons (by decide : isJsonBlank ',' = false), hrest]

/-- Fields that read back, written with commas between them and a closing brace after. -/
theorem parseFields_render {depth : Nat} (k : String) (v : Value) (fs : List (String × Value))
    (ih : ∀ f ∈ (k, v) :: fs, ReadsBack depth f.2) (acc : List (String × Value)) {fuel : Nat}
    {rest : List Char} (hfuel : (renderFields ((k, v) :: fs)).toList.length < fuel) :
    parseFields fuel depth acc ((renderFields ((k, v) :: fs)).toList ++ '\x7d' :: rest) =
      some (.obj (acc.reverse ++ (k, v) :: fs), rest) := by
  induction fs generalizing k v acc fuel with
  | nil =>
    obtain ⟨f, rfl⟩ : ∃ f, fuel = f + 1 := ⟨fuel - 1, by omega⟩
    rw [toList_renderFields_single] at hfuel ⊢
    simp only [List.length_append, List.length_cons] at hfuel
    have hv := ih (k, v) List.mem_cons_self f ('\x7d' :: rest) (by simp; omega)
      (stops_cons (Or.inr (Or.inr rfl)) rest)
    simp only [toList_quote, List.cons_append, List.append_assoc]
    simp [parseFields, parseString_escaped, hv, skipBlank_cons, isJsonBlank]
  | cons g gs ihl =>
    obtain ⟨k', v'⟩ := g
    obtain ⟨f, rfl⟩ : ∃ f, fuel = f + 1 := ⟨fuel - 1, by omega⟩
    rw [toList_renderFields_cons_cons] at hfuel ⊢
    simp only [List.length_append, List.length_cons] at hfuel
    have hv := ih (k, v) List.mem_cons_self f (',' :: ((renderFields ((k', v') :: gs)).toList ++ '\x7d' :: rest))
      (by simp; omega) (stops_cons (Or.inl rfl) _)
    have hrest := ihl k' v' (fun u hu => ih u (List.mem_cons_of_mem (k, v) hu)) ((k, v) :: acc)
      (show _ < f by omega)
    simp only [toList_quote, List.cons_append, List.append_assoc] at hrest ⊢
    simp [parseFields, parseString_escaped, hv, skipBlank_cons, isJsonBlank, hrest]

theorem parseValue_open_obj {depth : Nat} (hdepth : 1 < depth) (fuel : Nat) (r : List Char) :
    parseValue (fuel + 1) depth ('\x7b' :: '"' :: r) = parseFields fuel (depth - 1) [] ('"' :: r) := by
  simp [parseValue, skipBlank_cons, isJsonBlank, Nat.not_le.mpr hdepth]

/-- Every plain value nested fewer times than the reader allows reads back from its text. -/
theorem readsBack_of_plain {d : Nat} {v : Value} (hv : Plain d v) :
    ∀ depth, d < depth → ReadsBack depth v := by
  induction hv with
  | null d =>
    intro depth _ fuel rest hfuel _
    obtain ⟨f, rfl⟩ : ∃ f, fuel = f + 1 := ⟨fuel - 1, by simp [Value.render] at hfuel; omega⟩
    simp [parseValue, Value.render, skipBlank_cons, isJsonBlank]
  | bool d b =>
    intro depth _ fuel rest hfuel _
    obtain ⟨f, rfl⟩ : ∃ f, fuel = f + 1 := ⟨fuel - 1, by cases b <;> simp [Value.render] at hfuel <;> omega⟩
    cases b <;> simp [parseValue, Value.render, skipBlank_cons, isJsonBlank]
  | @nat d n hn =>
    intro depth _ fuel rest hfuel hstop
    obtain ⟨c, ds, hcd⟩ := List.exists_cons_of_ne_nil (Nat.toDigits_ne_nil (n := n) (b := 10))
    have hc : c.isDigit = true := isDigit_of_mem_toDigits n c (by rw [hcd]; exact List.mem_cons_self)
    rw [toList_render_nat, hcd] at hfuel ⊢
    obtain ⟨f, rfl⟩ : ∃ f, fuel = f + 1 := ⟨fuel - 1, by simp at hfuel; omega⟩
    rw [List.cons_append, parseValue_digit hc, ← List.cons_append, ← hcd, parseNumber_toDigits hn hstop]
    rfl
  | str d s =>
    intro depth _ fuel rest hfuel _
    rw [show (Value.str s).render.toList = _ from toList_quote s] at hfuel ⊢
    obtain ⟨f, rfl⟩ : ∃ f, fuel = f + 1 := ⟨fuel - 1, by simp at hfuel; omega⟩
    simp [parseValue, skipBlank_cons, isJsonBlank, parseString_escaped]
  | @arr d items h ih =>
    intro depth hd fuel rest hfuel hstop
    rw [toList_render_arr] at hfuel ⊢
    simp only [List.length_cons, List.length_append] at hfuel
    obtain ⟨f, rfl⟩ : ∃ f, fuel = f + 1 := ⟨fuel - 1, by omega⟩
    cases items with
    | nil => simp [parseValue, renderItems, skipBlank_cons, isJsonBlank, Nat.not_le.mpr (by omega : 1 < depth)]
    | cons v vs =>
      -- the first item's text opens with neither a blank nor a closing bracket
      obtain ⟨c, r, hcr, hb, hc, -⟩ := render_head (h v List.mem_cons_self)
      obtain ⟨r', hr'⟩ : ∃ r', (renderItems (v :: vs)).toList ++ ']' :: rest = c :: r' := by
        cases vs with
        | nil => simp [renderItems, hcr]
        | cons w ws => simp [toList_renderItems_cons_cons, hcr]
      rw [List.cons_append, List.append_assoc, List.singleton_append, hr',
        parseValue_open_arr (by omega) hb hc, ← hr']
      exact parseItems_render v vs (fun w hw => ih w hw (depth - 1) (by omega)) [] (by omega)
  | @obj d fields h ih =>
    intro depth hd fuel rest hfuel hstop
    rw [toList_render_obj] at hfuel ⊢
    simp only [List.length_cons, List.length_append] at hfuel
    obtain ⟨f, rfl⟩ : ∃ f, fuel = f + 1 := ⟨fuel - 1, by omega⟩
    cases fields with
    | nil => simp [parseValue, renderFields, skipBlank_cons, isJsonBlank, Nat.not_le.mpr (by omega : 1 < depth)]
    | cons kv fs =>
      obtain ⟨k, v⟩ := kv
      -- the first field's text opens with the quote of its name
      obtain ⟨r', hr'⟩ : ∃ r', (renderFields ((k, v) :: fs)).toList ++ '\x7d' :: rest = '"' :: r' := by
        cases fs with
        | nil => simp [toList_renderFields_single, toList_quote]
        | cons g gs => simp [toList_renderFields_cons_cons, toList_quote]
      rw [List.cons_append, List.append_assoc, List.singleton_append, hr',
        parseValue_open_obj (by omega), ← hr']
      exact parseFields_render k v fs (fun g hg => ih g hg (depth - 1) (by omega)) [] (by omega)

/-- A plain value nested fewer than 128 times reads back from its whole text. -/
theorem parse_render {d : Nat} {v : Value} (hv : Plain d v) (hd : d < 128) :
    parse v.render.toList = some v := by
  have hread := readsBack_of_plain hv 128 hd (2 * v.render.toList.length + 2) [] (by omega) stops_nil
  rw [List.append_nil] at hread
  simp [parse, hread, skipBlank]

end Values

section Bytes

theorem toList_loop (bs : ByteArray) (i : Nat) (r : List UInt8) :
    ByteArray.toList.loop bs i r = r.reverse ++ bs.data.toList.drop i := by
  fun_induction ByteArray.toList.loop bs i r with
  | case1 i r hi ih =>
    have hlt : i < bs.data.toList.length := by simpa using hi
    rw [ih, List.reverse_cons, List.append_assoc, List.singleton_append,
      List.drop_eq_getElem_cons hlt]
    simp [ByteArray.get!, hi]
  | case2 i r hi =>
    simpa using Nat.le_of_not_lt hi

theorem mk_toArray_toList (bs : ByteArray) : ByteArray.mk bs.toList.toArray = bs := by
  simp [ByteArray.toList, toList_loop]

theorem parseBytes_toUTF8 (s : String) : parseBytes s.toUTF8.toList = parse s.toList := by
  simp [parseBytes, mk_toArray_toList, String.fromUTF8?, s.isValidUTF8, String.fromUTF8]

end Bytes

end PeerRing.Json
