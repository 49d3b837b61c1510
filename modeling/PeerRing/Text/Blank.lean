/-! # Blank characters

The characters with the Unicode White_Space property, and trimming them from both ends of a
text. Key text is read after such trimming, so a tab, a no-break space or an ideographic space
around a key is not part of it.
-/
namespace PeerRing.Text

/-- The Unicode White_Space property: the ASCII blanks and controls 9 to 13, next line,
no-break space, ogham space mark, the spaces of the General Punctuation block, the line and
paragraph separators, the narrow no-break space, the medium mathematical space and the
ideographic space. -/
def isBlank (c : Char) : Bool :=
  let n := c.toNat
  (9 ≤ n && n ≤ 13) || n == 0x20 || n == 0x85 || n == 0xA0 || n == 0x1680 ||
    (0x2000 ≤ n && n ≤ 0x200A) || n == 0x2028 || n == 0x2029 || n == 0x202F ||
    n == 0x205F || n == 0x3000

/-- Drops blank characters from both ends of a list of characters. -/
def trimBlankList (cs : List Char) : List Char :=
  ((cs.dropWhile isBlank).reverse.dropWhile isBlank).reverse

/-- Drops blank characters from both ends of a text. -/
def trimBlank (s : String) : String :=
  String.ofList (trimBlankList s.toList)

theorem isBlank_of_isWhitespace {c : Char} (h : c.isWhitespace = true) : isBlank c = true := by
  simp only [Char.isWhitespace, Bool.or_eq_true, decide_eq_true_eq] at h
  simp only [isBlank, Bool.or_eq_true, Bool.and_eq_true, beq_iff_eq, decide_eq_true_eq]
  rcases h with ((h | h) | h) | h <;> subst h <;> decide

end PeerRing.Text
