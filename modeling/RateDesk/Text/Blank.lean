/-!
# Blank characters

The separators of a rate sheet are the characters of the Unicode property
`White_Space`.  The property is kept as a table of code point ranges, in
increasing order.

Main results:

- Theorem `isBlank_of_isWhitespace`: every character that core's ASCII test
  calls white space is blank.
- Theorem `isBlank_iff`: membership in the table, spelled out.
-/

namespace RateDesk
namespace Text

/-- The code point ranges of `White_Space`, both ends included. -/
def blankRanges : List (Nat × Nat) :=
  [(0x09, 0x0D), (0x20, 0x20), (0x85, 0x85), (0xA0, 0xA0), (0x1680, 0x1680),
    (0x2000, 0x200A), (0x2028, 0x2029), (0x202F, 0x202F), (0x205F, 0x205F),
    (0x3000, 0x3000)]

/-- Whether a character is white space in the sense of Unicode. -/
def isBlank (c : Char) : Bool :=
  blankRanges.any fun range => range.1 ≤ c.toNat && c.toNat ≤ range.2

/-- A character is blank exactly when its code point lies in a range of the
table. -/
theorem isBlank_iff (c : Char) :
    isBlank c = true ↔
      ∃ range ∈ blankRanges, range.1 ≤ c.toNat ∧ c.toNat ≤ range.2 := by
  simp [isBlank]

/-- The table extends core's ASCII white space. -/
theorem isBlank_of_isWhitespace {c : Char} (h : c.isWhitespace = true) :
    isBlank c = true := by
  simp only [Char.isWhitespace, Bool.or_eq_true, decide_eq_true_eq] at h
  rcases h with ((rfl | rfl) | rfl) | rfl <;> decide

/-- Whether a text has nothing but blank characters. -/
def allBlank (s : List Char) : Bool :=
  s.all isBlank

/-- The leading blanks of a text. -/
def blanks (s : List Char) : List Char :=
  s.takeWhile isBlank

/-- A text without its leading blanks. -/
def skipBlanks (s : List Char) : List Char :=
  s.dropWhile isBlank

/-- Leading blanks and the remaining text make up the whole text. -/
@[simp] theorem blanks_append_skipBlanks (s : List Char) :
    blanks s ++ skipBlanks s = s :=
  List.takeWhile_append_dropWhile

/-- The leading blanks are blank. -/
theorem allBlank_blanks (s : List Char) : allBlank (blanks s) = true := by
  simp [allBlank, blanks, List.all_takeWhile]

end Text
end RateDesk
