/-!
# Letters up to case

Keywords are compared under Unicode simple case folding.  Besides the capital
ASCII letters, exactly two characters fold to an ASCII letter: the long s folds
to `s` and the Kelvin sign folds to `k`.  Keywords have ASCII letters
only, so no other folding can make a character equal to one of theirs.
-/

namespace RateDesk
namespace Text

/-- The simple case folding of a character, where it is an ASCII letter; every
other character stands for itself. -/
def foldLetter (c : Char) : Char :=
  if c = '\u017f' then 's'
  else if c = '\u212a' then 'k'
  else c.toLower

/-- Whether two texts agree letter by letter up to case. -/
def sameLetters (s t : List Char) : Bool :=
  s.map foldLetter == t.map foldLetter

/-- Texts that agree up to case have equal length. -/
theorem length_eq_of_sameLetters {s t : List Char}
    (h : sameLetters s t = true) : s.length = t.length := by
  have hmap : s.map foldLetter = t.map foldLetter := by
    simpa [sameLetters] using h
  simpa using congrArg List.length hmap

end Text
end RateDesk
