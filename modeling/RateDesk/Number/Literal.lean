import RateDesk.Text.Cut
import RateDesk.Number.Digits

/-!
# Number literals

A literal is an optional sign, at least one digit, and optionally a point with
at least one digit behind it.  There is no exponent and no grouping.
-/

namespace RateDesk

/-- A signed decimal number as written: the digits before and after the point.
Without a point there are no fraction digits. -/
structure Literal where
  /-- Whether the literal starts with a minus sign. -/
  negative : Bool
  whole : List Digit
  fraction : List Digit
deriving DecidableEq, Repr

namespace Literal

/-- Strip one leading sign; the answer says whether it was a minus sign. -/
def stripSign : List Char → Bool × List Char
  | '-' :: rest => (true, rest)
  | '+' :: rest => (false, rest)
  | s => (false, s)

/-- Read an unsigned literal into its whole and fraction digits. -/
def readUnsigned? (s : List Char) : Option (List Digit × List Digit) :=
  match Text.cutAt? '.' s with
  | none => (Digits.read? s).map fun whole => (whole, [])
  | some (whole, fraction) => do
      return (← Digits.read? whole, ← Digits.read? fraction)

/-- Read a literal; any other text has no reading. -/
def read? (s : List Char) : Option Literal := do
  let (negative, unsigned) := stripSign s
  let (whole, fraction) ← readUnsigned? unsigned
  return ⟨negative, whole, fraction⟩

/-- Whether the literal denotes zero: no digit of it is nonzero. -/
def isZero (l : Literal) : Bool :=
  l.whole.all (·.val == 0) && l.fraction.all (·.val == 0)

/-- Whether the literal denotes no integer: some fraction digit is nonzero. -/
def hasFraction (l : Literal) : Bool :=
  l.fraction.any (·.val != 0)

/-- The number without its sign. -/
def magnitude (l : Literal) : Rat :=
  (Digits.value (l.whole ++ l.fraction) : Rat) / (10 : Rat) ^ l.fraction.length

/-- The number that a literal denotes. -/
def value (l : Literal) : Rat :=
  if l.negative then -l.magnitude else l.magnitude

end Literal

end RateDesk
