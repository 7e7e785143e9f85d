import RateDesk.Number.Literal

/-!
# Fixed-point decimals

A decimal is an integer below `2 ^ 96` together with the number of its digits
that stand after the point, at most 28.  Reading keeps as many fraction digits
as fit and rounds once, on the first digit that does not.
-/

namespace RateDesk

/-- The number `mantissa / 10 ^ scale`, with `scale` places after the point. -/
structure Decimal where
  /-- The digits read as one integer. -/
  mantissa : Nat
  /-- The number of places after the point. -/
  scale : Nat
deriving DecidableEq, Repr

namespace Decimal

/-- Mantissas lie below this bound. -/
def mantissaBound : Nat := Nat.pow 2 96

/-- No decimal has more places than this. -/
def maxScale : Nat := 28

/-- The number that a decimal denotes. -/
def value (d : Decimal) : Rat :=
  (d.mantissa : Rat) / (10 : Rat) ^ d.scale

/-- Read whole digits, as long as they stay below the bound. -/
def readWhole? (digits : List Digit) : Option Nat :=
  digits.foldlM
    (fun m d => if 10 * m + d.val < mantissaBound then some (10 * m + d.val)
      else none) 0

/-- Add one unit in the last place.  If the mantissa reaches the bound, one
place is given up; without a place to give up the number is too large. -/
def bump? (d : Decimal) : Option Decimal :=
  if d.mantissa + 1 < mantissaBound then
    some { d with mantissa := d.mantissa + 1 }
  else if d.scale = 0 then none
  else some ⟨(d.mantissa + 1 + 4) / 10, d.scale - 1⟩

/-- Take in fraction digits while they fit.  The first digit that does not fit
rounds the number, half up, and the digits behind it are dropped. -/
def readFraction? (d : Decimal) : List Digit → Option Decimal
  | [] => some d
  | digit :: rest =>
      if d.scale < maxScale ∧ 10 * d.mantissa + digit.val < mantissaBound then
        readFraction? ⟨10 * d.mantissa + digit.val, d.scale + 1⟩ rest
      else if digit.val < 5 then some d
      else d.bump?

/-- The decimal nearest to an unsigned literal in the sense of `readFraction?`,
or nothing if it is too large. -/
def ofDigits? (whole fraction : List Digit) : Option Decimal := do
  readFraction? ⟨← readWhole? whole, 0⟩ fraction

/-- The digits of the mantissa, with as many leading zeros as put one digit
before the point. -/
def paddedDigits (d : Decimal) : List Digit :=
  let digits := Digits.ofNat d.mantissa
  List.replicate (d.scale + 1 - digits.length) Digit.zero ++ digits

/-- The characters of a decimal: all its places, and no point if it has none. -/
def chars (d : Decimal) : List Char :=
  let digits := d.paddedDigits
  let cut := digits.length - d.scale
  if d.scale = 0 then Digits.chars digits
  else Digits.chars (digits.take cut) ++ '.' :: Digits.chars (digits.drop cut)

/-- The text of a decimal. -/
def text (d : Decimal) : String :=
  String.ofList d.chars

end Decimal

end RateDesk
