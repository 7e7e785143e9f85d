import RateDesk.Number.Decimal
import RateDesk.Number.Shortest

/-!
# Prices as floating point text

A price is converted to a double in the steps that a floating point client would
take, and the double is written with its shortest digits.  Numbers near one are
written in full, always with a fraction; very large and very small ones get a
decimal exponent.
-/

namespace RateDesk

/-- How a floating point number is laid out. -/
structure FloatStyle where
  /-- The least exponent of the first digit that is written without exponent. -/
  plainFrom : Int
  /-- The greatest exponent of the first digit that is written without
  exponent. -/
  plainTo : Int
  /-- Whether a positive exponent carries a plus sign. -/
  plusSign : Bool
deriving DecidableEq, Repr

namespace FloatStyle

/-- A positive number in full: with zeros on either side as far as the point
needs them, and at least one digit after the point. -/
def plain (s : Scientific) : List Char :=
  if s.exponent < 0 then
    '0' :: '.' ::
      (List.replicate (-s.exponent - 1).toNat '0' ++ Digits.chars s.digits)
  else
    let places := s.exponent.toNat + 1
    let whole := s.digits.take places
    let fraction := s.digits.drop places
    Digits.chars whole ++ List.replicate (places - whole.length) '0' ++
      '.' :: (if fraction.isEmpty then ['0'] else Digits.chars fraction)

/-- The digits before the exponent mark: a point only if a digit follows it. -/
def coefficient : List Digit → List Char
  | [] => []
  | [d] => [d.char]
  | d :: rest => d.char :: '.' :: Digits.chars rest

/-- A positive number with a decimal exponent. -/
def scientific (style : FloatStyle) (s : Scientific) : List Char :=
  let sign := if s.exponent < 0 then ['-']
    else if style.plusSign then ['+'] else []
  coefficient s.digits ++ 'e' ::
    (sign ++ Digits.chars (Digits.ofNat s.exponent.natAbs))

/-- The text of a positive number in the given style. -/
def write (style : FloatStyle) (s : Scientific) : String :=
  String.ofList
    (if style.plainFrom ≤ s.exponent ∧ s.exponent ≤ style.plainTo then plain s
      else style.scientific s)

end FloatStyle

namespace Decimal

/-- The double that stands for a decimal.  Whole part and fraction are converted
on their own; a number with a fraction is then brought back to its places by
scaling it up, rounding to an integer and scaling it down. -/
def toBinary64 (d : Decimal) : Binary64 :=
  let unit := Nat.pow 10 d.scale
  let whole := Binary64.ofNat (d.mantissa / unit)
  let fraction := (Binary64.ofNat (d.mantissa % unit)).div (Binary64.ofNat unit)
  if fraction.isZero then whole
  else
    let power := Binary64.tenPower d.scale
    ((whole.add fraction).mul power).roundToInteger.div power

/-- The floating point text of a decimal. -/
def floatText (style : FloatStyle) (d : Decimal) : String :=
  style.write (Scientific.ofBinary64 d.toBinary64)

end Decimal

end RateDesk
