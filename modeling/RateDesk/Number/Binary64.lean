/-!
# Double precision numbers

Prices leave the desk as double precision numbers.  A nonnegative double is kept
as a significand of 53 bits and a power of two, and every operation is the exact
operation on rationals followed by one rounding to the nearest double, ties to
the even significand.

Prices lie between `10 ^ (-28)` and `2 ^ 96`, far inside the range of doubles,
so the exponent needs no bound here; whoever can leave the range compares with
`Binary64.overflowBound`.
-/

namespace RateDesk

/-- Round a nonnegative rational to the nearest integer, ties to the even
one. -/
def roundToEven (x : Rat) : Nat :=
  let low := x.floor.toNat
  let rest := x - (low : Rat)
  if rest < 1 / 2 then low
  else if 1 / 2 < rest then low + 1
  else if low % 2 = 0 then low else low + 1

/-- Round a nonnegative rational to the nearest integer, ties upwards. -/
def roundHalfUp (x : Rat) : Nat :=
  (x + 1 / 2).floor.toNat

/-- The nonnegative number `significand * 2 ^ exponent`.  A nonzero significand
has exactly 53 bits, so each number has one form. -/
structure Binary64 where
  /-- The significand: zero, or from `2 ^ 52` to `2 ^ 53 - 1`. -/
  significand : Nat
  /-- The power of two that the significand is multiplied by. -/
  exponent : Int
deriving DecidableEq, Repr

namespace Binary64

/-- The least significand of a nonzero double. -/
def leastSignificand : Nat := Nat.pow 2 52

/-- The number zero. -/
def zero : Binary64 := ⟨0, 0⟩

/-- The exact value of a double. -/
def toRat (b : Binary64) : Rat :=
  (b.significand : Rat) * (2 : Rat) ^ b.exponent

/-- The exponent for which a positive rational, measured in that power of two,
lies from `2 ^ 52` up to but not including `2 ^ 53`. -/
def unitExponent (x : Rat) : Int :=
  let guess : Int := (x.num.natAbs.log2 : Int) - (x.den.log2 : Int) - 52
  if x / (2 : Rat) ^ guess < (leastSignificand : Rat) then guess - 1 else guess

/-- The double nearest to a rational, ties to the even significand.  Negative
rationals do not occur and go to zero. -/
def ofRat (x : Rat) : Binary64 :=
  if x ≤ 0 then zero
  else
    let exponent := unitExponent x
    let significand := roundToEven (x / (2 : Rat) ^ exponent)
    if significand = 2 * leastSignificand then ⟨leastSignificand, exponent + 1⟩
    else ⟨significand, exponent⟩

/-- The double nearest to a natural number. -/
def ofNat (n : Nat) : Binary64 :=
  ofRat (n : Rat)

/-- Whether the double is zero. -/
def isZero (b : Binary64) : Bool :=
  b.significand == 0

/-- Rounded sum. -/
def add (a b : Binary64) : Binary64 :=
  ofRat (a.toRat + b.toRat)

/-- Rounded product. -/
def mul (a b : Binary64) : Binary64 :=
  ofRat (a.toRat * b.toRat)

/-- Rounded quotient. -/
def div (a b : Binary64) : Binary64 :=
  ofRat (a.toRat / b.toRat)

/-- The nearest integer as a double, ties upwards. -/
def roundToInteger (b : Binary64) : Binary64 :=
  ofNat (roundHalfUp b.toRat)

/-- Multiply an accumulator by a power, squaring the base for every binary digit
of the exponent, lowest digit first, with a rounding after every product. -/
def mulPower (accumulator base : Binary64) (n : Nat) : Binary64 :=
  if n = 0 then accumulator
  else
    mulPower (if n % 2 = 1 then accumulator.mul base else accumulator)
      (base.mul base) (n / 2)
termination_by n
decreasing_by omega

/-- A power of ten by repeated squaring; exact up to the twenty-second power. -/
def tenPower (n : Nat) : Binary64 :=
  mulPower (ofNat 1) (ofNat 10) n

/-- Doubles lie below this bound; a rounded value at or above it is infinite. -/
def overflowBound : Rat := (Nat.pow 2 1024 : Nat)

/-- Whether the value lies beyond the largest finite double. -/
def overflows (b : Binary64) : Bool :=
  overflowBound ≤ b.toRat

end Binary64

end RateDesk
