import RateDesk.Number.Digits
import RateDesk.Number.Binary64

/-!
# Shortest decimal digits of a double

A double is written with the fewest digits that read back as the same double; of
several such digit runs of that length the one nearest to the double is taken,
and of two equally near ones the even one.

For each length the two neighbours of the value on that decimal grid are the
only candidates: if any number of the grid reads back, one of them does.
-/

namespace RateDesk

/-- The positive number `d.ddd * 10 ^ exponent`, with the point behind the first
digit. -/
structure Scientific where
  /-- The digits, the first one before the point. -/
  digits : List Digit
  /-- The decimal exponent of the first digit. -/
  exponent : Int
deriving DecidableEq, Repr

namespace Scientific

/-- The number `coefficient * 10 ^ unit`, without trailing zero digits. -/
def ofCoefficient (coefficient : Nat) (unit : Int) : Scientific :=
  let digits := Digits.ofNat coefficient
  let kept := (digits.reverse.dropWhile (·.val == 0)).reverse
  ⟨kept, unit + (digits.length : Int) - 1⟩

/-- The exponent of the first decimal digit of a positive rational. -/
def leadingExponent (x : Rat) : Int :=
  if 1 ≤ x then ((Digits.ofNat x.floor.toNat).length : Int) - 1
  else
    let zeros := (Digits.ofNat ((1 / x).ceil.toNat - 1)).length
    Int.negOfNat zeros

/-- Whether a rational reads as the given double. -/
def readsAs (b : Binary64) (x : Rat) : Bool :=
  Binary64.ofRat x == b

/-- The multiple of `10 ^ unit` nearest to the double among its two neighbours
that read back, as a coefficient. -/
def onGrid? (b : Binary64) (unit : Int) : Option Nat :=
  let x := b.toRat / (10 : Rat) ^ unit
  let low := x.floor.toNat
  let back := fun n : Nat => readsAs b ((n : Rat) * (10 : Rat) ^ unit)
  match back low, back (low + 1) with
  | true, true => some (roundToEven x)
  | true, false => some low
  | false, true => some (low + 1)
  | false, false => none

/-- The fewest digits that read back as the given double.  Seventeen digits
always suffice. -/
def ofBinary64 (b : Binary64) : Scientific :=
  let first := leadingExponent b.toRat
  let found := (List.range 17).findSome? fun i : Nat =>
    let unit : Int := first - i
    (onGrid? b unit).map fun coefficient => ofCoefficient coefficient unit
  found.getD ⟨[Digit.zero], 0⟩

end Scientific

end RateDesk
