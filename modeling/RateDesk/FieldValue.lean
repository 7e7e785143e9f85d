import RateDesk.Block
import RateDesk.Currency
import RateDesk.Number.Decimal

/-!
# The values of fields

A block takes any text without blanks for a value; what the text means, if it
means anything, is decided here, field by field.  A field without meaning gives
the cause.
-/

namespace RateDesk

/-- The fields of a statement. -/
inductive FieldKind
  | currencyPair
  | buy
  | sell
  | cap
deriving DecidableEq, Repr

namespace FieldKind

/-- The fields in the order in which a statement has them. -/
def all : List FieldKind :=
  [.currencyPair, .buy, .sell, .cap]

/-- The keyword that introduces a field; the pair has none. -/
def keyword : FieldKind → Option Keyword
  | .currencyPair => none
  | .buy => some .buy
  | .sell => some .sell
  | .cap => some .cap

/-- The name of a field in messages. -/
def label (kind : FieldKind) : String :=
  match kind.keyword with
  | none => "Currency Pair"
  | some k => k.word

end FieldKind

/-- Why a field is rejected; each cause carries the text of the field. -/
inductive FieldError
  /-- A pair that is not two codes joined by a dash. -/
  | malformedPair (raw : String)
  /-- A value that is no number literal. -/
  | notANumber (raw : String)
  /-- A number that is zero or negative. -/
  | notPositive (raw : String)
  /-- An amount that is no integer. -/
  | fractional (raw : String)
  /-- A number too large to keep, or a price too small to keep. -/
  | outOfRange (raw : String)
deriving DecidableEq, Repr

/-- The wording of a rejection. -/
def FieldError.message : FieldError → String
  | .malformedPair raw =>
      "'" ++ raw ++ "' is not two three-letter uppercase codes joined by '-'"
  | .notANumber raw => "'" ++ raw ++ "' is not a decimal number"
  | .notPositive raw => "'" ++ raw ++ "' is not greater than zero"
  | .fractional raw => "'" ++ raw ++ "' has a fractional part"
  | .outOfRange raw => "'" ++ raw ++ "' is out of range"

/-- Amount limits lie below this bound. -/
def capBound : Nat := Nat.pow 2 64

namespace FieldValue

/-- The currency pair that a field spells. -/
def pair (raw : String) : Except FieldError CurrencyPair :=
  match CurrencyPair.ofChars? raw.toList with
  | some p => .ok p
  | none => .error (.malformedPair raw)

/-- The number literal that a field spells, which has to denote a number above
zero. -/
def positive (raw : String) : Except FieldError Literal :=
  match Literal.read? raw.toList with
  | none => .error (.notANumber raw)
  | some l =>
      if l.negative || l.isZero then .error (.notPositive raw) else .ok l

/-- The price that a field spells: a positive number that does not vanish when
it is rounded to the places that can be kept. -/
def price (raw : String) : Except FieldError Decimal := do
  let l ← positive raw
  match Decimal.ofDigits? l.whole l.fraction with
  | none => .error (.outOfRange raw)
  | some d => if d.mantissa = 0 then .error (.outOfRange raw) else .ok d

/-- The amount limit that a field spells: a positive integer of at most 64 bits,
with zeros allowed behind a point. -/
def cap (raw : String) : Except FieldError Nat := do
  let l ← positive raw
  if l.hasFraction then .error (.fractional raw)
  else if Digits.value l.whole < capBound then .ok (Digits.value l.whole)
  else .error (.outOfRange raw)

end FieldValue

end RateDesk
