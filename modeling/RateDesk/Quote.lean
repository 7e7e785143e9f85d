import RateDesk.Statement
import RateDesk.FieldValue

/-!
# Quotes

A quote is a statement all of whose fields are valid.  A statement that is no
quote is rejected with the failures of all its fields, not only the first.
-/

namespace RateDesk

/-- The terms of a valid statement. -/
structure Quote where
  pair : CurrencyPair
  /-- The price at which the desk buys. -/
  buy : Decimal
  /-- The price at which the desk sells. -/
  sell : Decimal
  /-- The largest amount traded at these prices. -/
  cap : Nat
deriving DecidableEq

/-- Why a field has no value, if it has none. -/
def failure? {α : Type} : Except FieldError α → Option FieldError
  | .ok _ => none
  | .error e => some e

namespace Statement

/-- The field of the given kind. -/
def field (s : Statement) : FieldKind → Field
  | .currencyPair => s.pair
  | .buy => s.buy
  | .sell => s.sell
  | .cap => s.cap

/-- Why the field of the given kind is rejected, if it is. -/
def fieldError? (s : Statement) (kind : FieldKind) : Option FieldError :=
  let raw := (s.field kind).text
  match kind with
  | .currencyPair => failure? (FieldValue.pair raw)
  | .buy | .sell => failure? (FieldValue.price raw)
  | .cap => failure? (FieldValue.cap raw)

/-- The rejected fields of a statement with their causes, in statement order. -/
def failures (s : Statement) : List (FieldKind × FieldError) :=
  FieldKind.all.filterMap fun kind =>
    (s.fieldError? kind).map fun e => (kind, e)

/-- The terms of a statement, if all its fields are valid. -/
def quote? (s : Statement) : Option Quote :=
  match FieldValue.pair s.pair.text, FieldValue.price s.buy.text,
  FieldValue.price s.sell.text,
    FieldValue.cap s.cap.text with
  | .ok pair, .ok buy, .ok sell, .ok cap => some ⟨pair, buy, sell, cap⟩
  | _, _, _, _ => none

/-- A statement is a quote exactly when none of its fields is rejected. -/
theorem isSome_quote?_iff (s : Statement) :
    s.quote?.isSome = true ↔ s.failures = [] := by
  simp only [quote?, failures, FieldKind.all, List.filterMap_cons,
    List.filterMap_nil, fieldError?, field]
  cases FieldValue.pair s.pair.text <;> cases FieldValue.price s.buy.text <;>
    cases FieldValue.price s.sell.text <;> cases FieldValue.cap s.cap.text <;>
      simp [failure?]

end Statement

end RateDesk
