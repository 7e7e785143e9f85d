import RateDesk.Proofs.FieldValue.Spelling
import RateDesk.Proofs.Number.Rounding

/-!
# Prices by their value

A price field is judged by digits: a sign, the first digit that does not fit, a
mantissa that is zero.  In effect it is judged by the number that it spells, and
the digits decide only how many places the price has.

Main results:

- Theorem `FieldValue.price_by_value`: the numbers for which a price is
  rejected, the price of every other number, and the prices that are exact.
-/

namespace RateDesk

namespace FieldValue

variable {raw : String} {l : Literal}

theorem price_of_not_spelled (h : ¬∃ l : Literal, l.Spelled raw.toList) :
    price raw = .error (.notANumber raw) := by
  simp only [price, positive_of_not_spelled h]
  rfl

theorem price_of_nonpos (h : l.Spelled raw.toList) (hv : l.value ≤ 0) :
    price raw = .error (.notPositive raw) := by
  simp only [price, positive_of_spelled h, if_neg (not_lt.mpr hv)]
  rfl

/-- The price of a positive number is the decimal of its digits, unless there is
none or it is zero. -/
theorem price_of_pos (h : l.Spelled raw.toList) (hv : 0 < l.value) :
    price raw =
      match Decimal.ofDigits? l.whole l.fraction with
      | none => .error (.outOfRange raw)
      | some d =>
          if d.mantissa = 0 then .error (.outOfRange raw) else .ok d := by
  simp only [price, positive_of_spelled h, if_pos hv]
  rfl

/-- The price of digits that all fit has these digits. -/
theorem price_of_digits (h : l.Spelled raw.toList) (hv : 0 < l.value)
    (hlength : l.fraction.length ≤ 28)
    (hdigits : Digits.value (l.whole ++ l.fraction) < 2 ^ 96) :
    price raw = .ok ⟨Digits.value (l.whole ++ l.fraction),
      l.fraction.length⟩ := by
  have hne : Digits.value (l.whole ++ l.fraction) ≠ 0 := by
    intro hzero
    rw [Literal.value_of_pos hv, Literal.magnitude, hzero, Nat.cast_zero] at hv
    exact absurd (zero_div _) hv.ne'
  rw [price_of_pos h hv, Decimal.ofDigits?_exact hdigits hlength]
  exact if_neg hne

/-- What a price field gives, by the number that it spells. -/
theorem price_cases (h : l.Spelled raw.toList) :
    (l.value ≤ 0 ∧ price raw = .error (.notPositive raw)) ∨
    ((0 < l.value ∧ (l.value < 5 / 10 ^ 29 ∨ 2 ^ 96 - 1 / 2 ≤ l.value)) ∧
      price raw = .error (.outOfRange raw)) ∨
    ((5 / 10 ^ 29 ≤ l.value ∧ l.value < 2 ^ 96 - 1 / 2) ∧
      ∃ d, price raw = .ok d ∧
        0 < d.mantissa ∧ d.mantissa < 2 ^ 96 ∧ d.scale ≤ 28 ∧
        |d.value - l.value| ≤ 1 / 2 / 10 ^ d.scale) := by
  by_cases hpos : 0 < l.value
  · rw [price_of_pos h hpos, Literal.value_of_pos hpos]
    rw [Literal.value_of_pos hpos] at hpos
    refine Or.inr ?_
    cases hread : Decimal.ofDigits? l.whole l.fraction with
    | none =>
        exact Or.inl
          ⟨⟨hpos, Or.inr (Decimal.ofDigits?_eq_none_iff.mp hread)⟩, rfl⟩
    | some d =>
        have hhigh : l.magnitude < 2 ^ 96 - 1 / 2 := by
          by_contra hge
          rw [Decimal.ofDigits?_eq_none_iff.mpr (not_lt.mp hge)] at hread
          cases hread
        have hzero := Decimal.ofDigits?_eq_zero_iff hread
        by_cases hmantissa : d.mantissa = 0
        · exact Or.inl ⟨⟨hpos, Or.inl (hzero.mp hmantissa)⟩, if_pos hmantissa⟩
        · have hlow : 5 / 10 ^ 29 ≤ l.magnitude :=
            not_lt.mp (mt hzero.mpr hmantissa)
          exact Or.inr ⟨⟨hlow, hhigh⟩, d, if_neg hmantissa,
            Nat.pos_of_ne_zero hmantissa, Decimal.ofDigits?_near hread⟩
  · exact Or.inl ⟨not_lt.mp hpos, price_of_nonpos h (not_lt.mp hpos)⟩

/-- A price is refused as not positive exactly when its number is not above
zero. -/
theorem price_eq_notPositive_iff (h : l.Spelled raw.toList) :
    price raw = .error (.notPositive raw) ↔ l.value ≤ 0 := by
  constructor
  · intro hprice
    rcases price_cases h with ⟨hv, -⟩ | ⟨-, hother⟩ | ⟨-, d, hother, -⟩
    · exact hv
    · cases hprice.symm.trans hother
    · cases hprice.symm.trans hother
  · exact price_of_nonpos h

/-- A price is out of range exactly when its number is above zero and either
rounds to zero or is past the largest decimal by half a unit or more. -/
theorem price_eq_outOfRange_iff (h : l.Spelled raw.toList) :
    price raw = .error (.outOfRange raw) ↔
      0 < l.value ∧ (l.value < 5 / 10 ^ 29 ∨ 2 ^ 96 - 1 / 2 ≤ l.value) := by
  constructor
  · intro hprice
    rcases price_cases h with ⟨-, hother⟩ | ⟨hv, -⟩ | ⟨-, d, hother, -⟩
    · cases hprice.symm.trans hother
    · exact hv
    · cases hprice.symm.trans hother
  · rintro ⟨hpos, hout⟩
    rcases price_cases h with ⟨hv, -⟩ | ⟨-, hprice⟩ | ⟨⟨hlow, hhigh⟩, -⟩
    · exact absurd hpos (not_lt.mpr hv)
    · exact hprice
    · rcases hout with hsmall | hlarge
      · exact absurd hsmall (not_lt.mpr hlow)
      · exact absurd hhigh (not_lt.mpr hlarge)

/-- Every number in range has a price near it. -/
theorem exists_price_near (h : l.Spelled raw.toList)
    (hlow : 5 / 10 ^ 29 ≤ l.value) (hhigh : l.value < 2 ^ 96 - 1 / 2) :
    ∃ d, price raw = .ok d ∧
      0 < d.mantissa ∧ d.mantissa < 2 ^ 96 ∧ d.scale ≤ 28 ∧
      |d.value - l.value| ≤ 1 / 2 / 10 ^ d.scale := by
  rcases price_cases h with ⟨hv, -⟩ | ⟨⟨-, hsmall | hlarge⟩, -⟩ | ⟨-, hnear⟩
  · have hpos : 0 < l.value := lt_of_lt_of_le (by norm_num) hlow
    exact absurd hpos (not_lt.mpr hv)
  · exact absurd hsmall (not_lt.mpr hlow)
  · exact absurd hhigh (not_lt.mpr hlarge)
  · exact hnear

/-- What is not rejected as no number spells one. -/
theorem exists_spelled_of_price {result : Except FieldError Decimal}
    (h : price raw = result) (hne : result ≠ .error (.notANumber raw)) :
    ∃ l : Literal, l.Spelled raw.toList := by
  by_contra hnone
  exact hne (h.symm.trans (price_of_not_spelled hnone))

/-- A price field is rejected as no number, as not positive or as out of range
by the number that it spells alone: the numbers out of range are those below
half a unit of the twenty-eighth place and those that reach the last mantissa
and a half.  For every other number there is a price, which is off by at most
half a unit of its last place; it is exact, digit by digit, if all digits
fit. -/
theorem price_by_value (raw : String) :
    (price raw = .error (.notANumber raw) ↔
      ¬∃ l : Literal, l.Spelled raw.toList) ∧
    (price raw = .error (.notPositive raw) ↔
      ∃ l : Literal, l.Spelled raw.toList ∧ l.value ≤ 0) ∧
    (price raw = .error (.outOfRange raw) ↔
      ∃ l : Literal, l.Spelled raw.toList ∧
      0 < l.value ∧ (l.value < 5 / 10 ^ 29 ∨ 2 ^ 96 - 1 / 2 ≤ l.value)) ∧
    ∀ l : Literal, l.Spelled raw.toList →
      (5 / 10 ^ 29 ≤ l.value → l.value < 2 ^ 96 - 1 / 2 →
        ∃ d, price raw = .ok d ∧
          0 < d.mantissa ∧ d.mantissa < 2 ^ 96 ∧ d.scale ≤ 28 ∧
          |d.value - l.value| ≤ 1 / 2 / 10 ^ d.scale) ∧
      (0 < l.value → l.fraction.length ≤ 28 →
        Digits.value (l.whole ++ l.fraction) < 2 ^ 96 →
        price raw = .ok ⟨Digits.value (l.whole ++ l.fraction),
          l.fraction.length⟩) := by
  refine ⟨⟨?_, price_of_not_spelled⟩, ⟨?_, ?_⟩, ⟨?_, ?_⟩, ?_⟩
  · rintro hprice ⟨l, h⟩
    rcases price_cases h with ⟨-, hother⟩ | ⟨-, hother⟩ | ⟨-, d, hother, -⟩
    · cases hprice.symm.trans hother
    · cases hprice.symm.trans hother
    · cases hprice.symm.trans hother
  · intro hprice
    rcases exists_spelled_of_price hprice (by simp) with ⟨l, h⟩
    exact ⟨l, h, (price_eq_notPositive_iff h).mp hprice⟩
  · rintro ⟨l, h, hv⟩
    exact (price_eq_notPositive_iff h).mpr hv
  · intro hprice
    rcases exists_spelled_of_price hprice (by simp) with ⟨l, h⟩
    exact ⟨l, h, (price_eq_outOfRange_iff h).mp hprice⟩
  · rintro ⟨l, h, hv⟩
    exact (price_eq_outOfRange_iff h).mpr hv
  · intro l h
    exact ⟨exists_price_near h, price_of_digits h⟩

/-- Behind the last mantissa the digit nine is rounded up, and a place is given
up; with no digit left over the last mantissa itself is a price. -/
theorem price_by_value_last_mantissa :
    (∃ d, price "7.92281625142643375935439503359" = .ok d ∧
      0 < d.mantissa ∧ d.mantissa < 2 ^ 96 ∧ d.scale ≤ 28 ∧
      |d.value - 792281625142643375935439503359 / 10 ^ 29| ≤
        1 / 2 / 10 ^ d.scale) ∧
    price "7.92281625142643375935439503359" =
      .ok ⟨7922816251426433759354395034, 27⟩ ∧
    price "+7.9228162514264337593543950335" =
      .ok ⟨79228162514264337593543950335, 28⟩ := by
  have hlong : Literal.Spelled
      ⟨false, [7], [9, 2, 2, 8, 1, 6, 2, 5, 1, 4, 2, 6, 4, 3, 3, 7, 5, 9, 3, 5,
        4, 3, 9, 5, 0, 3, 3, 5, 9]⟩ "7.92281625142643375935439503359".toList :=
    Literal.read?_eq_some_iff.mp (by decide +kernel)
  have hexact : Literal.Spelled
      ⟨false, [7], [9, 2, 2, 8, 1, 6, 2, 5, 1, 4, 2, 6, 4, 3, 3, 7, 5, 9, 3, 5,
        4, 3, 9, 5, 0, 3, 3, 5]⟩ "+7.9228162514264337593543950335".toList :=
    Literal.read?_eq_some_iff.mp (by decide +kernel)
  refine ⟨?_, by decide +kernel, ?_⟩
  · exact ((price_by_value _).2.2.2 _ hlong).1 (by decide +kernel)
      (by decide +kernel)
  · exact ((price_by_value _).2.2.2 _ hexact).2 (by decide +kernel) (by decide)
      (by decide +kernel)

end FieldValue

end RateDesk
