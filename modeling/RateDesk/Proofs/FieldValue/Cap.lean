import RateDesk.Proofs.FieldValue.Price

/-!
# Limits by their value

A limit is tested digit by digit like a price: for a sign, for a digit behind
the point that is not zero, for too many digits before it.  In effect it is
judged by the number that it spells.  A limit is also a price, and as a price it
is not rounded: the decimal that is read is off by at most half a unit of its
last place, and an integer has no such neighbour but itself.

Main results:

- Theorem `Literal.hasFraction_iff`: the digits behind the point tell whether a
  literal denotes an integer.
- Theorem `Decimal.value_eq_of_near`: a decimal next to an integer is this
  integer.
- Theorem `FieldValue.cap_by_value`: the numbers for which a limit is rejected,
  and the limit and the price of every other number.
-/

namespace RateDesk

/-! ## Integers -/

namespace Literal

/-- The only integer that a literal can denote, but for the sign, is the one
before its point. -/
theorem eq_whole_of_magnitude_eq {l : Literal} {n : ℤ} (h : l.magnitude = n) :
    n = Digits.value l.whole ∧ Digits.fractionValue l.fraction = 0 := by
  have hnonneg := Digits.fractionValue_nonneg l.fraction
  have hlt := Digits.fractionValue_lt_one l.fraction
  rw [l.magnitude_eq] at h
  have hlow : ((Digits.value l.whole : ℤ) : ℚ) ≤ n := by
    push_cast
    linarith
  have hhigh : (n : ℚ) < ((Digits.value l.whole + 1 : ℤ) : ℚ) := by
    push_cast
    linarith
  have hn : n = Digits.value l.whole := by
    have hle := Int.cast_le.mp hlow
    have hlt := Int.cast_lt.mp hhigh
    omega
  refine ⟨hn, ?_⟩
  rw [hn, Int.cast_natCast] at h
  linarith

/-- A digit behind the point that is not zero stands in a literal that denotes
no integer. -/
theorem hasFraction_iff (l : Literal) :
    l.hasFraction = true ↔ ∀ n : ℤ, l.magnitude ≠ n := by
  have hzeros : l.hasFraction = false ↔
      Digits.fractionValue l.fraction = 0 := by
    rw [Digits.fractionValue_eq_zero_iff]
    simp [hasFraction]
  constructor
  · intro hfraction n hn
    rw [hzeros.mpr (eq_whole_of_magnitude_eq hn).2] at hfraction
    exact Bool.false_ne_true hfraction
  · intro hnone
    by_contra hfraction
    apply hnone (Digits.value l.whole)
    rw [l.magnitude_eq, hzeros.mp (by simpa using hfraction), add_zero,
      Int.cast_natCast]

/-- A literal without a fraction has the magnitude of its whole digits. -/
theorem magnitude_of_hasFraction_eq_false {l : Literal}
    (h : l.hasFraction = false) : l.magnitude = Digits.value l.whole := by
  have hinteger : ¬∀ n : ℤ, l.magnitude ≠ n := by
    rw [← hasFraction_iff, h]
    exact Bool.false_ne_true
  push Not at hinteger
  rcases hinteger with ⟨n, hn⟩
  rw [hn, (eq_whole_of_magnitude_eq hn).1, Int.cast_natCast]

end Literal

/-- A decimal that is off from an integer by at most half a unit of its last
place is this integer. -/
theorem Decimal.value_eq_of_near {d : Decimal} {n : Nat}
    (h : |d.value - n| ≤ 1 / 2 / 10 ^ d.scale) : d.value = n := by
  have hpow : (0 : ℚ) < 10 ^ d.scale := by positivity
  -- Counted in units of the last place, both are integers.
  have hunits : d.value - n =
      ((d.mantissa - n * 10 ^ d.scale : ℤ) : ℚ) / 10 ^ d.scale := by
    rw [Decimal.value]
    push_cast
    field_simp
  rw [hunits, abs_div, abs_of_pos hpow, div_le_div_iff_of_pos_right hpow,
    ← Int.cast_abs] at h
  have hlt : |(d.mantissa - n * 10 ^ d.scale : ℤ)| < 1 := by
    have hcast : ((|(d.mantissa - n * 10 ^ d.scale : ℤ)| : ℤ) : ℚ) < (1 : ℤ) :=
      h.trans_lt (by norm_num)
    exact Int.cast_lt.mp hcast
  rw [Int.abs_lt_one_iff.mp hlt, Int.cast_zero, zero_div] at hunits
  exact sub_eq_zero.mp hunits

/-! ## Limits -/

namespace FieldValue

variable {raw : String} {l : Literal}

theorem cap_of_not_spelled (h : ¬∃ l : Literal, l.Spelled raw.toList) :
    cap raw = .error (.notANumber raw) := by
  simp only [cap, positive_of_not_spelled h]
  rfl

theorem cap_of_nonpos (h : l.Spelled raw.toList) (hv : l.value ≤ 0) :
    cap raw = .error (.notPositive raw) := by
  simp only [cap, positive_of_spelled h, if_neg (not_lt.mpr hv)]
  rfl

/-- The limit of a positive number is the number before its point, unless there
is more behind it or this is too large. -/
theorem cap_of_pos (h : l.Spelled raw.toList) (hv : 0 < l.value) :
    cap raw =
      if l.hasFraction then .error (.fractional raw)
      else if Digits.value l.whole < capBound then .ok (Digits.value l.whole)
      else .error (.outOfRange raw) := by
  simp only [cap, positive_of_spelled h, if_pos hv]
  rfl

/-- What a limit field gives, by the number that it spells. -/
theorem cap_cases (h : l.Spelled raw.toList) :
    (l.value ≤ 0 ∧ cap raw = .error (.notPositive raw)) ∨
    ((0 < l.value ∧ ∀ n : ℤ, l.value ≠ n) ∧
      cap raw = .error (.fractional raw)) ∨
    ∃ n : ℕ, 0 < n ∧ l.value = n ∧
      ((2 ^ 64 ≤ n ∧ cap raw = .error (.outOfRange raw)) ∨
        (n < 2 ^ 64 ∧ cap raw = .ok n)) := by
  by_cases hpos : 0 < l.value
  · rw [cap_of_pos h hpos, Literal.value_of_pos hpos]
    rw [Literal.value_of_pos hpos] at hpos
    refine Or.inr ?_
    cases hfraction : l.hasFraction with
    | true => exact Or.inl ⟨⟨hpos, l.hasFraction_iff.mp hfraction⟩, if_pos rfl⟩
    | false =>
        have hwhole := Literal.magnitude_of_hasFraction_eq_false hfraction
        rw [hwhole] at hpos
        refine Or.inr ⟨Digits.value l.whole, Nat.cast_pos.mp hpos, hwhole, ?_⟩
        by_cases hlt : Digits.value l.whole < capBound
        · exact Or.inr ⟨hlt, if_pos hlt⟩
        · exact Or.inl ⟨Nat.le_of_not_lt hlt, if_neg hlt⟩
  · exact Or.inl ⟨not_lt.mp hpos, cap_of_nonpos h (not_lt.mp hpos)⟩

/-- What is not rejected as no number spells one. -/
theorem exists_spelled_of_cap {result : Except FieldError Nat}
    (h : cap raw = result) (hne : result ≠ .error (.notANumber raw)) :
    ∃ l : Literal, l.Spelled raw.toList := by
  by_contra hnone
  exact hne (h.symm.trans (cap_of_not_spelled hnone))

theorem cap_eq_notANumber_iff :
    cap raw = .error (.notANumber raw) ↔
      ¬∃ l : Literal, l.Spelled raw.toList := by
  refine ⟨?_, cap_of_not_spelled⟩
  rintro hcap ⟨l, h⟩
  rcases cap_cases h with
    ⟨-, hother⟩ | ⟨-, hother⟩ | ⟨n, -, -, ⟨-, hother⟩ | ⟨-, hother⟩⟩
  all_goals cases hcap.symm.trans hother

/-- A limit is refused as not positive exactly when its number is not above
zero. -/
theorem cap_eq_notPositive_iff (h : l.Spelled raw.toList) :
    cap raw = .error (.notPositive raw) ↔ l.value ≤ 0 := by
  refine ⟨?_, cap_of_nonpos h⟩
  intro hcap
  rcases cap_cases h with
    ⟨hv, -⟩ | ⟨-, hother⟩ | ⟨n, -, -, ⟨-, hother⟩ | ⟨-, hother⟩⟩
  · exact hv
  all_goals cases hcap.symm.trans hother

/-- A limit is refused as fractional exactly when its number is above zero and
not whole. -/
theorem cap_eq_fractional_iff (h : l.Spelled raw.toList) :
    cap raw = .error (.fractional raw) ↔
      0 < l.value ∧ ∀ n : ℤ, l.value ≠ n := by
  constructor
  · intro hcap
    rcases cap_cases h with
      ⟨-, hother⟩ | ⟨hv, -⟩ | ⟨n, -, -, ⟨-, hother⟩ | ⟨-, hother⟩⟩
    · cases hcap.symm.trans hother
    · exact hv
    all_goals cases hcap.symm.trans hother
  · rintro ⟨hpos, hnone⟩
    rcases cap_cases h with ⟨hv, -⟩ | ⟨-, hcap⟩ | ⟨n, -, hv, -⟩
    · exact absurd hpos (not_lt.mpr hv)
    · exact hcap
    · exact absurd hv (hnone n)

/-- An integer above zero is a limit, or is out of range. -/
theorem cap_of_integer (h : l.Spelled raw.toList) {n : ℕ} (hpos : 0 < n)
    (hv : l.value = n) :
    cap raw = if n < 2 ^ 64 then .ok n else .error (.outOfRange raw) := by
  rcases cap_cases h with ⟨hle, -⟩ | ⟨⟨-, hnone⟩, -⟩ | ⟨m, -, hm, hcap⟩
  · rw [hv] at hle
    exact absurd (Nat.cast_pos.mpr hpos) (not_lt.mpr hle)
  · exact absurd hv (hnone n)
  · have hsame : m = n := Nat.cast_injective (hm.symm.trans hv)
    subst hsame
    rcases hcap with ⟨hge, hcap⟩ | ⟨hlt, hcap⟩
    · rw [hcap, if_neg (Nat.not_lt_of_le hge)]
    · rw [hcap, if_pos hlt]

/-- A limit is out of range exactly when its number is whole and at least the
bound. -/
theorem cap_eq_outOfRange_iff (h : l.Spelled raw.toList) :
    cap raw = .error (.outOfRange raw) ↔ ∃ n : ℤ, l.value = n ∧ 2 ^ 64 ≤ n := by
  constructor
  · intro hcap
    rcases cap_cases h with
      ⟨-, hother⟩ | ⟨-, hother⟩ | ⟨n, -, hv, ⟨hge, -⟩ | ⟨-, hother⟩⟩
    · cases hcap.symm.trans hother
    · cases hcap.symm.trans hother
    · exact ⟨n, hv, by exact_mod_cast hge⟩
    · cases hcap.symm.trans hother
  · rintro ⟨n, hv, hge⟩
    lift n to ℕ using (by omega)
    have hlarge : 2 ^ 64 ≤ n := by exact_mod_cast hge
    rw [cap_of_integer h (by omega) hv, if_neg (Nat.not_lt_of_le hlarge)]

/-- The accepted limits are the positive whole numbers below the bound. -/
theorem cap_eq_ok_iff {n : ℕ} :
    cap raw = .ok n ↔ 0 < n ∧ n < 2 ^ 64 ∧
      ∃ l : Literal, l.Spelled raw.toList ∧ l.value = n := by
  constructor
  · intro hcap
    rcases exists_spelled_of_cap hcap (by simp) with ⟨l, h⟩
    rcases cap_cases h with
      ⟨-, hother⟩ | ⟨-, hother⟩ | ⟨m, hpos, hv, ⟨-, hother⟩ | ⟨hlt, hother⟩⟩
    · cases hcap.symm.trans hother
    · cases hcap.symm.trans hother
    · cases hcap.symm.trans hother
    · cases hcap.symm.trans hother
      exact ⟨hpos, hlt, l, h, hv⟩
  · rintro ⟨hpos, hlt, l, h, hv⟩
    rw [cap_of_integer h hpos hv, if_pos hlt]

/-! ## Limits as prices -/

theorem price_eq_notANumber_iff :
    price raw = .error (.notANumber raw) ↔
      ¬∃ l : Literal, l.Spelled raw.toList := by
  refine ⟨?_, price_of_not_spelled⟩
  rintro hprice ⟨l, h⟩
  rcases price_cases h with ⟨-, hother⟩ | ⟨-, hother⟩ | ⟨-, d, hother, -⟩
  all_goals cases hprice.symm.trans hother

/-- A text that is a limit is a price of the same value. -/
theorem exists_price_of_cap {n : ℕ} (h : cap raw = .ok n) :
    ∃ d, price raw = .ok d ∧ d.value = n := by
  rcases cap_eq_ok_iff.mp h with ⟨hpos, hlt, l, hl, hv⟩
  have hone : (1 : ℚ) ≤ n := by exact_mod_cast hpos
  have hbound : (n : ℚ) < 2 ^ 64 := by exact_mod_cast hlt
  have hlow : 5 / 10 ^ 29 ≤ l.value := by
    rw [hv]
    exact le_trans (by norm_num) hone
  have hhigh : l.value < 2 ^ 96 - 1 / 2 := by
    rw [hv]
    exact hbound.trans (by norm_num)
  rcases exists_price_near hl hlow hhigh with ⟨d, hd, -, -, -, hnear⟩
  rw [hv] at hnear
  exact ⟨d, hd, Decimal.value_eq_of_near hnear⟩

/-- A limit field is rejected as no number, as not positive, as fractional or as
out of range by the number that it spells alone, and otherwise this number is
the limit.  The same text is then a price of the same value, and as a price it
is rejected as no number or as not positive in the same cases. -/
theorem cap_by_value (raw : String) :
    (cap raw = .error (.notANumber raw) ↔
      ¬∃ l : Literal, l.Spelled raw.toList) ∧
    (cap raw = .error (.notPositive raw) ↔
      ∃ l : Literal, l.Spelled raw.toList ∧ l.value ≤ 0) ∧
    (cap raw = .error (.fractional raw) ↔ ∃ l : Literal, l.Spelled raw.toList ∧
      0 < l.value ∧ ∀ n : ℤ, l.value ≠ n) ∧
    (cap raw = .error (.outOfRange raw) ↔ ∃ l : Literal, l.Spelled raw.toList ∧
      ∃ n : ℤ, l.value = n ∧ 2 ^ 64 ≤ n) ∧
    (∀ n : ℕ, cap raw = .ok n ↔ 0 < n ∧ n < 2 ^ 64 ∧
      ∃ l : Literal, l.Spelled raw.toList ∧ l.value = n) ∧
    (∀ n : ℕ, cap raw = .ok n → ∃ d, price raw = .ok d ∧ d.value = n) ∧
    (cap raw = .error (.notANumber raw) ↔
      price raw = .error (.notANumber raw)) ∧
    (cap raw = .error (.notPositive raw) ↔
      price raw = .error (.notPositive raw)) := by
  have hpositive : cap raw = .error (.notPositive raw) ↔
      ∃ l : Literal, l.Spelled raw.toList ∧ l.value ≤ 0 := by
    constructor
    · intro hcap
      rcases exists_spelled_of_cap hcap (by simp) with ⟨l, h⟩
      exact ⟨l, h, (cap_eq_notPositive_iff h).mp hcap⟩
    · rintro ⟨l, h, hv⟩
      exact cap_of_nonpos h hv
  refine ⟨cap_eq_notANumber_iff, hpositive, ⟨?_, ?_⟩, ⟨?_, ?_⟩,
    fun n => cap_eq_ok_iff, fun n => exists_price_of_cap,
    cap_eq_notANumber_iff.trans price_eq_notANumber_iff.symm, ⟨?_, ?_⟩⟩
  · intro hcap
    rcases exists_spelled_of_cap hcap (by simp) with ⟨l, h⟩
    exact ⟨l, h, (cap_eq_fractional_iff h).mp hcap⟩
  · rintro ⟨l, h, hv⟩
    exact (cap_eq_fractional_iff h).mpr hv
  · intro hcap
    rcases exists_spelled_of_cap hcap (by simp) with ⟨l, h⟩
    exact ⟨l, h, (cap_eq_outOfRange_iff h).mp hcap⟩
  · rintro ⟨l, h, hv⟩
    exact (cap_eq_outOfRange_iff h).mpr hv
  · intro hcap
    rcases hpositive.mp hcap with ⟨l, h, hv⟩
    exact price_of_nonpos h hv
  · intro hprice
    rcases exists_spelled_of_price hprice (by simp) with ⟨l, h⟩
    exact cap_of_nonpos h ((price_eq_notPositive_iff h).mp hprice)

/-- The largest limit, with more zeros behind its point than a price has places;
the next integer is no limit any more. -/
theorem cap_by_value_largest :
    cap "+018446744073709551615.00000000000000000000000000000000" =
      .ok 18446744073709551615 ∧
    (∃ d,
      price "+018446744073709551615.00000000000000000000000000000000" = .ok d ∧
      d.value = (18446744073709551615 : ℕ)) ∧
    cap "18446744073709551616.0" =
      .error (.outOfRange "18446744073709551616.0") := by
  have hcap : cap "+018446744073709551615.00000000000000000000000000000000" =
      .ok 18446744073709551615 := by decide +kernel
  have hspelled : Literal.Spelled
      ⟨false, [1, 8, 4, 4, 6, 7, 4, 4, 0, 7, 3, 7, 0, 9, 5, 5, 1, 6, 1, 6], [0]⟩
      "18446744073709551616.0".toList :=
    Literal.read?_eq_some_iff.mp (by decide +kernel)
  have hlarge := (cap_by_value "18446744073709551616.0").2.2.2.1
  exact ⟨hcap, (cap_by_value _).2.2.2.2.2.1 _ hcap,
    hlarge.mpr ⟨_, hspelled, 2 ^ 64, by decide +kernel, le_refl _⟩⟩

end FieldValue

end RateDesk
