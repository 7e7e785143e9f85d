import RateDesk.Proofs.FieldValue.Price

/-!
# The order of prices

A price is rounded at the place where its digits stop to fit, which depends on
how large the number is and on how many digits it is spelled with.  Neither
disturbs the order.  A number whose digits all fit is its own rounding at every
further place, so the price depends on the number alone.  Of two numbers that
are rounded at different places the larger one is rounded at the earlier place;
there the mantissa is at least a tenth of the bound, and what a smaller number
can be rounded up to is just this tenth.

Main results:

- Theorem `Decimal.Cut.exists_crowded`: a cut can be moved to where no further
  digit fits.
- Theorem `Decimal.Cut.rounded_mono`: rounding at such cuts keeps the order.
- Theorem `FieldValue.price_monotone`: prices are ordered as the numbers that
  are spelled, and other spellings of one number have the same price.
-/

namespace RateDesk

namespace Decimal

/-! ## Rounding in units of the last place -/

/-- The mantissa behind a carry: the tenth of the bound, rounded up. -/
def carriedMantissa : Nat := (mantissaBound + 4) / 10

theorem carriedMantissa_eq :
    carriedMantissa = 7922816251426433759354395034 := rfl

/-- What a decimal and a rest are rounded to, in units of the last place of the
decimal. -/
def roundedUnits (d : Decimal) (rest : Rat) : Nat :=
  if rest < 1 / 2 then d.mantissa
  else if d.mantissa + 1 < mantissaBound then d.mantissa + 1
  else 10 * carriedMantissa

/-- A decimal with a rest has no room for another digit: it has all places, or
the next digit would take the mantissa past the bound. -/
def Crowded (d : Decimal) (rest : Rat) : Prop :=
  d.scale = maxScale ∨ (mantissaBound : ℚ) ≤ 10 * (d.mantissa + rest)

theorem mantissa_le_roundedUnits {d : Decimal}
    (hmantissa : d.mantissa < mantissaBound) (rest : Rat) :
    d.mantissa ≤ d.roundedUnits rest := by
  rw [mantissaBound_eq] at hmantissa
  unfold roundedUnits
  rw [carriedMantissa_eq]
  split
  next => exact Nat.le_refl _
  next => split <;> omega

/-- Rounding never goes past the mantissa behind a carry. -/
theorem roundedUnits_le {d : Decimal} (hmantissa : d.mantissa < mantissaBound)
    (rest : Rat) : d.roundedUnits rest ≤ 10 * carriedMantissa := by
  rw [mantissaBound_eq] at hmantissa
  unfold roundedUnits
  rw [mantissaBound_eq, carriedMantissa_eq]
  split
  next => omega
  next => split <;> omega

/-- Below the last mantissa nothing is carried. -/
theorem roundedUnits_le_succ {d : Decimal}
    (hmantissa : d.mantissa + 1 < mantissaBound) (rest : Rat) :
    d.roundedUnits rest ≤ d.mantissa + 1 := by
  unfold roundedUnits
  rw [if_pos hmantissa]
  split <;> omega

theorem roundedUnits_zero (d : Decimal) : d.roundedUnits 0 = d.mantissa :=
  if_pos (by norm_num)

/-- With a mantissa and a rest of a tenth of the bound, the result is no less
than the mantissa behind a carry. -/
theorem carriedMantissa_le_roundedUnits {d : Decimal} {rest : Rat}
    (hmantissa : d.mantissa < mantissaBound) (hlt : rest < 1)
    (hroom : (mantissaBound : ℚ) ≤ 10 * (d.mantissa + rest)) :
    carriedMantissa ≤ d.roundedUnits rest := by
  rw [mantissaBound_eq] at hroom
  rw [carriedMantissa_eq]
  by_cases hhalf : rest < 1 / 2
  · have hlast : (7922816251426433759354395033 : ℚ) < d.mantissa := by
      push_cast at hroom
      linarith
    have hlastNat : 7922816251426433759354395033 < d.mantissa := by
      exact_mod_cast hlast
    rw [roundedUnits, if_pos hhalf]
    omega
  · have hlast : (7922816251426433759354395032 : ℚ) < d.mantissa := by
      push_cast at hroom
      linarith
    have hlastNat : 7922816251426433759354395032 < d.mantissa := by
      exact_mod_cast hlast
    rw [mantissaBound_eq] at hmantissa
    rw [roundedUnits, if_neg hhalf, carriedMantissa_eq]
    split <;> omega

namespace Cut

variable {v v₁ v₂ rest rest₁ rest₂ : Rat} {d d₁ d₂ r : Decimal}

/-- The decimal that a number is rounded to, in units of the last place of the
cut. -/
theorem value_of_roundOff? (h : Cut v d rest) (hr : d.roundOff? rest = some r) :
    r.value = d.roundedUnits rest / 10 ^ d.scale := by
  rcases roundOff?_cases hr with ⟨hhalf, rfl⟩ | ⟨hhalf, hbump⟩
  · rw [roundedUnits, if_pos hhalf, value]
  · rw [roundedUnits, if_neg (not_lt.mpr hhalf)]
    rcases eq_of_bump? hbump with ⟨hfits, rfl⟩ | ⟨hlast, s, hs, rfl⟩
    · rw [if_pos hfits, value]
    · have hmantissa : d.mantissa + 5 = mantissaBound + 4 := by
        have hbelow := h.mantissa_lt
        omega
      rw [if_neg (Nat.not_lt_of_le hlast), value, hs, hmantissa,
        ← carriedMantissa, pow_succ]
      push_cast
      field_simp

/-- A number whose digits all fit can be cut one place further. -/
theorem further (h : Cut v d 0) (hscale : d.scale < maxScale)
    (hmantissa : 10 * d.mantissa < mantissaBound) :
    Cut v ⟨10 * d.mantissa, d.scale + 1⟩ 0 where
  mantissa_lt := hmantissa
  scale_le := hscale
  rest_nonneg := le_refl 0
  rest_lt := zero_lt_one
  full := Or.inl rfl
  value_eq := by
    rw [h.value_eq, pow_succ]
    push_cast
    field_simp
    ring

/-- Every number can be cut where no further digit fits, and is rounded to the
same decimal there. -/
theorem exists_crowded {d : Decimal} {rest : Rat} (h : Cut v d rest) :
    ∃ d' rest', Cut v d' rest' ∧ d'.Crowded rest' ∧
      (d'.roundedUnits rest' : ℚ) / 10 ^ d'.scale =
        d.roundedUnits rest / 10 ^ d.scale := by
  by_cases hcrowded : d.Crowded rest
  · exact ⟨d, rest, h, hcrowded, rfl⟩
  · have hscale : d.scale < maxScale :=
      Nat.lt_of_le_of_ne h.scale_le (fun hall => hcrowded (Or.inl hall))
    have hroom : 10 * ((d.mantissa : ℚ) + rest) < mantissaBound :=
      lt_of_not_ge (fun hge => hcrowded (Or.inr hge))
    have hrest : rest = 0 := h.full.resolve_right hcrowded
    subst hrest
    have hmantissa : 10 * d.mantissa < mantissaBound := by
      rw [add_zero] at hroom
      exact_mod_cast hroom
    rcases exists_crowded (h.further hscale hmantissa) with
      ⟨d', rest', hcut, hd', hvalue⟩
    refine ⟨d', rest', hcut, hd', hvalue.trans ?_⟩
    rw [roundedUnits_zero, roundedUnits_zero, pow_succ]
    push_cast
    field_simp
termination_by maxScale - d.scale
decreasing_by omega

/-! ## Cuts of two numbers -/

/-- The larger number is cut no later. -/
theorem scale_le_of_le (h₁ : Cut v₁ d₁ rest₁) (h₂ : Cut v₂ d₂ rest₂)
    (hcrowded : d₁.Crowded rest₁) (hle : v₁ ≤ v₂) : d₂.scale ≤ d₁.scale := by
  by_contra hlt
  have hlater : d₁.scale + 1 ≤ d₂.scale := by omega
  have hroom : (mantissaBound : ℚ) ≤ 10 * (d₁.mantissa + rest₁) := by
    rcases hcrowded with hall | hroom
    · have hplaces := h₂.scale_le
      omega
    · exact hroom
  have hlow : (2 : ℚ) ^ 96 / 10 ^ (d₁.scale + 1) ≤ v₁ := by
    have hbound : (2 : ℚ) ^ 96 ≤ 10 * (d₁.mantissa + rest₁) := by
      exact_mod_cast hroom
    rw [h₁.value_eq, div_le_div_iff₀ (by positivity) (by positivity)]
    calc (2 : ℚ) ^ 96 * 10 ^ d₁.scale
        ≤ 10 * (d₁.mantissa + rest₁) * 10 ^ d₁.scale :=
          mul_le_mul_of_nonneg_right hbound (by positivity)
      _ = (d₁.mantissa + rest₁) * 10 ^ (d₁.scale + 1) := by
          rw [pow_succ]
          ring
  have hpow : (10 : ℚ) ^ (d₁.scale + 1) ≤ 10 ^ d₂.scale :=
    pow_le_pow_right₀ (by norm_num) hlater
  have hhigh : v₂ < 2 ^ 96 / 10 ^ (d₁.scale + 1) :=
    h₂.value_lt.trans_le
      (div_le_div_of_nonneg_left (by positivity) (by positivity) hpow)
  linarith

/-- Rounding at one place keeps the order. -/
theorem roundedUnits_mono (h₁ : Cut v₁ d₁ rest₁) (h₂ : Cut v₂ d₂ rest₂)
    (hle : (d₁.mantissa : ℚ) + rest₁ ≤ d₂.mantissa + rest₂) :
    d₁.roundedUnits rest₁ ≤ d₂.roundedUnits rest₂ := by
  have hnonneg := h₁.rest_nonneg
  have hlt := h₂.rest_lt
  have hmantissa : d₁.mantissa < d₂.mantissa + 1 := by
    have hcast : (d₁.mantissa : ℚ) < d₂.mantissa + 1 := by linarith
    exact_mod_cast hcast
  rcases Nat.lt_or_eq_of_le (Nat.le_of_lt_succ hmantissa) with hbelow | hsame
  · have hbound := h₂.mantissa_lt
    calc d₁.roundedUnits rest₁
        ≤ d₁.mantissa + 1 := roundedUnits_le_succ (by omega) rest₁
      _ ≤ d₂.mantissa := hbelow
      _ ≤ d₂.roundedUnits rest₂ := mantissa_le_roundedUnits hbound rest₂
  · rw [hsame] at hle
    by_cases hhalf : rest₁ < 1 / 2
    · rw [roundedUnits, if_pos hhalf, hsame]
      exact mantissa_le_roundedUnits h₂.mantissa_lt rest₂
    · have hhalf' : ¬rest₂ < 1 / 2 := by linarith
      rw [roundedUnits, roundedUnits, if_neg hhalf, if_neg hhalf', hsame]

/-- Rounding where no further digit fits keeps the order. -/
theorem rounded_mono (h₁ : Cut v₁ d₁ rest₁) (h₂ : Cut v₂ d₂ rest₂)
    (hcrowded₁ : d₁.Crowded rest₁) (hcrowded₂ : d₂.Crowded rest₂)
    (hle : v₁ ≤ v₂) :
    (d₁.roundedUnits rest₁ : ℚ) / 10 ^ d₁.scale ≤
      d₂.roundedUnits rest₂ / 10 ^ d₂.scale := by
  have hscale := h₁.scale_le_of_le h₂ hcrowded₁ hle
  rcases Nat.lt_or_eq_of_le hscale with hearlier | hsame
  · -- The smaller number is at most carried, and the larger one is at least
    -- what a carry gives.
    have hroom : (mantissaBound : ℚ) ≤ 10 * (d₂.mantissa + rest₂) := by
      rcases hcrowded₂ with hall | hroom
      · have hplaces := h₁.scale_le
        omega
      · exact hroom
    have hleft : (d₁.roundedUnits rest₁ : ℚ) ≤ 10 * carriedMantissa := by
      exact_mod_cast roundedUnits_le h₁.mantissa_lt rest₁
    have hright : (carriedMantissa : ℚ) ≤ d₂.roundedUnits rest₂ := by
      exact_mod_cast carriedMantissa_le_roundedUnits h₂.mantissa_lt
        h₂.rest_lt hroom
    have hpow : (10 : ℚ) ^ (d₂.scale + 1) ≤ 10 ^ d₁.scale :=
      pow_le_pow_right₀ (by norm_num) hearlier
    calc (d₁.roundedUnits rest₁ : ℚ) / 10 ^ d₁.scale
        ≤ 10 * carriedMantissa / 10 ^ d₁.scale :=
          div_le_div_of_nonneg_right hleft (by positivity)
      _ ≤ 10 * carriedMantissa / 10 ^ (d₂.scale + 1) :=
          div_le_div_of_nonneg_left (by positivity) (by positivity) hpow
      _ = carriedMantissa / 10 ^ d₂.scale := by
          rw [pow_succ]
          field_simp
      _ ≤ d₂.roundedUnits rest₂ / 10 ^ d₂.scale :=
          div_le_div_of_nonneg_right hright (by positivity)
  · have hunits : (d₁.mantissa : ℚ) + rest₁ ≤ d₂.mantissa + rest₂ := by
      rw [h₁.value_eq, h₂.value_eq, hsame] at hle
      exact (div_le_div_iff_of_pos_right (by positivity)).mp hle
    have hcast : (d₁.roundedUnits rest₁ : ℚ) ≤ d₂.roundedUnits rest₂ := by
      exact_mod_cast h₁.roundedUnits_mono h₂ hunits
    rw [hsame]
    exact div_le_div_of_nonneg_right hcast (by positivity)

end Cut

/-- The decimals that are read from literals are ordered as the literals. -/
theorem ofDigits?_mono {l₁ l₂ : Literal} {d₁ d₂ : Decimal}
    (h₁ : ofDigits? l₁.whole l₁.fraction = some d₁)
    (h₂ : ofDigits? l₂.whole l₂.fraction = some d₂)
    (hle : l₁.magnitude ≤ l₂.magnitude) : d₁.value ≤ d₂.value := by
  rcases exists_cut_of_ofDigits? h₁ with ⟨kept₁, rest₁, hround₁, hcut₁⟩
  rcases exists_cut_of_ofDigits? h₂ with ⟨kept₂, rest₂, hround₂, hcut₂⟩
  rw [hcut₁.value_of_roundOff? hround₁, hcut₂.value_of_roundOff? hround₂]
  rcases hcut₁.exists_crowded with ⟨last₁, left₁, hlast₁, hcrowded₁, hvalue₁⟩
  rcases hcut₂.exists_crowded with ⟨last₂, left₂, hlast₂, hcrowded₂, hvalue₂⟩
  rw [← hvalue₁, ← hvalue₂]
  exact hlast₁.rounded_mono hlast₂ hcrowded₁ hcrowded₂ hle

end Decimal

/-! ## Spellings of one number -/

namespace Literal

/-- The same literal with more zeros before its first digit and behind its last
one. -/
def padded (l : Literal) (leading trailing : Nat) : Literal where
  negative := l.negative
  whole := List.replicate leading Digit.zero ++ l.whole
  fraction := l.fraction ++ List.replicate trailing Digit.zero

theorem fractionValue_append_zeros (digits : List Digit) (n : Nat) :
    Digits.fractionValue (digits ++ List.replicate n Digit.zero) =
      Digits.fractionValue digits := by
  induction digits with
  | nil =>
      rw [List.nil_append, Digits.fractionValue,
        Digits.fractionValue_eq_zero_iff]
      intro d hd
      rw [List.eq_of_mem_replicate hd]
      rfl
  | cons d digits ih =>
      rw [List.cons_append, Digits.fractionValue_cons, ih,
        Digits.fractionValue_cons]

/-- Zeros at either end do not change the number. -/
theorem value_padded (l : Literal) (leading trailing : Nat) :
    (l.padded leading trailing).value = l.value := by
  have hmagnitude : (l.padded leading trailing).magnitude = l.magnitude := by
    simp only [magnitude_eq, padded, Digits.value_replicate_zero_append,
      fractionValue_append_zeros]
  rw [value, value, hmagnitude]
  rfl

end Literal

/-! ## Prices -/

namespace FieldValue

variable {raw raw₁ raw₂ : String} {l l₁ l₂ : Literal} {d d₁ d₂ : Decimal}

/-- An accepted price is the decimal that is read from the digits of a positive
number in range. -/
theorem ofDigits?_of_price (h : l.Spelled raw.toList)
    (hprice : price raw = .ok d) :
    0 < l.value ∧ (5 / 10 ^ 29 ≤ l.value ∧ l.value < 2 ^ 96 - 1 / 2) ∧
      Decimal.ofDigits? l.whole l.fraction = some d := by
  rcases price_cases h with ⟨-, hother⟩ | ⟨-, hother⟩ | ⟨hrange, -⟩
  · cases hprice.symm.trans hother
  · cases hprice.symm.trans hother
  · have hpos : 0 < l.value := lt_of_lt_of_le (by norm_num) hrange.1
    refine ⟨hpos, hrange, ?_⟩
    rw [price_of_pos h hpos] at hprice
    split at hprice
    next => cases hprice
    next found hread =>
      split at hprice
      next => cases hprice
      next =>
        cases hprice
        exact hread

/-- Of two accepted spellings the one with the smaller number gives no larger
price. -/
theorem price_value_le (h₁ : l₁.Spelled raw₁.toList)
    (h₂ : l₂.Spelled raw₂.toList) (hprice₁ : price raw₁ = .ok d₁)
    (hprice₂ : price raw₂ = .ok d₂) (hle : l₁.value ≤ l₂.value) :
    d₁.value ≤ d₂.value := by
  rcases ofDigits?_of_price h₁ hprice₁ with ⟨hpos₁, -, hread₁⟩
  rcases ofDigits?_of_price h₂ hprice₂ with ⟨hpos₂, -, hread₂⟩
  rw [Literal.value_of_pos hpos₁, Literal.value_of_pos hpos₂] at hle
  exact Decimal.ofDigits?_mono hread₁ hread₂ hle

/-- What spells the number of an accepted price is accepted, and is a price of
the same value. -/
theorem exists_price_of_value_eq (h₁ : l₁.Spelled raw₁.toList)
    (h₂ : l₂.Spelled raw₂.toList) (hprice₁ : price raw₁ = .ok d₁)
    (hvalue : l₁.value = l₂.value) :
    ∃ d₂, price raw₂ = .ok d₂ ∧ d₂.value = d₁.value := by
  rcases ofDigits?_of_price h₁ hprice₁ with ⟨-, ⟨hlow, hhigh⟩, -⟩
  rw [hvalue] at hlow hhigh
  rcases exists_price_near h₂ hlow hhigh with ⟨d₂, hprice₂, -⟩
  exact ⟨d₂, hprice₂, le_antisymm
    (price_value_le h₂ h₁ hprice₂ hprice₁ hvalue.ge)
    (price_value_le h₁ h₂ hprice₁ hprice₂ hvalue.le)⟩

/-- Accepted prices are ordered as the numbers that the fields spell.  Every
other spelling of the number of an accepted price is accepted, with a price of
the same value; such spellings are those with another sign that is no minus
sign, and with any number of zeros before the digits and behind the digits after
the point. -/
theorem price_monotone (h₁ : l₁.Spelled raw₁.toList)
    (h₂ : l₂.Spelled raw₂.toList) (hprice₁ : price raw₁ = .ok d₁) :
    (∀ d₂, price raw₂ = .ok d₂ → l₁.value ≤ l₂.value → d₁.value ≤ d₂.value) ∧
    (l₁.value = l₂.value → ∃ d₂, price raw₂ = .ok d₂ ∧ d₂.value = d₁.value) ∧
    (∀ leading trailing, l₂ = l₁.padded leading trailing →
      ∃ d₂, price raw₂ = .ok d₂ ∧ d₂.value = d₁.value) := by
  refine ⟨?_, exists_price_of_value_eq h₁ h₂ hprice₁, ?_⟩
  · intro d₂ hprice₂ hle
    exact price_value_le h₁ h₂ hprice₁ hprice₂ hle
  · rintro leading trailing rfl
    exact exists_price_of_value_eq h₁ h₂ hprice₁
      (l₁.value_padded leading trailing).symm

/-- The first number is rounded at the last place and carried, the second one is
rounded one place earlier, and both have the same price.  The third one is
spelled again with zeros at both ends, more than a price has places. -/
theorem price_monotone_at_carry :
    (∃ d₁ d₂, price "7.92281625142643375935439503359" = .ok d₁ ∧
      price "7.9228162514264337593543950336" = .ok d₂ ∧ d₁.value ≤ d₂.value) ∧
    ∃ d, price "+007.500000000000000000000000000000" = .ok d ∧
      d.value = Decimal.value ⟨75, 1⟩ := by
  have hcarried : Literal.Spelled
      ⟨false, [7], [9, 2, 2, 8, 1, 6, 2, 5, 1, 4, 2, 6, 4, 3, 3, 7, 5, 9, 3, 5,
        4, 3, 9, 5, 0, 3, 3, 5, 9]⟩ "7.92281625142643375935439503359".toList :=
    Literal.read?_eq_some_iff.mp (by decide +kernel)
  have hearlier : Literal.Spelled
      ⟨false, [7], [9, 2, 2, 8, 1, 6, 2, 5, 1, 4, 2, 6, 4, 3, 3, 7, 5, 9, 3, 5,
        4, 3, 9, 5, 0, 3, 3, 6]⟩ "7.9228162514264337593543950336".toList :=
    Literal.read?_eq_some_iff.mp (by decide +kernel)
  have hshort : Literal.Spelled ⟨false, [7], [5]⟩ "7.5".toList :=
    Literal.read?_eq_some_iff.mp (by decide +kernel)
  have hlong : (Literal.padded ⟨false, [7], [5]⟩ 2 29).Spelled
      "+007.500000000000000000000000000000".toList :=
    Literal.read?_eq_some_iff.mp (by decide +kernel)
  have hprice : price "7.92281625142643375935439503359" =
      .ok ⟨7922816251426433759354395034, 27⟩ := by decide +kernel
  have hprice' : price "7.9228162514264337593543950336" =
      .ok ⟨7922816251426433759354395034, 27⟩ := by decide +kernel
  refine ⟨⟨_, _, hprice, hprice', ?_⟩, ?_⟩
  · exact (price_monotone hcarried hearlier hprice).1 _ hprice'
      (by decide +kernel)
  · exact (price_monotone hshort hlong (by decide +kernel)).2.2 2 29 rfl

end FieldValue

end RateDesk
