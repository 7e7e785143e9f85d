import RateDesk.Number.Decimal

/-!
# Decimals read without rounding

Reading a decimal takes in digits while they fit.  If all digits of a literal
fit, nothing is rounded: the mantissa is the number that the digits spell
without their point, and the scale is the number of digits behind it.

Main results:

- Theorem `Decimal.ofDigits?_exact`: the decimal of digits that all fit.
- Theorem `Literal.read?_plain`: a literal without a sign is read back.
- Theorem `Decimal.exists_plain`: a decimal is written as such a literal.
-/

namespace RateDesk

/-! ## Digits -/

namespace Digits

/-- The number that a run of digits denotes behind the digits of another
number. -/
def valueFrom (n : Nat) (digits : List Digit) : Nat :=
  digits.foldl (fun n d => 10 * n + d.val) n

theorem value_eq_valueFrom (digits : List Digit) :
    value digits = valueFrom 0 digits := rfl

theorem valueFrom_cons (n : Nat) (d : Digit) (digits : List Digit) :
    valueFrom n (d :: digits) = valueFrom (10 * n + d.val) digits := rfl

/-- Digits that follow others are read on from their number. -/
theorem value_append (a b : List Digit) :
    value (a ++ b) = valueFrom (value a) b := by
  rw [value, List.foldl_append]
  rfl

/-- More digits do not make a number smaller. -/
theorem le_valueFrom (n : Nat) (digits : List Digit) :
    n ≤ valueFrom n digits := by
  induction digits generalizing n with
  | nil => exact Nat.le_refl n
  | cons d digits ih =>
      rw [valueFrom_cons]
      have hle := ih (10 * n + d.val)
      omega

/-- Leading zeros do not count. -/
theorem value_replicate_zero_append (n : Nat) (digits : List Digit) :
    value (List.replicate n Digit.zero ++ digits) = value digits := by
  have hzeros : value (List.replicate n Digit.zero) = 0 := by
    induction n with
    | zero => rfl
    | succ n ih =>
        rw [List.replicate_succ, value_eq_valueFrom, valueFrom_cons]
        exact ih
  rw [value_append, hzeros, value_eq_valueFrom]

/-- Digits that are all zero denote zero. -/
theorem value_eq_zero {digits : List Digit} (h : ∀ d ∈ digits, d.val = 0) :
    value digits = 0 := by
  have hzero : digits = List.replicate digits.length Digit.zero := by
    rw [List.eq_replicate_iff]
    refine ⟨rfl, ?_⟩
    intro d hd
    exact Fin.ext (h d hd)
  rw [hzero, ← List.append_nil (List.replicate _ _),
    value_replicate_zero_append]
  rfl

end Digits

/-- A literal all of whose digits are zero denotes zero. -/
theorem Literal.value_eq_zero_of_isZero {l : Literal} (h : l.isZero = true) :
    Digits.value (l.whole ++ l.fraction) = 0 := by
  simp only [isZero, Bool.and_eq_true, List.all_eq_true, beq_iff_eq] at h
  apply Digits.value_eq_zero
  intro d hd
  rcases List.mem_append.mp hd with hd | hd
  · exact h.1 d hd
  · exact h.2 d hd

/-! ## Decimals -/

namespace Decimal

/-- Whole digits that stay below the bound are all read. -/
theorem foldlM_whole {digits : List Digit} {m : Nat}
    (h : Digits.valueFrom m digits < mantissaBound) :
    digits.foldlM
      (fun m d => if 10 * m + d.val < mantissaBound then some (10 * m + d.val)
        else none) m =
        some (Digits.valueFrom m digits) := by
  induction digits generalizing m with
  | nil => rfl
  | cons d digits ih =>
      rw [Digits.valueFrom_cons] at h ⊢
      have hle := Digits.le_valueFrom (10 * m + d.val) digits
      have hfits : 10 * m + d.val < mantissaBound := by omega
      rw [List.foldlM_cons, if_pos hfits]
      exact ih h

/-- Fraction digits that stay below the bound and leave the scale in range are
all read. -/
theorem readFraction?_exact {digits : List Digit} {m s : Nat}
    (hvalue : Digits.valueFrom m digits < mantissaBound)
    (hscale : s + digits.length ≤ maxScale) :
    readFraction? ⟨m, s⟩ digits =
      some ⟨Digits.valueFrom m digits, s + digits.length⟩ := by
  induction digits generalizing m s with
  | nil => rfl
  | cons d digits ih =>
      rw [Digits.valueFrom_cons] at hvalue ⊢
      rw [List.length_cons] at hscale ⊢
      have hle := Digits.le_valueFrom (10 * m + d.val) digits
      have hfits : s < maxScale ∧ 10 * m + d.val < mantissaBound := by omega
      simp only [readFraction?, if_pos hfits]
      rw [ih hvalue (by omega)]
      simp only [Nat.add_assoc, Nat.add_comm 1]

/-- Digits that all fit are read without rounding. -/
theorem ofDigits?_exact {whole fraction : List Digit}
    (hvalue : Digits.value (whole ++ fraction) < mantissaBound)
    (hscale : fraction.length ≤ maxScale) :
    ofDigits? whole fraction =
      some ⟨Digits.value (whole ++ fraction), fraction.length⟩ := by
  rw [Digits.value_append] at hvalue ⊢
  have hle := Digits.le_valueFrom (Digits.value whole) fraction
  have hwhole : readWhole? whole = some (Digits.value whole) := by
    apply foldlM_whole
    rw [← Digits.value_eq_valueFrom]
    omega
  have hfraction := readFraction?_exact hvalue (by rwa [Nat.zero_add])
  rw [Nat.zero_add] at hfraction
  simp only [ofDigits?, hwhole]
  exact hfraction

/-! ## Written decimals -/

/-- The zeros in front of a decimal do not change its digits. -/
theorem value_paddedDigits (d : Decimal) :
    Digits.value d.paddedDigits = d.mantissa := by
  rw [paddedDigits, Digits.value_replicate_zero_append, Digits.value_ofNat]

/-- There is at least one digit before the point. -/
theorem scale_lt_length_paddedDigits (d : Decimal) :
    d.scale < d.paddedDigits.length := by
  simp only [paddedDigits, List.length_append, List.length_replicate]
  omega

end Decimal

namespace Literal

/-- The characters of a literal without a sign; there is no point if there are
no digits behind it. -/
def plain (whole fraction : List Digit) : List Char :=
  if fraction = [] then Digits.chars whole
  else Digits.chars whole ++ '.' :: Digits.chars fraction

/-- The signs that may stand before a literal: none, plus or minus. -/
def IsSign (sign : List Char) : Prop :=
  sign = [] ∨ sign = ['+'] ∨ sign = ['-']

theorem not_mem_chars {c : Char} (hc : Digit.ofChar? c = none)
    (digits : List Digit) : c ∉ Digits.chars digits := by
  intro hmem
  rcases List.mem_map.mp hmem with ⟨d, -, rfl⟩
  rw [Digit.ofChar?_char] at hc
  simp at hc

/-- A plain literal starts with a digit, and all its characters are digits or a
point. -/
theorem plain_eq_cons {whole : List Digit} (hwhole : whole ≠ [])
    (fraction : List Digit) :
    ∃ d rest, plain whole fraction = Digit.char d :: rest ∧
      ∀ c ∈ rest, c = '.' ∨ ∃ d, c = Digit.char d := by
  have hchars : ∀ digits, ∀ c ∈ Digits.chars digits, ∃ d, c = Digit.char d := by
    intro digits c hc
    rcases List.mem_map.mp hc with ⟨d, -, rfl⟩
    exact ⟨d, rfl⟩
  cases whole with
  | nil => exact absurd rfl hwhole
  | cons d whole =>
      by_cases hfraction : fraction = []
      · refine ⟨d, Digits.chars whole,
          by simp [plain, hfraction, Digits.chars], ?_⟩
        intro c hc
        exact Or.inr (hchars whole c hc)
      · refine ⟨d, Digits.chars whole ++ '.' :: Digits.chars fraction,
          by simp [plain, hfraction, Digits.chars], ?_⟩
        intro c hc
        rcases List.mem_append.mp hc with hc | hc
        · exact Or.inr (hchars whole c hc)
        · rcases List.mem_cons.mp hc with hc | hc
          · exact Or.inl hc
          · exact Or.inr (hchars fraction c hc)

theorem stripSign_plain {whole : List Digit} (hwhole : whole ≠ [])
    (fraction : List Digit) :
    stripSign (plain whole fraction) = (false, plain whole fraction) := by
  rcases plain_eq_cons hwhole fraction with ⟨d, rest, hplain, -⟩
  have hsign : ∀ d : Digit, d.char ≠ '-' ∧ d.char ≠ '+' := by decide
  rw [hplain]
  simp [stripSign, hsign d]

/-- Plain digits are read back. -/
theorem readUnsigned?_plain {whole : List Digit} (hwhole : whole ≠ [])
    (fraction : List Digit) :
    readUnsigned? (plain whole fraction) = some (whole, fraction) := by
  unfold plain
  split
  next hfraction =>
    have hpoint : Text.cutAt? '.' (Digits.chars whole) = none := by
      rw [Text.cutAt?_eq_none_iff]
      exact not_mem_chars (by decide) whole
    simp [readUnsigned?, hpoint, Digits.read?_chars hwhole, hfraction]
  next hfraction =>
    have hpoint :
        Text.cutAt? '.' (Digits.chars whole ++ '.' :: Digits.chars fraction) =
        some (Digits.chars whole, Digits.chars fraction) := by
      rw [Text.cutAt?_eq_some_iff]
      exact ⟨rfl, not_mem_chars (by decide) whole⟩
    simp [readUnsigned?, hpoint, Digits.read?_chars hwhole,
      Digits.read?_chars hfraction]

/-- A plain literal is read back digit by digit. -/
theorem read?_plain {whole : List Digit} (hwhole : whole ≠ [])
    (fraction : List Digit) :
    read? (plain whole fraction) = some ⟨false, whole, fraction⟩ := by
  simp [read?, stripSign_plain hwhole, readUnsigned?_plain hwhole]

end Literal

/-- A decimal is written as a plain literal that has its digits and its
places. -/
theorem Decimal.exists_plain (d : Decimal) :
    ∃ whole fraction, whole ≠ [] ∧ d.chars = Literal.plain whole fraction ∧
      Digits.value (whole ++ fraction) = d.mantissa ∧
      fraction.length = d.scale := by
  have hlength := d.scale_lt_length_paddedDigits
  let cut := d.paddedDigits.length - d.scale
  have hwhole : d.paddedDigits.take cut ≠ [] := by
    rw [← List.length_pos_iff, List.length_take]
    omega
  have hdrop : (d.paddedDigits.drop cut).length = d.scale := by
    rw [List.length_drop]
    omega
  have hpoint : d.paddedDigits.drop cut = [] ↔ d.scale = 0 := by
    rw [← List.length_eq_zero_iff, hdrop]
  refine ⟨d.paddedDigits.take cut, d.paddedDigits.drop cut, hwhole,
    ?_, ?_, hdrop⟩
  · unfold Decimal.chars Literal.plain
    by_cases hscale : d.scale = 0
    · rw [if_pos hscale, if_pos (hpoint.mpr hscale),
        List.take_of_length_le (by omega)]
    · rw [if_neg hscale, if_neg (mt hpoint.mp hscale)]
  · rw [List.take_append_drop, d.value_paddedDigits]

end RateDesk
