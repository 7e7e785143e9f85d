import RateDesk.FieldValue
import RateDesk.Proofs.Number.Exact

/-!
# Written values are read back

Each kind of value has a written form: a pair is two codes joined by a dash, a
price is written with all its places, an amount limit in decimal digits.
Reading the written form of a value in range gives this value.

Main results:

- Theorems `FieldValue.pair_text`, `FieldValue.price_text` and
  `FieldValue.cap_natText`.
-/

namespace RateDesk

/-- A price that can be kept: positive, below the bound, and with few enough
places. -/
structure Decimal.InRange (d : Decimal) : Prop where
  mantissa_pos : 0 < d.mantissa
  mantissa_lt : d.mantissa < mantissaBound
  scale_le : d.scale ≤ maxScale

theorem CurrencyCode.dash_not_mem_chars (code : CurrencyCode) :
    '-' ∉ code.chars := by
  have hne : ∀ letter : Letter, '-' ≠ letter.val := by
    intro letter heq
    have hupper := letter.property
    rw [← heq] at hupper
    simp at hupper
  simp [chars, hne]

namespace FieldValue

/-- The text of a pair is read back as the pair. -/
theorem pair_text (p : CurrencyPair) : pair p.text = .ok p := by
  have hcut : Text.cutAt? '-' p.chars =
      some (p.source.chars, p.destination.chars) :=
    Text.cutAt?_eq_some_iff.mpr ⟨rfl, p.source.dash_not_mem_chars⟩
  have hread : CurrencyPair.ofChars? p.chars = some p := by
    simp [CurrencyPair.ofChars?, hcut]
  simp only [pair, CurrencyPair.text, String.toList_ofList, hread]

/-- A literal whose digits are not all zero is positive. -/
theorem positive_of_read? {raw : String} {whole fraction : List Digit}
    (hread : Literal.read? raw.toList = some ⟨false, whole, fraction⟩)
    (hvalue : 0 < Digits.value (whole ++ fraction)) :
    positive raw = .ok ⟨false, whole, fraction⟩ := by
  have hzero : Literal.isZero ⟨false, whole, fraction⟩ = false := by
    cases h : Literal.isZero ⟨false, whole, fraction⟩ with
    | false => rfl
    | true =>
        have hnone := Literal.value_eq_zero_of_isZero h
        simp only at hnone
        omega
  simp [positive, hread, hzero]

/-- A written price is read back, with the same mantissa and the same scale. -/
theorem price_text {d : Decimal} (h : d.InRange) : price d.text = .ok d := by
  rcases d.exists_plain with ⟨whole, fraction, hwhole, hchars, hvalue, hscale⟩
  have hpositive : positive d.text = .ok ⟨false, whole, fraction⟩ := by
    apply positive_of_read?
    · rw [Decimal.text, String.toList_ofList, hchars,
        Literal.read?_plain hwhole]
    · rw [hvalue]
      exact h.mantissa_pos
  have hdigits : Decimal.ofDigits? whole fraction = some d := by
    rw [Decimal.ofDigits?_exact, hvalue, hscale]
    · rw [hvalue]
      exact h.mantissa_lt
    · rw [hscale]
      exact h.scale_le
  have hne : d.mantissa ≠ 0 := Nat.ne_of_gt h.mantissa_pos
  simp [price, hpositive, hdigits, hne, bind, Except.bind]

/-- A limit in range is read back from its digits. -/
theorem cap_natText {n : Nat} (hpos : 0 < n) (hlt : n < capBound) :
    cap (natText n) = .ok n := by
  have hpositive : positive (natText n) = .ok ⟨false, Digits.ofNat n, []⟩ := by
    apply positive_of_read?
    · rw [natText, String.toList_ofList]
      exact Literal.read?_plain (Digits.ofNat_ne_nil n) []
    · rw [List.append_nil, Digits.value_ofNat]
      exact hpos
  simp [cap, hpositive, Literal.hasFraction, hlt, bind, Except.bind]

end FieldValue

end RateDesk
