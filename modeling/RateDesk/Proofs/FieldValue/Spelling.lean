import Mathlib.Algebra.Order.Field.Basic
import Mathlib.Algebra.Order.Ring.Rat
import RateDesk.Proofs.FieldValue.Accepted

/-!
# The spelling of numbers

A number is spelled with an optional sign, at least one digit, and optionally a
point with at least one digit behind it.  This module ties the reader of
literals to this grammar, and the tests that are made on the digits of a literal
to the number that it denotes.

Main results:

- Theorem `Literal.read?_eq_some_iff`: the texts that spell a literal.
- Theorem `Literal.value_pos_iff`: a literal is above zero if it has no minus
  sign and some digit is not zero.
- Theorems `FieldValue.positive_of_spelled` and
  `FieldValue.positive_of_not_spelled`: the positive numbers, the others, and
  what is no number.
-/

namespace RateDesk

namespace Literal

/-- The texts that are read as a literal are those that spell it. -/
theorem read?_eq_some_iff {s : List Char} {l : Literal} :
    read? s = some l ↔ l.Spelled s := by
  constructor
  · exact spelled_of_read?
  · rcases l with ⟨negative, whole, fraction⟩
    rintro ⟨hwhole, sign, hsign, rfl⟩
    have hunsigned := readUnsigned?_plain hwhole fraction
    rcases hsign with ⟨rfl, rfl⟩ | ⟨rfl, rfl | rfl⟩
    · simp [read?, stripSign, hunsigned]
    · rw [List.nil_append, read?_plain hwhole]
    · simp [read?, stripSign, hunsigned]

/-! ## The number denoted -/

theorem magnitude_nonneg (l : Literal) : 0 ≤ l.magnitude :=
  div_nonneg (Nat.cast_nonneg _) (pow_nonneg (by norm_num) _)

/-- A literal with a digit that is not zero denotes a number other than zero. -/
theorem magnitude_pos {l : Literal} (h : l.isZero = false) :
    0 < l.magnitude := by
  have hdigit : ∃ d ∈ l.whole ++ l.fraction, d.val ≠ 0 := by
    simp only [isZero, Bool.and_eq_false_iff, List.all_eq_false,
      beq_iff_eq] at h
    rcases h with ⟨d, hd, hne⟩ | ⟨d, hd, hne⟩
    · exact ⟨d, List.mem_append_left _ hd, hne⟩
    · exact ⟨d, List.mem_append_right _ hd, hne⟩
  have hvalue : 0 < Digits.value (l.whole ++ l.fraction) :=
    Digits.valueFrom_pos (Or.inr hdigit)
  exact div_pos (Nat.cast_pos.mpr hvalue) (pow_pos (by norm_num) _)

/-- A literal whose digits are all zero denotes zero. -/
theorem magnitude_eq_zero {l : Literal} (h : l.isZero = true) :
    l.magnitude = 0 := by
  rw [magnitude, value_eq_zero_of_isZero h, Nat.cast_zero]
  exact zero_div _

/-- A literal is above zero if it has no minus sign and some digit is not
zero. -/
theorem value_pos_iff (l : Literal) :
    0 < l.value ↔ l.negative = false ∧ l.isZero = false := by
  constructor
  · intro h
    cases hnegative : l.negative with
    | true =>
        rw [value, if_pos hnegative] at h
        exact absurd h (not_lt.mpr (neg_nonpos.mpr l.magnitude_nonneg))
    | false =>
        refine ⟨rfl, ?_⟩
        by_contra hzero
        rw [value, if_neg (by simp [hnegative]),
          magnitude_eq_zero (by simpa using hzero)] at h
        exact lt_irrefl _ h
  · rintro ⟨hnegative, hzero⟩
    rw [value, if_neg (by simp [hnegative])]
    exact magnitude_pos hzero

/-- A literal above zero denotes its digits without a sign. -/
theorem value_of_pos {l : Literal} (h : 0 < l.value) :
    l.value = l.magnitude := by
  rw [value, if_neg (by simp [((value_pos_iff l).mp h).1])]

end Literal

/-! ## Positive numbers -/

namespace FieldValue

variable {raw : String} {l : Literal}

/-- A text that spells a number is read as positive exactly when the number is
above zero. -/
theorem positive_of_spelled (h : l.Spelled raw.toList) :
    positive raw = if 0 < l.value then .ok l
      else .error (.notPositive raw) := by
  simp only [positive, Literal.read?_eq_some_iff.mpr h]
  by_cases hpos : 0 < l.value
  · rcases (Literal.value_pos_iff l).mp hpos with ⟨hnegative, hzero⟩
    simp [hpos, hnegative, hzero]
  · have hsign : l.negative = true ∨ l.isZero = true := by
      by_contra hneither
      rw [not_or, Bool.not_eq_true, Bool.not_eq_true] at hneither
      exact hpos ((Literal.value_pos_iff l).mpr hneither)
    rw [if_neg hpos, if_pos (by simpa using hsign)]

/-- What is no number is rejected as such. -/
theorem positive_of_not_spelled (h : ¬∃ l : Literal, l.Spelled raw.toList) :
    positive raw = .error (.notANumber raw) := by
  have hnone : Literal.read? raw.toList = none := by
    rw [Option.eq_none_iff_forall_ne_some]
    intro l hl
    exact h ⟨l, Literal.read?_eq_some_iff.mp hl⟩
  simp only [positive, hnone]

end FieldValue

end RateDesk
