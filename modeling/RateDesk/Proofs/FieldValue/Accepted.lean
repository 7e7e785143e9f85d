import Mathlib.Algebra.Order.Field.Basic
import Mathlib.Algebra.Order.Ring.Rat
import RateDesk.FieldValue
import RateDesk.Proofs.Number.Exact

/-!
# Accepted values

A value that is accepted as a price or a limit is a literal: an optional sign,
digits, and optionally a point with digits behind it.  What it denotes is above
zero, also after rounding.

Main results:

- Theorems `Literal.spelled_of_read?` and `Literal.eq_append_of_read?`: the
  texts of literals.
- Theorems `FieldValue.price_pos` and `FieldValue.cap_pos`: accepted values are
  positive.
-/

namespace RateDesk

namespace Digits

/-- A text whose characters are read as digits is written with these digits. -/
theorem eq_chars_of_mapM {s : List Char} {digits : List Digit}
    (h : s.mapM Digit.ofChar? = some digits) : s = chars digits := by
  induction s generalizing digits with
  | nil =>
      cases h
      rfl
  | cons c s ih =>
      rw [List.mapM_cons] at h
      rcases Option.bind_eq_some_iff.mp h with ⟨d, hd, hrest⟩
      rcases Option.bind_eq_some_iff.mp hrest with ⟨rest, hs, hdigits⟩
      cases hdigits
      rw [Digit.ofChar?_eq_some_iff.mp hd, ih hs]
      rfl

/-- A run of digits is read from its own characters only, and is not empty. -/
theorem eq_chars_of_read? {s : List Char} {digits : List Digit}
    (h : read? s = some digits) : s = chars digits ∧ digits ≠ [] := by
  unfold read? at h
  by_cases hempty : s.isEmpty = true
  · simp [hempty] at h
  · rw [if_neg hempty] at h
    have hs := eq_chars_of_mapM h
    refine ⟨hs, ?_⟩
    rintro rfl
    exact hempty (by rw [hs]; rfl)

/-- A digit that is not zero makes a number above zero, and so does a start
above zero. -/
theorem valueFrom_pos {n : Nat} {digits : List Digit}
    (h : 0 < n ∨ ∃ d ∈ digits, d.val ≠ 0) : 0 < valueFrom n digits := by
  induction digits generalizing n with
  | nil =>
      rcases h with hn | ⟨d, hd, -⟩
      · exact hn
      · cases hd
  | cons d digits ih =>
      rw [valueFrom_cons]
      apply ih
      rcases h with hn | ⟨e, he, hne⟩
      · exact Or.inl (by omega)
      · rcases List.mem_cons.mp he with rfl | he
        · exact Or.inl (by omega)
        · exact Or.inr ⟨e, he, hne⟩

end Digits

namespace Literal

/-- The signs with which a literal may be spelled: a minus sign if it is
negative, otherwise a plus sign or none. -/
def HasSign (l : Literal) (sign : List Char) : Prop :=
  (l.negative = true ∧ sign = ['-']) ∨
  (l.negative = false ∧ (sign = [] ∨ sign = ['+']))

/-- The text is the literal: a sign, the digits before the point, and behind
them the point and the other digits, if there are any. -/
def Spelled (l : Literal) (s : List Char) : Prop :=
  l.whole ≠ [] ∧ ∃ sign, l.HasSign sign ∧ s = sign ++ plain l.whole l.fraction

theorem HasSign.isSign {l : Literal} {sign : List Char} (h : l.HasSign sign) :
    IsSign sign := by
  rcases h with ⟨-, rfl⟩ | ⟨-, rfl | rfl⟩
  · exact Or.inr (Or.inr rfl)
  · exact Or.inl rfl
  · exact Or.inr (Or.inl rfl)

/-- What is stripped from a text is a sign of the literal that is read. -/
theorem exists_hasSign_of_stripSign {l : Literal} {s rest : List Char}
    (h : stripSign s = (l.negative, rest)) :
    ∃ sign, l.HasSign sign ∧ s = sign ++ rest := by
  unfold stripSign at h
  split at h
  next =>
    rcases Prod.mk.inj h with ⟨hnegative, rfl⟩
    exact ⟨['-'], Or.inl ⟨hnegative.symm, rfl⟩, rfl⟩
  next =>
    rcases Prod.mk.inj h with ⟨hnegative, rfl⟩
    exact ⟨['+'], Or.inr ⟨hnegative.symm, Or.inr rfl⟩, rfl⟩
  next =>
    rcases Prod.mk.inj h with ⟨hnegative, rfl⟩
    exact ⟨[], Or.inr ⟨hnegative.symm, Or.inl rfl⟩, rfl⟩

/-- What is read without a sign is digits, with a point and digits behind it if
there is a fraction. -/
theorem eq_plain_of_readUnsigned? {s : List Char} {whole fraction : List Digit}
    (h : readUnsigned? s = some (whole, fraction)) :
    whole ≠ [] ∧ s = plain whole fraction := by
  unfold readUnsigned? at h
  split at h
  next =>
    rcases Option.map_eq_some_iff.mp h with ⟨digits, hdigits, heq⟩
    cases heq
    rcases Digits.eq_chars_of_read? hdigits with ⟨hs, hne⟩
    exact ⟨hne, hs⟩
  next front back hcut =>
    rcases Option.bind_eq_some_iff.mp h with ⟨first, hfirst, hrest⟩
    rcases Option.bind_eq_some_iff.mp hrest with ⟨second, hsecond, heq⟩
    cases heq
    rcases Digits.eq_chars_of_read? hfirst with ⟨rfl, hfirstNe⟩
    rcases Digits.eq_chars_of_read? hsecond with ⟨rfl, hsecondNe⟩
    refine ⟨hfirstNe, ?_⟩
    rw [plain, if_neg hsecondNe]
    exact (Text.cutAt?_eq_some_iff.mp hcut).1

/-- The text that is read as a literal spells it. -/
theorem spelled_of_read? {s : List Char} {l : Literal} (h : read? s = some l) :
    l.Spelled s := by
  unfold read? at h
  rcases Option.bind_eq_some_iff.mp h with ⟨⟨whole, fraction⟩, hunsigned, heq⟩
  cases heq
  rcases eq_plain_of_readUnsigned? hunsigned with ⟨hwhole, hplain⟩
  refine ⟨hwhole, ?_⟩
  rw [← hplain]
  exact exists_hasSign_of_stripSign rfl

/-- The text of a literal is a sign and its digits. -/
theorem eq_append_of_read? {s : List Char} {l : Literal}
    (h : read? s = some l) :
    l.whole ≠ [] ∧ ∃ sign, IsSign sign ∧
      s = sign ++ plain l.whole l.fraction := by
  rcases spelled_of_read? h with ⟨hwhole, sign, hsign, hs⟩
  exact ⟨hwhole, sign, hsign.isSign, hs⟩

end Literal

theorem Decimal.value_pos {d : Decimal} (h : 0 < d.mantissa) : 0 < d.value := by
  unfold Decimal.value
  apply div_pos
  · exact_mod_cast h
  · exact pow_pos (by norm_num) d.scale

namespace FieldValue

/-- The only text accepted as a pair is the one that writes it. -/
theorem eq_text_of_pair {raw : String} {p : CurrencyPair}
    (h : pair raw = .ok p) : raw = p.text := by
  unfold pair at h
  split at h
  next found hfound =>
    cases h
    rcases Option.bind_eq_some_iff.mp hfound with ⟨⟨front, back⟩, hcut, hcodes⟩
    rcases Option.bind_eq_some_iff.mp hcodes with ⟨source, hsource, hrest⟩
    rcases Option.bind_eq_some_iff.mp hrest with
      ⟨destination, hdestination, heq⟩
    cases heq
    apply String.toList_injective
    rw [CurrencyPair.text, String.toList_ofList,
      (Text.cutAt?_eq_some_iff.mp hcut).1,
      CurrencyCode.eq_chars_of_ofChars? hsource,
      CurrencyCode.eq_chars_of_ofChars? hdestination]
    rfl
  next => cases h

/-- A positive literal is a literal with a digit that is not zero. -/
theorem read?_of_positive {raw : String} {l : Literal}
    (h : positive raw = .ok l) :
    Literal.read? raw.toList = some l ∧ l.isZero = false := by
  unfold positive at h
  split at h
  next => cases h
  next found hread =>
    split at h
    next => cases h
    next hpositive =>
      cases h
      refine ⟨hread, ?_⟩
      simp only [Bool.or_eq_true, not_or, Bool.not_eq_true] at hpositive
      exact hpositive.2

/-- An accepted price is spelled as a positive number, and its digits are above
zero. -/
theorem positive_of_price {raw : String} {d : Decimal} (h : price raw = .ok d) :
    (∃ l, positive raw = .ok l) ∧ 0 < d.mantissa := by
  unfold price at h
  cases hpositive : positive raw with
  | error e =>
      rw [hpositive] at h
      cases h
  | ok l =>
      rw [hpositive] at h
      simp only [bind, Except.bind] at h
      split at h
      next => cases h
      next found _ =>
        split at h
        next => cases h
        next hne =>
          cases h
          exact ⟨⟨l, rfl⟩, Nat.pos_of_ne_zero hne⟩

/-- An accepted price is above zero. -/
theorem price_pos {raw : String} {d : Decimal} (h : price raw = .ok d) :
    0 < d.value :=
  Decimal.value_pos (positive_of_price h).2

/-- An accepted limit is spelled as a positive whole number, and it is this
number. -/
theorem positive_of_cap {raw : String} {n : Nat} (h : cap raw = .ok n) :
    ∃ l, positive raw = .ok l ∧ l.hasFraction = false ∧
      n = Digits.value l.whole := by
  unfold cap at h
  cases hpositive : positive raw with
  | error e =>
      rw [hpositive] at h
      cases h
  | ok l =>
      rw [hpositive] at h
      simp only [bind, Except.bind] at h
      split at h
      next => cases h
      next hfraction =>
        split at h
        next =>
          cases h
          exact ⟨l, rfl, by simpa using hfraction, rfl⟩
        next => cases h

/-- A limit has no digits but zeros behind its point, so some digit before it is
not zero. -/
theorem cap_pos {raw : String} {n : Nat} (h : cap raw = .ok n) : 0 < n := by
  rcases positive_of_cap h with ⟨l, hpositive, hfraction, rfl⟩
  have hzeros : l.fraction.all (·.val == 0) = true := by
    simpa [Literal.hasFraction] using hfraction
  have hwhole : l.whole.all (·.val == 0) = false := by
    have hzero := (read?_of_positive hpositive).2
    rwa [Literal.isZero, hzeros, Bool.and_true] at hzero
  rw [Digits.value_eq_valueFrom]
  apply Digits.valueFrom_pos
  rcases List.all_eq_false.mp hwhole with ⟨d, hd, hne⟩
  exact Or.inr ⟨d, hd, by simpa using hne⟩

end FieldValue

end RateDesk
