import Mathlib.Algebra.Order.Field.Basic
import Mathlib.Algebra.Order.Ring.Rat
import Mathlib.Tactic.FieldSimp
import Mathlib.Tactic.Linarith
import Mathlib.Tactic.NormNum
import Mathlib.Tactic.Positivity
import Mathlib.Tactic.Ring
import RateDesk.Proofs.Number.Exact

/-!
# Decimals read with rounding

Reading takes in digits until one of them does not fit, and decides on this
digit alone.  The number of the literal is therefore a decimal and a rest,
measured in units of the last place of this decimal.  The rest is less than one
unit, the digit tells on which side of one half it lies, and where it is not
zero the decimal has no room for another digit.  These facts settle what is
read, for literals of any length.

Main results:

- Theorem `Decimal.readFraction?_eq_roundOff?`: reading stops at a cut of the
  number.
- Theorems `Decimal.Cut.roundOff?_eq_none_iff`, `Decimal.Cut.roundOff?_near` and
  `Decimal.Cut.roundOff?_eq_zero_iff`: the numbers too large, the error, and the
  numbers that vanish.
- Theorems `Decimal.ofDigits?_eq_none_iff`, `Decimal.ofDigits?_near` and
  `Decimal.ofDigits?_eq_zero_iff`: the same of literals.
-/

namespace RateDesk

/-! ## Digits behind the point -/

namespace Digits

/-- The number that digits denote behind a point. -/
def fractionValue : List Digit → Rat
  | [] => 0
  | d :: digits => ((d.val : Rat) + fractionValue digits) / 10

theorem fractionValue_cons (d : Digit) (digits : List Digit) :
    fractionValue (d :: digits) = ((d.val : ℚ) + fractionValue digits) / 10 :=
  rfl

theorem fractionValue_nonneg (digits : List Digit) :
    0 ≤ fractionValue digits := by
  induction digits with
  | nil => exact le_refl 0
  | cons d digits ih =>
      rw [fractionValue_cons]
      positivity

theorem fractionValue_lt_one (digits : List Digit) :
    fractionValue digits < 1 := by
  induction digits with
  | nil => exact zero_lt_one
  | cons d digits ih =>
      have hdigit : (d.val : ℚ) ≤ 9 := by
        exact_mod_cast Nat.le_of_lt_succ d.isLt
      rw [fractionValue_cons, div_lt_one (by norm_num)]
      linarith

/-- A fraction is zero exactly when all its digits are. -/
theorem fractionValue_eq_zero_iff (digits : List Digit) :
    fractionValue digits = 0 ↔ ∀ d ∈ digits, d.val = 0 := by
  induction digits with
  | nil => simp [fractionValue]
  | cons d digits ih =>
      have hnonneg := fractionValue_nonneg digits
      rw [fractionValue_cons, div_eq_zero_iff, or_iff_left (by norm_num),
        add_eq_zero_iff_of_nonneg (Nat.cast_nonneg _) hnonneg,
        Nat.cast_eq_zero, ih, List.forall_mem_cons]

/-- The first digit tells on which side of one half the digits lie. -/
theorem fractionValue_cons_lt_half_iff (d : Digit) (digits : List Digit) :
    fractionValue (d :: digits) < 1 / 2 ↔ d.val < 5 := by
  have hnonneg := fractionValue_nonneg digits
  have hlt := fractionValue_lt_one digits
  rw [fractionValue_cons, div_lt_iff₀ (by norm_num)]
  constructor
  · intro h
    have hdigit : (d.val : ℚ) < 5 := by linarith
    exact_mod_cast hdigit
  · intro h
    have hdigit : (d.val : ℚ) ≤ 4 := by exact_mod_cast Nat.le_of_lt_succ h
    linarith

/-- Digits behind a number, as places after the point. -/
theorem valueFrom_div_pow (n : Nat) (digits : List Digit) :
    (valueFrom n digits : ℚ) / 10 ^ digits.length =
      n + fractionValue digits := by
  induction digits generalizing n with
  | nil => simp [valueFrom, fractionValue]
  | cons d digits ih =>
      rw [valueFrom_cons, fractionValue_cons, List.length_cons, pow_succ,
        ← div_div, ih]
      push_cast
      field_simp
      ring

end Digits

/-- The number of a literal without its sign is the one of its whole digits and
that of the digits behind the point. -/
theorem Literal.magnitude_eq (l : Literal) :
    l.magnitude = (Digits.value l.whole : ℚ) +
      Digits.fractionValue l.fraction := by
  rw [← Digits.valueFrom_div_pow, ← Digits.value_append]
  rfl

/-! ## Cuts -/

namespace Decimal

theorem mantissaBound_eq : mantissaBound = 79228162514264337593543950336 := rfl

/-- Rounding by a rest that is measured in units of the last place, half up. -/
def roundOff? (d : Decimal) (rest : Rat) : Option Decimal :=
  if rest < 1 / 2 then some d else d.bump?

/-- A number is a decimal and a rest below one unit of its last place.  If there
is a rest, the decimal has all places, or has no room for the next digit. -/
structure Cut (v : Rat) (d : Decimal) (rest : Rat) : Prop where
  mantissa_lt : d.mantissa < mantissaBound
  scale_le : d.scale ≤ maxScale
  rest_nonneg : 0 ≤ rest
  rest_lt : rest < 1
  full : rest = 0 ∨ d.scale = maxScale ∨
    (mantissaBound : ℚ) ≤ 10 * (d.mantissa + rest)
  value_eq : v = (d.mantissa + rest) / 10 ^ d.scale

/-- A digit that does not fit, with all digits behind it, is a rest. -/
theorem Cut.of_not_fits {d : Decimal} {digit : Digit} (digits : List Digit)
    (hmantissa : d.mantissa < mantissaBound) (hscale : d.scale ≤ maxScale)
    (hfits : ¬(d.scale < maxScale ∧
      10 * d.mantissa + digit.val < mantissaBound)) :
    Cut ((d.mantissa + Digits.fractionValue (digit :: digits)) / 10 ^ d.scale) d
      (Digits.fractionValue (digit :: digits)) where
  mantissa_lt := hmantissa
  scale_le := hscale
  rest_nonneg := Digits.fractionValue_nonneg _
  rest_lt := Digits.fractionValue_lt_one _
  value_eq := rfl
  full := by
    by_cases hplaces : d.scale = maxScale
    · exact Or.inr (Or.inl hplaces)
    · have hdigit : mantissaBound ≤ 10 * d.mantissa + digit.val := by
        by_contra hlt
        exact hfits ⟨by omega, by omega⟩
      have hcast : (mantissaBound : ℚ) ≤ 10 * d.mantissa + digit.val := by
        exact_mod_cast hdigit
      have hnonneg := Digits.fractionValue_nonneg digits
      refine Or.inr (Or.inr (hcast.trans ?_))
      rw [Digits.fractionValue_cons]
      linarith

/-- A decimal that has been read denotes, with the digits still to come, the
number that is read; reading ends with a cut of this number, and rounds by the
rest. -/
theorem readFraction?_eq_roundOff? {d : Decimal} (digits : List Digit)
    (hmantissa : d.mantissa < mantissaBound) (hscale : d.scale ≤ maxScale) :
    ∃ kept rest, readFraction? d digits = kept.roundOff? rest ∧
      Cut ((d.mantissa + Digits.fractionValue digits) / 10 ^ d.scale)
        kept rest := by
  fun_induction readFraction? d digits with
  | case1 d =>
      refine ⟨d, 0, (if_pos (by norm_num)).symm, ?_⟩
      exact ⟨hmantissa, hscale, le_refl 0, zero_lt_one, Or.inl rfl, rfl⟩
  | case2 d digit digits hfits ih =>
      -- the digit moves from the rest to the mantissa
      have hvalue :
          ((10 * d.mantissa + digit.val : ℕ) + Digits.fractionValue digits) /
          10 ^ (d.scale + 1) =
            ((d.mantissa : ℚ) + Digits.fractionValue (digit :: digits)) /
              10 ^ d.scale := by
        rw [Digits.fractionValue_cons, pow_succ]
        push_cast
        field_simp
        ring
      rw [← hvalue]
      exact ih hfits.2 hfits.1
  | case3 d digit digits hfits hdigit =>
      refine ⟨d, Digits.fractionValue (digit :: digits), ?_,
        Cut.of_not_fits digits hmantissa hscale hfits⟩
      rw [roundOff?, if_pos
        ((Digits.fractionValue_cons_lt_half_iff digit digits).mpr hdigit)]
  | case4 d digit digits hfits hdigit =>
      refine ⟨d, Digits.fractionValue (digit :: digits), ?_,
        Cut.of_not_fits digits hmantissa hscale hfits⟩
      rw [roundOff?, if_neg
        (mt (Digits.fractionValue_cons_lt_half_iff digit digits).mp hdigit)]

/-! ## Rounding at a cut -/

/-- A decimal cannot be bumped if it has no place and the mantissa is the last
one. -/
theorem bump?_eq_none_iff {d : Decimal} :
    d.bump? = none ↔ mantissaBound ≤ d.mantissa + 1 ∧ d.scale = 0 := by
  unfold bump?
  split
  next hlt => simp [hlt]
  next hge =>
    split
    next hscale => simp [hscale, Nat.le_of_not_lt hge]
    next hscale => simp [hscale]

/-- A bumped decimal has one unit more in its last place, or one place less. -/
theorem eq_of_bump? {d r : Decimal} (h : d.bump? = some r) :
    (d.mantissa + 1 < mantissaBound ∧ r = ⟨d.mantissa + 1, d.scale⟩) ∨
      (mantissaBound ≤ d.mantissa + 1 ∧ ∃ s, d.scale = s + 1 ∧
        r = ⟨(d.mantissa + 5) / 10, s⟩) := by
  unfold bump? at h
  split at h
  next hlt => exact Or.inl ⟨hlt, (Option.some.inj h).symm⟩
  next hge =>
    split at h
    next => cases h
    next hscale =>
      refine Or.inr ⟨Nat.le_of_not_lt hge, d.scale - 1,
        by omega, (Option.some.inj h).symm⟩

/-- What is off by at most half a unit of the last place, counted in units of
the last place, is off by as much counted in ones. -/
theorem abs_value_sub_le {d : Decimal} {x : ℚ}
    (h : |(d.mantissa : ℚ) - x| ≤ 1 / 2) :
    |d.value - x / 10 ^ d.scale| ≤ 1 / 2 / 10 ^ d.scale := by
  have hpow : (0 : ℚ) < 10 ^ d.scale := by positivity
  have hsub : d.value - x / 10 ^ d.scale =
      ((d.mantissa : ℚ) - x) / 10 ^ d.scale :=
    (sub_div _ _ _).symm
  rw [hsub, abs_div, abs_of_pos hpow]
  exact div_le_div_of_nonneg_right h hpow.le

namespace Cut

variable {v rest : Rat} {d r : Decimal}

/-- A rest below one half is dropped, and any other raises the last place. -/
theorem roundOff?_cases (hr : d.roundOff? rest = some r) :
    (rest < 1 / 2 ∧ r = d) ∨ (1 / 2 ≤ rest ∧ d.bump? = some r) := by
  unfold roundOff? at hr
  split at hr
  next hlt => exact Or.inl ⟨hlt, (Option.some.inj hr).symm⟩
  next hge => exact Or.inr ⟨le_of_not_gt hge, hr⟩

/-- The bound on the mantissa also holds of the number, counted in units of the
last place. -/
theorem value_lt (h : Cut v d rest) : v < 2 ^ 96 / 10 ^ d.scale := by
  have hmantissa : (d.mantissa : ℚ) + 1 ≤ 2 ^ 96 := by
    exact_mod_cast h.mantissa_lt
  have hrest := h.rest_lt
  rw [h.value_eq]
  exact div_lt_div_of_pos_right (by linarith) (by positivity)

/-- A number that leaves something at the twenty-eighth place is at least that
much. -/
theorem div_pow_le_value (h : Cut v d rest) :
    ((d.mantissa : ℚ) + rest) / 10 ^ 28 ≤ v := by
  have hnonneg : 0 ≤ (d.mantissa : ℚ) + rest :=
    add_nonneg (Nat.cast_nonneg _) h.rest_nonneg
  have hpow : (10 : ℚ) ^ d.scale ≤ 10 ^ 28 :=
    pow_le_pow_right₀ (by norm_num) h.scale_le
  rw [h.value_eq]
  exact div_le_div_of_nonneg_left hnonneg (by positivity) hpow

/-- The numbers that round to no decimal. -/
theorem roundOff?_eq_none_iff (h : Cut v d rest) :
    d.roundOff? rest = none ↔ 2 ^ 96 - 1 / 2 ≤ v := by
  constructor
  · intro hnone
    have hhalf : ¬rest < 1 / 2 := by
      intro hlt
      rw [roundOff?, if_pos hlt] at hnone
      cases hnone
    rw [roundOff?, if_neg hhalf, bump?_eq_none_iff] at hnone
    have hmantissa : (2 : ℚ) ^ 96 ≤ d.mantissa + 1 := by exact_mod_cast hnone.1
    rw [h.value_eq, hnone.2, pow_zero, div_one]
    linarith
  · intro hv
    have hscale : d.scale = 0 := by
      by_contra hne
      have hpow : (10 : ℚ) ^ 1 ≤ 10 ^ d.scale :=
        pow_le_pow_right₀ (by norm_num) (Nat.pos_of_ne_zero hne)
      have hlt : v < 2 ^ 96 / 10 ^ 1 :=
        h.value_lt.trans_le
          (div_le_div_of_nonneg_left (by norm_num) (by norm_num) hpow)
      norm_num at hv hlt
      linarith
    have hvalue := h.value_eq
    rw [hscale, pow_zero, div_one] at hvalue
    have hrest := h.rest_lt
    have hmantissa : (d.mantissa : ℚ) + 1 ≤ 2 ^ 96 := by
      exact_mod_cast h.mantissa_lt
    have hlast : (2 : ℚ) ^ 96 < d.mantissa + 2 := by linarith
    have hlastNat : 2 ^ 96 < d.mantissa + 2 := by exact_mod_cast hlast
    rw [roundOff?, if_neg (by linarith), bump?_eq_none_iff]
    exact ⟨Nat.le_of_lt_succ hlastNat, hscale⟩

/-- A rounded number is a decimal that is off by at most half a unit of its last
place. -/
theorem roundOff?_near (h : Cut v d rest) (hr : d.roundOff? rest = some r) :
    r.mantissa < mantissaBound ∧ r.scale ≤ maxScale ∧
      |r.value - v| ≤ 1 / 2 / 10 ^ r.scale := by
  have hnonneg := h.rest_nonneg
  have hlt := h.rest_lt
  have hscale := h.scale_le
  rw [h.value_eq]
  rcases roundOff?_cases hr with ⟨hhalf, rfl⟩ | ⟨hhalf, hbump⟩
  · refine ⟨h.mantissa_lt, hscale, abs_value_sub_le ?_⟩
    rw [abs_le]
    constructor <;> linarith
  · rcases eq_of_bump? hbump with ⟨hfits, rfl⟩ | ⟨hlast, s, hs, rfl⟩
    · refine ⟨hfits, hscale, abs_value_sub_le ?_⟩
      rw [abs_le]
      push_cast
      constructor <;> linarith
    · -- The mantissa is the last one: the tenth of the bound, rounded half up,
      -- takes its place.
      have hmantissa : d.mantissa = 79228162514264337593543950335 := by
        have hbelow := h.mantissa_lt
        rw [mantissaBound_eq] at hlast hbelow
        omega
      have hunits : ((d.mantissa : ℚ) + rest) / 10 ^ d.scale =
          ((d.mantissa + rest) / 10) / 10 ^ s := by
        rw [hs, pow_succ, div_div, mul_comm]
      rw [hmantissa] at hunits ⊢
      rw [hunits]
      refine ⟨?_, ?_, abs_value_sub_le ?_⟩
      · rw [mantissaBound_eq]
        norm_num
      · rw [hs] at hscale
        exact Nat.le_of_succ_le hscale
      · rw [abs_le]
        norm_num
        constructor <;> linarith

/-- A number vanishes if nothing is left of it at the last place and the rest is
below one half. -/
theorem value_lt_iff (h : Cut v d rest) :
    v < 5 / 10 ^ 29 ↔ d.mantissa = 0 ∧ rest < 1 / 2 := by
  constructor
  · intro hv
    have hsum : ((d.mantissa : ℚ) + rest) < 1 / 2 := by
      have hlt := h.div_pow_le_value.trans_lt hv
      rw [div_lt_iff₀ (by positivity)] at hlt
      norm_num at hlt
      linarith
    have hnonneg := h.rest_nonneg
    have hmantissa : (d.mantissa : ℚ) < 1 := by linarith
    have hcast : 0 ≤ (d.mantissa : ℚ) := Nat.cast_nonneg _
    exact ⟨Nat.lt_one_iff.mp (by exact_mod_cast hmantissa), by linarith⟩
  · rintro ⟨hmantissa, hhalf⟩
    have hvalue := h.value_eq
    rw [hmantissa, Nat.cast_zero, zero_add] at hvalue
    rcases h.full with hzero | hplaces | hroom
    · rw [hvalue, hzero, zero_div]
      norm_num
    · rw [hvalue, hplaces, div_lt_div_iff₀ (by positivity) (by positivity)]
      norm_num [maxScale]
      linarith
    · rw [hmantissa, Nat.cast_zero, zero_add, mantissaBound_eq] at hroom
      norm_num at hroom
      linarith

/-- The numbers that vanish. -/
theorem roundOff?_eq_zero_iff (h : Cut v d rest)
    (hr : d.roundOff? rest = some r) : r.mantissa = 0 ↔ v < 5 / 10 ^ 29 := by
  rw [h.value_lt_iff]
  rcases roundOff?_cases hr with ⟨hhalf, rfl⟩ | ⟨hhalf, hbump⟩
  · exact ⟨fun hzero => ⟨hzero, hhalf⟩, And.left⟩
  · have hne : r.mantissa ≠ 0 := by
      rcases eq_of_bump? hbump with ⟨-, rfl⟩ | ⟨hlast, s, -, rfl⟩
      · exact Nat.succ_ne_zero _
      · rw [mantissaBound_eq] at hlast
        simp only
        omega
    constructor
    · intro hzero
      exact absurd hzero hne
    · rintro ⟨-, hlt⟩
      exact absurd hlt (not_lt.mpr hhalf)

end Cut

/-! ## Literals -/

/-- Whole digits that reach the bound are not read. -/
theorem foldlM_whole_eq_none {digits : List Digit} {m : Nat}
    (hm : m < mantissaBound) (h : mantissaBound ≤ Digits.valueFrom m digits) :
    digits.foldlM
      (fun m d => if 10 * m + d.val < mantissaBound then some (10 * m + d.val)
        else none) m =
        none := by
  induction digits generalizing m with
  | nil => exact absurd h (Nat.not_le_of_lt hm)
  | cons d digits ih =>
      rw [List.foldlM_cons]
      by_cases hfits : 10 * m + d.val < mantissaBound
      · rw [if_pos hfits]
        exact ih hfits h
      · rw [if_neg hfits]
        rfl

section Literals

variable {l : Literal} {d : Decimal}

/-- Unless the whole digits reach the bound, reading a literal rounds at a cut
of its number. -/
theorem ofDigits?_eq_roundOff? (h : Digits.value l.whole < mantissaBound) :
    ∃ kept rest, ofDigits? l.whole l.fraction = kept.roundOff? rest ∧
      Cut l.magnitude kept rest := by
  have hwhole : readWhole? l.whole = some (Digits.value l.whole) :=
    foldlM_whole h
  rcases readFraction?_eq_roundOff?
    (d := ⟨Digits.value l.whole, 0⟩) l.fraction h (Nat.zero_le _)
    with ⟨kept, rest, hread, hcut⟩
  refine ⟨kept, rest, ?_, ?_⟩
  · simp only [ofDigits?, hwhole]
    exact hread
  · rw [pow_zero, div_one, ← l.magnitude_eq] at hcut
    exact hcut

theorem ofDigits?_eq_none (h : mantissaBound ≤ Digits.value l.whole) :
    ofDigits? l.whole l.fraction = none := by
  have hwhole : readWhole? l.whole = none := foldlM_whole_eq_none (by decide) h
  simp only [ofDigits?, hwhole]
  rfl

/-- The literals that are too large. -/
theorem ofDigits?_eq_none_iff :
    ofDigits? l.whole l.fraction = none ↔ 2 ^ 96 - 1 / 2 ≤ l.magnitude := by
  by_cases hwhole : Digits.value l.whole < mantissaBound
  · rcases ofDigits?_eq_roundOff? hwhole with ⟨kept, rest, hread, hcut⟩
    rw [hread, hcut.roundOff?_eq_none_iff]
  · have hge : mantissaBound ≤ Digits.value l.whole := Nat.le_of_not_lt hwhole
    have hcast : (2 : ℚ) ^ 96 ≤ Digits.value l.whole := by exact_mod_cast hge
    have hfraction := Digits.fractionValue_nonneg l.fraction
    simp only [ofDigits?_eq_none hge, true_iff]
    rw [l.magnitude_eq]
    linarith

/-- A literal that is read as a decimal is cut and rounded. -/
theorem exists_cut_of_ofDigits? (h : ofDigits? l.whole l.fraction = some d) :
    ∃ kept rest, kept.roundOff? rest = some d ∧ Cut l.magnitude kept rest := by
  by_cases hwhole : Digits.value l.whole < mantissaBound
  · rcases ofDigits?_eq_roundOff? hwhole with ⟨kept, rest, hread, hcut⟩
    exact ⟨kept, rest, hread ▸ h, hcut⟩
  · rw [ofDigits?_eq_none (Nat.le_of_not_lt hwhole)] at h
    cases h

/-- A literal is off by at most half a unit of the last place of the decimal
that is read. -/
theorem ofDigits?_near (h : ofDigits? l.whole l.fraction = some d) :
    d.mantissa < mantissaBound ∧ d.scale ≤ maxScale ∧
      |d.value - l.magnitude| ≤ 1 / 2 / 10 ^ d.scale := by
  rcases exists_cut_of_ofDigits? h with ⟨kept, rest, hround, hcut⟩
  exact hcut.roundOff?_near hround

/-- The literals that vanish. -/
theorem ofDigits?_eq_zero_iff (h : ofDigits? l.whole l.fraction = some d) :
    d.mantissa = 0 ↔ l.magnitude < 5 / 10 ^ 29 := by
  rcases exists_cut_of_ofDigits? h with ⟨kept, rest, hround, hcut⟩
  exact hcut.roundOff?_eq_zero_iff hround

end Literals

end Decimal

end RateDesk
