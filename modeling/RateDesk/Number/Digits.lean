/-!
# Decimal digits

Numbers enter and leave the desk as runs of decimal digits, most significant
digit first.

Main results:

- Theorem `Digits.value_ofNat`: the digits of a number have that number as their
  value.
- Theorem `Digits.read?_chars`: written digits are read back.
-/

namespace RateDesk

/-- A decimal digit. -/
abbrev Digit := Fin 10

namespace Digit

/-- The digit zero. -/
def zero : Digit := ⟨0, by decide⟩

/-- The ASCII character of a digit. -/
def char (d : Digit) : Char :=
  Char.ofNat (48 + d.val)

/-- The digit written by an ASCII character. -/
def ofChar? (c : Char) : Option Digit :=
  if h : 48 ≤ c.toNat ∧ c.toNat < 58 then
    some ⟨c.toNat - 48, by omega⟩ else none

/-- A written digit is read back. -/
@[simp] theorem ofChar?_char (d : Digit) : ofChar? d.char = some d := by
  revert d
  decide

/-- The only character read as a digit is the one that writes it. -/
theorem ofChar?_eq_some_iff {c : Char} {d : Digit} :
    ofChar? c = some d ↔ c = d.char := by
  constructor
  · intro h
    simp only [ofChar?] at h
    split at h
    next hrange =>
      simp only [Option.some.injEq] at h
      subst h
      have hsum : 48 + (c.toNat - 48) = c.toNat := by omega
      simp [char, hsum, Char.ofNat_toNat]
    next => simp at h
  · rintro rfl
    exact ofChar?_char d

end Digit

namespace Digits

/-- The number that a run of digits denotes. -/
def value (digits : List Digit) : Nat :=
  digits.foldl (fun n d => 10 * n + d.val) 0

/-- The digits of a number, without leading zeros; zero has one digit. -/
def ofNat (n : Nat) : List Digit :=
  if h : n < 10 then [⟨n, h⟩]
  else ofNat (n / 10) ++ [⟨n % 10, Nat.mod_lt n (by decide)⟩]
termination_by n
decreasing_by omega

/-- The characters of a run of digits. -/
def chars (digits : List Digit) : List Char :=
  digits.map Digit.char

/-- Read a nonempty text that has digits only. -/
def read? (s : List Char) : Option (List Digit) :=
  if s.isEmpty then none else s.mapM Digit.ofChar?

/-- Appending a digit multiplies the value by ten and adds the digit. -/
@[simp] theorem value_concat (digits : List Digit) (d : Digit) :
    value (digits ++ [d]) = 10 * value digits + d.val := by
  simp [value]

/-- The digits of a number denote it. -/
@[simp] theorem value_ofNat (n : Nat) : value (ofNat n) = n := by
  fun_induction ofNat n with
  | case1 n h => simp [value]
  | case2 n h ih =>
      rw [value_concat, ih]
      exact Nat.div_add_mod n 10

/-- A number has at least one digit. -/
theorem ofNat_ne_nil (n : Nat) : ofNat n ≠ [] := by
  unfold ofNat
  split <;> simp

/-- Written digits are read back. -/
theorem mapM_chars (digits : List Digit) :
    (chars digits).mapM Digit.ofChar? = some digits := by
  induction digits with
  | nil => rfl
  | cons d rest ih =>
      simp only [chars, List.map_cons, List.mapM_cons,
        Digit.ofChar?_char] at ih ⊢
      simp [ih]

/-- A nonempty run of written digits is read back. -/
theorem read?_chars {digits : List Digit} (h : digits ≠ []) :
    read? (chars digits) = some digits := by
  cases digits with
  | nil => exact absurd rfl h
  | cons d rest => simpa [read?, chars] using mapM_chars (d :: rest)

end Digits

/-- A natural number in decimal digits. -/
def natText (n : Nat) : String :=
  String.ofList (Digits.chars (Digits.ofNat n))

end RateDesk
