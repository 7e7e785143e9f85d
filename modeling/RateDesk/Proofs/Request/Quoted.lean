import Mathlib.Tactic.SplitIfs
import RateDesk.Request.Reader

/-!
# Quoted text read back

Writing a quoted text and reading it go through the characters one by one, each
with its own table of escapes.  A character is written in one of three ways:
with a short escape, by its code, or as it is.  In all three of them the reader
finds the character again.

Main results:

- Theorem `Json.escape_cases`: the three ways to write a character.
- Theorem `Request.readQuoted_escape`: a written character is read back.
- Theorem `Request.readQuoted_flatMap_escape`: a written text is read back up to
  its closing quotation mark.
-/

namespace RateDesk

/-! ## Writing a character -/

namespace Json

/-- A character is written with a short escape, by its code, or as it is. -/
theorem escape_cases (c : Char) :
    (∃ mark, mark ≠ 'u' ∧ Request.shortEscape? mark = some c ∧
      escape c = ['\\', mark]) ∨
    (c.toNat < 32 ∧
      escape c = ['\\', 'u', '0', '0', hexChar (c.toNat / 16),
        hexChar (c.toNat % 16)]) ∨
    (c ≠ '"' ∧ c ≠ '\\' ∧ 32 ≤ c.toNat ∧ escape c = [c]) := by
  generalize hwritten : escape c = written
  unfold escape at hwritten
  split_ifs at hwritten with
    hquote hslash hfeed hreturn htab hback hform hcontrol <;>
    subst hwritten
  · exact Or.inl ⟨'"', by decide, by rw [hquote]; rfl, rfl⟩
  · exact Or.inl ⟨'\\', by decide, by rw [hslash]; rfl, rfl⟩
  · exact Or.inl ⟨'n', by decide, by rw [hfeed]; rfl, rfl⟩
  · exact Or.inl ⟨'r', by decide, by rw [hreturn]; rfl, rfl⟩
  · exact Or.inl ⟨'t', by decide, by rw [htab]; rfl, rfl⟩
  · exact Or.inl ⟨'b', by decide, by rw [hback]; rfl, rfl⟩
  · exact Or.inl ⟨'f', by decide, by rw [hform]; rfl, rfl⟩
  · exact Or.inr (Or.inl ⟨hcontrol, rfl⟩)
  · exact Or.inr (Or.inr ⟨hquote, hslash, Nat.le_of_not_lt hcontrol, rfl⟩)

end Json

namespace Request

open Json (escape hexChar)

/-! ## Reading a character -/

/-- A hexadecimal digit is read back. -/
theorem hexValue?_hexChar {n : Nat} (h : n < 16) :
    hexValue? (hexChar n) = some n := by
  have hall : ∀ k : Fin 16, hexValue? (hexChar k.val) = some k.val := by decide
  exact hall ⟨n, h⟩

/-- The code of a control character is read back. -/
theorem readEscape_code {c : Char} (h : c.toNat < 32) (rest : List Char) :
    readEscape
      ('u' :: '0' :: '0' :: hexChar (c.toNat / 16) ::
        hexChar (c.toNat % 16) :: rest) =
      .ok (c, rest) := by
  have hhigh : hexValue? (hexChar (c.toNat / 16)) = some (c.toNat / 16) :=
    hexValue?_hexChar (by omega)
  have hlow : hexValue? (hexChar (c.toNat % 16)) = some (c.toNat % 16) :=
    hexValue?_hexChar (by omega)
  have hzero : hexValue? '0' = some 0 := by decide
  have hcode : 16 * (c.toNat / 16) + c.toNat % 16 = c.toNat :=
    Nat.div_add_mod _ _
  have htrailing : isTrailing c.toNat = false := by simp [isTrailing]; omega
  have hleading : isLeading c.toNat = false := by simp [isLeading]; omega
  simp [readEscape, readCode, readHex, hexValue4?, hzero, hhigh, hlow, hcode,
    htrailing, hleading, bind, Except.bind]

/-- Behind a backslash an escape is read. -/
theorem readQuoted_of_readEscape {c : Char} {s rest : List Char}
    (h : readEscape s = .ok (c, rest)) :
    readQuoted ('\\' :: s) = (readQuoted rest).map fun found =>
      (c :: found.1, found.2) := by
  rw [readQuoted, if_neg (by decide), if_pos rfl]
  split
  next e herror =>
    rw [h] at herror
    cases herror
  next value tail hok =>
    rw [h] at hok
    cases hok
    rfl

/-- A written character is read back. -/
theorem readQuoted_escape (c : Char) (rest : List Char) :
    readQuoted (escape c ++ rest) =
      (readQuoted rest).map fun found => (c :: found.1, found.2) := by
  rcases Json.escape_cases c with
    ⟨mark, hmark, hshort, hescape⟩ | ⟨hcontrol, hescape⟩ |
    ⟨hquote, hslash, hprinted, hescape⟩
  · rw [hescape]
    apply readQuoted_of_readEscape
    simp [readEscape, hmark, hshort]
  · rw [hescape]
    exact readQuoted_of_readEscape (readEscape_code hcontrol rest)
  · rw [hescape, List.singleton_append, readQuoted, if_neg hquote,
      if_neg hslash, if_neg (Nat.not_lt.mpr hprinted)]

/-- A written text is read back up to its closing quotation mark. -/
theorem readQuoted_flatMap_escape (s rest : List Char) :
    readQuoted (s.flatMap escape ++ '"' :: rest) = .ok (s, rest) := by
  induction s with
  | nil => rw [List.flatMap_nil, List.nil_append, readQuoted, if_pos rfl]
  | cons c s ih =>
      rw [List.flatMap_cons, List.append_assoc, readQuoted_escape, ih]
      rfl

end Request

end RateDesk
