import RateDesk.Text.Cut
import RateDesk.Text.Offset

/-!
# Currencies

A currency is named by three capital ASCII letters, and a statement quotes one
currency against another.

Main results:

- Theorem `CurrencyCode.ofChars?_chars` and its converse
  `CurrencyCode.eq_chars_of_ofChars?`: codes are read exactly as they are
  written.
-/

namespace RateDesk

/-- A capital ASCII letter. -/
abbrev Letter := { c : Char // c.isUpper = true }

/-- The letter that a character is, if it is one. -/
def Letter.ofChar? (c : Char) : Option Letter :=
  if h : c.isUpper = true then some ⟨c, h⟩ else none

/-- The name of a currency: three capital letters. -/
structure CurrencyCode where
  first : Letter
  second : Letter
  third : Letter
deriving DecidableEq

namespace CurrencyCode

/-- The characters of a code. -/
def chars (code : CurrencyCode) : List Char :=
  [code.first.val, code.second.val, code.third.val]

/-- The text of a code. -/
def text (code : CurrencyCode) : String :=
  String.ofList code.chars

/-- The code that a text spells, if it is three capital letters. -/
def ofChars? : List Char → Option CurrencyCode
  | [a, b, c] => do
      return ⟨← Letter.ofChar? a, ← Letter.ofChar? b, ← Letter.ofChar? c⟩
  | _ => none

/-- The bytes of a code in ASCII. -/
def bytes (code : CurrencyCode) : List UInt8 :=
  code.chars.map Char.toUInt8

/-- The code that three bytes spell in ASCII. -/
def ofBytes? (bytes : List UInt8) : Option CurrencyCode :=
  ofChars? (bytes.map Char.ofUInt8)

/-- Whether a text has the bytes of the code. -/
def isText (code : CurrencyCode) (s : String) : Bool :=
  code.bytes == Text.utf8Bytes s.toList

/-- Codes are ordered letter by letter. -/
def compare (a b : CurrencyCode) : Ordering :=
  (Ord.compare a.first.val.toNat b.first.val.toNat).then
    ((Ord.compare a.second.val.toNat b.second.val.toNat).then
      (Ord.compare a.third.val.toNat b.third.val.toNat))

instance : Ord CurrencyCode := ⟨CurrencyCode.compare⟩

/-- A written code is read back. -/
@[simp] theorem ofChars?_chars (code : CurrencyCode) :
    ofChars? code.chars = some code := by
  simp [ofChars?, chars, Letter.ofChar?, code.first.property,
    code.second.property, code.third.property]

/-- The only text read as a code is the one that writes it. -/
theorem eq_chars_of_ofChars? {s : List Char} {code : CurrencyCode}
    (h : ofChars? s = some code) : s = code.chars := by
  unfold ofChars? at h
  split at h
  next a b c =>
    simp only [Letter.ofChar?] at h
    by_cases ha : a.isUpper = true <;> by_cases hb : b.isUpper = true <;>
      by_cases hc : c.isUpper = true <;> simp [ha, hb, hc] at h
    subst h
    rfl
  next => simp at h

end CurrencyCode

/-- The currency that is sold and the currency that is paid. -/
structure CurrencyPair where
  source : CurrencyCode
  destination : CurrencyCode
deriving DecidableEq

namespace CurrencyPair

/-- The characters of a pair: the two codes joined by a dash. -/
def chars (p : CurrencyPair) : List Char :=
  p.source.chars ++ '-' :: p.destination.chars

/-- The text of a pair. -/
def text (p : CurrencyPair) : String :=
  String.ofList p.chars

/-- The pair that a text spells: it is cut at its first dash, and both parts
have to be codes. -/
def ofChars? (s : List Char) : Option CurrencyPair := do
  let (source, destination) ← Text.cutAt? '-' s
  return ⟨← CurrencyCode.ofChars? source, ← CurrencyCode.ofChars? destination⟩

end CurrencyPair

end RateDesk
