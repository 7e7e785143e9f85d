import RateDesk.Number.Digits

/-!
# Unpadded URL-safe base64

Three bytes are written as four symbols of six bits each, from the alphabet of
capital letters, small letters, digits, dash and underscore.  One or two bytes
at the end are written as two or three symbols, and the bits left over in the
last symbol are zero.  No padding is written and none is accepted.

Decoding works on the bytes of a text and reports the first problem it meets: a
byte outside the alphabet, an impossible length, padding, or bits left over.

Main results:

- Theorem `Base64.Sextet.ofByte?_byte`: the symbols are read back.
- Theorem `Base64.unpack_pack`: unpacking undoes packing.
-/

namespace RateDesk
namespace Base64

/-- Six bits. -/
abbrev Sextet := Fin 64

namespace Sextet

/-- The ASCII code of the symbol for six bits. -/
def code (s : Sextet) : Nat :=
  if s.val < 26 then 65 + s.val
  else if s.val < 52 then 97 + (s.val - 26)
  else if s.val < 62 then 48 + (s.val - 52)
  else if s.val = 62 then 45
  else 95

/-- The symbol for six bits. -/
def char (s : Sextet) : Char :=
  Char.ofNat s.code

/-- The byte of the symbol for six bits. -/
def byte (s : Sextet) : UInt8 :=
  UInt8.ofNat s.code

/-- The six bits that a byte stands for, if it is in the alphabet. -/
def ofByte? (b : UInt8) : Option Sextet :=
  let n := b.toNat
  if h : 65 ≤ n ∧ n < 91 then some ⟨n - 65, by omega⟩
  else if h : 97 ≤ n ∧ n < 123 then some ⟨n - 97 + 26, by omega⟩
  else if h : 48 ≤ n ∧ n < 58 then some ⟨n - 48 + 52, by omega⟩
  else if n = 45 then some 62
  else if n = 95 then some 63
  else none

/-- The symbols of the alphabet are read back. -/
@[simp] theorem ofByte?_byte (s : Sextet) : ofByte? s.byte = some s := by
  revert s
  decide

end Sextet

/-- The sextets of a byte string. -/
def pack : List UInt8 → List Sextet
  | [] => []
  | [a] => [Fin.ofNat 64 (a.toNat / 4), Fin.ofNat 64 (a.toNat % 4 * 16)]
  | [a, b] =>
      [Fin.ofNat 64 (a.toNat / 4),
        Fin.ofNat 64 (a.toNat % 4 * 16 + b.toNat / 16),
        Fin.ofNat 64 (b.toNat % 16 * 4)]
  | a :: b :: c :: rest =>
      Fin.ofNat 64 (a.toNat / 4) ::
        Fin.ofNat 64 (a.toNat % 4 * 16 + b.toNat / 16) ::
        Fin.ofNat 64 (b.toNat % 16 * 4 + c.toNat / 64) ::
          Fin.ofNat 64 (c.toNat % 64) ::
          pack rest

/-- The bytes that sextets spell; bits that fill no byte are dropped. -/
def unpack : List Sextet → List UInt8
  | s :: t :: u :: v :: rest =>
      UInt8.ofNat (s.val * 4 + t.val / 16) ::
        UInt8.ofNat (t.val % 16 * 16 + u.val / 4) ::
        UInt8.ofNat (u.val % 4 * 64 + v.val) :: unpack rest
  | [s, t, u] =>
      [UInt8.ofNat (s.val * 4 + t.val / 16),
        UInt8.ofNat (t.val % 16 * 16 + u.val / 4)]
  | [s, t] => [UInt8.ofNat (s.val * 4 + t.val / 16)]
  | _ => []

/-- The bits of the last few sextets that fill no byte. -/
def looseBits : List Sextet → Nat
  | [_, t] => t.val % 16
  | [_, _, u] => u.val % 4
  | _ => 0

/-- The symbols of a byte string. -/
def encode (bytes : List UInt8) : List Char :=
  (pack bytes).map Sextet.char

/-- Unpacking undoes packing. -/
@[simp] theorem unpack_pack (bytes : List UInt8) :
    unpack (pack bytes) = bytes := by
  fun_induction pack bytes with
  | case1 => rfl
  | case2 a =>
      have ha := a.toNat_lt
      have h : (a.toNat / 4 % 64) * 4 + (a.toNat % 4 * 16 % 64) / 16 =
          a.toNat := by omega
      simp [unpack, h]
  | case3 a b =>
      have ha := a.toNat_lt
      have hb := b.toNat_lt
      have h1 : (a.toNat / 4 % 64) * 4 +
          ((a.toNat % 4 * 16 + b.toNat / 16) % 64) / 16 =
          a.toNat := by omega
      have h2 : ((a.toNat % 4 * 16 + b.toNat / 16) % 64) % 16 * 16 +
          (b.toNat % 16 * 4 % 64) / 4 = b.toNat := by omega
      simp only [unpack, Fin.val_ofNat, h1, h2, UInt8.ofNat_toNat]
  | case4 a b c rest ih =>
      have ha := a.toNat_lt
      have hb := b.toNat_lt
      have hc := c.toNat_lt
      have h1 : (a.toNat / 4 % 64) * 4 +
          ((a.toNat % 4 * 16 + b.toNat / 16) % 64) / 16 =
          a.toNat := by omega
      have h2 : ((a.toNat % 4 * 16 + b.toNat / 16) % 64) % 16 * 16 +
          ((b.toNat % 16 * 4 + c.toNat / 64) % 64) / 4 = b.toNat := by omega
      have h3 : ((b.toNat % 16 * 4 + c.toNat / 64) % 64) % 4 * 64 +
          c.toNat % 64 % 64 =
          c.toNat := by omega
      simp only [unpack, Fin.val_ofNat, h1, h2, h3, UInt8.ofNat_toNat, ih]

/-- Why a text is no base64. -/
inductive DecodeError
  /-- A byte outside the alphabet, or padding where a symbol is due. -/
  | invalidByte (byte : UInt8) (offset : Nat)
  /-- So many symbols that no byte string is written with them. -/
  | invalidLength (length : Nat)
  /-- A last symbol with bits left over. -/
  | invalidLastSymbol (byte : UInt8) (offset : Nat)
  | invalidPadding
deriving DecidableEq, Repr

/-- The wording of a decoding error. -/
def DecodeError.message : DecodeError → String
  | .invalidByte byte offset =>
      "Invalid symbol " ++ natText byte.toNat ++ ", offset " ++
        natText offset ++ "."
  | .invalidLength length => "Invalid input length: " ++ natText length
  | .invalidLastSymbol byte offset =>
      "Invalid last symbol " ++ natText byte.toNat ++ ", offset " ++
        natText offset ++ "."
  | .invalidPadding => "Invalid padding"

/-- The padding character. -/
def padding : UInt8 := 61

/-- Read symbols from the given offset on; the first byte outside the alphabet
is an error. -/
def readSymbols (offset : Nat) : List UInt8 → Except DecodeError (List Sextet)
  | [] => .ok []
  | b :: rest =>
      match Sextet.ofByte? b with
      | none => .error (.invalidByte b offset)
      | some s => (readSymbols (offset + 1) rest).map (s :: ·)

/-- What the last one to four bytes of a text hold. -/
structure Tail where
  symbols : List Sextet
  padded : Bool
deriving DecidableEq, Repr

/-- Read the last bytes of a text, `index` of which are already read.  Padding
is possible from the third byte on and ends the symbols; `firstPad` is where it
began. -/
def readTail (offset index : Nat) (firstPad : Option Nat) :
    List UInt8 → Except DecodeError Tail
  | [] => .ok ⟨[], firstPad.isSome⟩
  | b :: rest =>
      if b = padding then
        if index < 2 then .error (.invalidByte padding (offset + index))
        else readTail offset (index + 1)
          (some (firstPad.getD (offset + index))) rest
      else
        match firstPad, Sextet.ofByte? b with
        | some place, _ => .error (.invalidByte padding place)
        | none, none => .error (.invalidByte b (offset + index))
        | none, some s =>
            (readTail offset (index + 1) none rest).map fun tail =>
              { tail with symbols := s :: tail.symbols }

/-- A text with one byte more than whole groups of four has an impossible
length; if that byte is not even in the alphabet, this is reported before all
else. -/
def checkStray (bytes : List UInt8) : Except DecodeError Unit :=
  match bytes.getLast? with
  | some b =>
      if bytes.length % 4 = 1 ∧ b ≠ padding ∧ (Sextet.ofByte? b).isNone then
        .error (.invalidByte b (bytes.length - 1))
      else .ok ()
  | none => .ok ()

/-- The byte string that a text spells. -/
def decode (bytes : List UInt8) : Except DecodeError (List UInt8) := do
  checkStray bytes
  let headLength := (bytes.length - 1) / 4 * 4
  let front ← readSymbols 0 (bytes.take headLength)
  let tail ← readTail headLength 0 none (bytes.drop headLength)
  if bytes ≠ [] ∧ tail.symbols.length < 2 then
    .error (.invalidLength (headLength + tail.symbols.length))
  else if tail.padded then .error .invalidPadding
  else if looseBits tail.symbols ≠ 0 then
    .error (.invalidLastSymbol (bytes.getLastD 0) (bytes.length - 1))
  else .ok (unpack (front ++ tail.symbols))

end Base64
end RateDesk
