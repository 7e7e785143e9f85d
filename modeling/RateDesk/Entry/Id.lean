import RateDesk.Text.Offset
import RateDesk.Entry.Base64

/-!
# Entry identifiers

Every stored entry has an identifier of 128 bits.  It is written as the tag
`FXQL-` and the unpadded base64 text of its sixteen bytes, and only that text is
read back as the identifier.

Main results:

- Theorem `EntryId.stamp_version` and `EntryId.stamp_variant`: stamped
  identifiers carry version 4 and the variant bits `10`.
-/

namespace RateDesk

/-- An identifier: sixteen bytes, the most significant one first. -/
structure EntryId where
  bytes : List UInt8
  length_bytes : bytes.length = 16
deriving DecidableEq

instance : Hashable EntryId := ⟨fun id => hash id.bytes⟩

/-- Why a text is no entry identifier. -/
inductive CodecError
  | missingTag
  /-- What follows the tag is no base64. -/
  | encoding (cause : Base64.DecodeError)
  /-- What follows the tag spells another number of bytes. -/
  | wrongLength (length : Nat)
deriving DecidableEq, Repr

/-- The wording of a codec error. -/
def CodecError.message : CodecError → String
  | .missingTag => "entry id is missing the FXQL- prefix"
  | .encoding cause => "entry id is not valid base64: " ++ cause.message
  | .wrongLength length =>
      "entry id decodes to " ++ natText length ++ " bytes, expected 16"

namespace EntryId

/-- Two identifiers with the same bytes are equal. -/
theorem ext_bytes {a b : EntryId} (h : a.bytes = b.bytes) : a = b := by
  cases a
  cases b
  simp_all

/-! ## Identifiers as numbers -/

/-- The identifier with the given value, modulo `2 ^ 128`. -/
def ofNat (n : Nat) : EntryId :=
  ⟨(List.range 16).map fun i => UInt8.ofNat (n / Nat.pow 256 (15 - i)), by simp⟩

/-- The value of an identifier. -/
def toNat (id : EntryId) : Nat :=
  id.bytes.foldl (fun n b => 256 * n + b.toNat) 0

/-! ## Version and variant -/

/-- Overwrite the version bits of byte six with 4 and the variant bits of byte
eight with `10`. -/
def stamp (id : EntryId) : EntryId :=
  ⟨(id.bytes.modify 6 fun b => (b &&& 0x0f) ||| 0x40).modify 8
      fun b => (b &&& 0x3f) ||| 0x80,
    by simp [id.length_bytes]⟩

/-- The version of an identifier: the upper half of byte six. -/
def version (id : EntryId) : Nat :=
  (id.bytes.getD 6 0 >>> 4).toNat

/-- The variant of an identifier: the upper two bits of byte eight. -/
def variant (id : EntryId) : Nat :=
  (id.bytes.getD 8 0 >>> 6).toNat

/-- A property of the 256 numbers below 256, read as bytes, holds of every
byte. -/
theorem forall_byte {p : UInt8 → Prop}
    (h : ∀ n : Fin 256, p (UInt8.ofNat n.val)) (b : UInt8) : p b := by
  have hb := h ⟨b.toNat, b.toNat_lt⟩
  rwa [UInt8.ofNat_toNat] at hb

/-- A stamped identifier has version 4. -/
@[simp] theorem stamp_version (id : EntryId) : id.stamp.version = 4 := by
  have hsix : 6 < id.bytes.length := by simp [id.length_bytes]
  have hbits : ∀ b : UInt8, (((b &&& 0x0f) ||| 0x40) >>> 4).toNat = 4 :=
    forall_byte (by decide +kernel)
  simp [version, stamp, List.getD_eq_getElem?_getD, hsix, hbits]

/-- A stamped identifier has the variant bits `10`. -/
@[simp] theorem stamp_variant (id : EntryId) : id.stamp.variant = 2 := by
  have height : 8 < id.bytes.length := by simp [id.length_bytes]
  have hbits : ∀ b : UInt8, (((b &&& 0x3f) ||| 0x80) >>> 6).toNat = 2 :=
    forall_byte (by decide +kernel)
  simp [variant, stamp, List.getD_eq_getElem?_getD, height, hbits]

/-! ## Text -/

/-- The tag that identifiers start with. -/
def tag : String := "FXQL-"

/-- The base64 text of an identifier. -/
def encoded (id : EntryId) : List Char :=
  Base64.encode id.bytes

/-- The text of an identifier. -/
def text (id : EntryId) : String :=
  tag ++ String.ofList id.encoded

/-- Read the base64 text of an identifier. -/
def decode (s : List Char) : Except CodecError EntryId :=
  match Base64.decode (Text.utf8Bytes s) with
  | .error cause => .error (.encoding cause)
  | .ok bytes =>
      if h : bytes.length = 16 then .ok ⟨bytes, h⟩
      else .error (.wrongLength bytes.length)

/-- Read the text of an identifier. -/
def read (s : String) : Except CodecError EntryId :=
  if tag.toList.isPrefixOf s.toList then decode (s.toList.drop tag.length)
  else .error .missingTag

end EntryId

end RateDesk
