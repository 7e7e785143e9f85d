/-!
# Byte offsets

Places in a text are counted in bytes of its UTF-8 form.  This module measures
texts in bytes and cuts them at a byte offset; a cut exists only on a character
boundary inside the text.

Main results:

- Theorem `byteSize_append`: sizes add up.
- Theorem `splitAtByte?_append`: cutting a concatenation at the size of its
  first part gives back both parts.
- Theorem `append_of_splitAtByte?`: a cut loses nothing and falls where it
  was asked for.
-/

namespace RateDesk
namespace Text

/-- The number of bytes of the UTF-8 form of a text. -/
def byteSize : List Char → Nat
  | [] => 0
  | c :: rest => c.utf8Size + byteSize rest

/-- The bytes of the UTF-8 form of a text. -/
def utf8Bytes (s : List Char) : List UInt8 :=
  s.flatMap String.utf8EncodeChar

@[simp] theorem byteSize_nil : byteSize [] = 0 := rfl

@[simp] theorem byteSize_cons (c : Char) (s : List Char) :
    byteSize (c :: s) = c.utf8Size + byteSize s := rfl

/-- The size of a concatenation is the sum of the sizes. -/
@[simp] theorem byteSize_append (s t : List Char) :
    byteSize (s ++ t) = byteSize s + byteSize t := by
  induction s with
  | nil => simp
  | cons c rest ih => simp [ih, Nat.add_assoc]

/-- Cut a text at a byte offset.  There is no cut inside a character or past the
end. -/
def splitAtByte? : Nat → List Char → Option (List Char × List Char)
  | 0, s => some ([], s)
  | _ + 1, [] => none
  | offset + 1, c :: rest =>
      if c.utf8Size ≤ offset + 1 then
        (splitAtByte? (offset + 1 - c.utf8Size) rest).map
          fun cut => (c :: cut.1, cut.2)
      else none

/-- The characters between two byte offsets, if both are character boundaries in
this order. -/
def slice? (start stop : Nat) (s : List Char) : Option (List Char) := do
  let (_, tail) ← splitAtByte? start s
  if start ≤ stop then
    let (middle, _) ← splitAtByte? (stop - start) tail
    return middle
  else none

/-- Cutting a concatenation after its first part gives both parts. -/
@[simp] theorem splitAtByte?_append (s t : List Char) :
    splitAtByte? (byteSize s) (s ++ t) = some (s, t) := by
  induction s with
  | nil => simp [splitAtByte?]
  | cons c rest ih =>
      have hpos := c.utf8Size_pos
      obtain ⟨n, hn⟩ : ∃ n, c.utf8Size + byteSize rest = n + 1 :=
        ⟨c.utf8Size + byteSize rest - 1, by omega⟩
      have hsub : n + 1 - c.utf8Size = byteSize rest := by omega
      have hle : c.utf8Size ≤ n + 1 := by omega
      simp [hn, splitAtByte?, hle, hsub, ih]

/-- The two parts of a cut make up the text, and the first one has the size
asked for. -/
theorem append_of_splitAtByte? {offset : Nat} {s front back : List Char}
    (h : splitAtByte? offset s = some (front, back)) :
    front ++ back = s ∧ byteSize front = offset := by
  induction s generalizing offset front back with
  | nil =>
      cases offset with
      | zero => simp_all [splitAtByte?]
      | succ n => simp [splitAtByte?] at h
  | cons c rest ih =>
      cases offset with
      | zero => simp_all [splitAtByte?]
      | succ n =>
          simp only [splitAtByte?] at h
          split at h
          next hle =>
            obtain ⟨cut, hcut, heq⟩ := Option.map_eq_some_iff.mp h
            simp only [Prod.mk.injEq] at heq
            obtain ⟨rfl, rfl⟩ := heq
            obtain ⟨happ, hsize⟩ := ih hcut
            refine ⟨by simp [happ], ?_⟩
            simp only [byteSize_cons, hsize]
            omega
          next => simp at h

end Text
end RateDesk
