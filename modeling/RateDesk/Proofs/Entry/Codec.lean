import RateDesk.Entry.Id
import RateDesk.Proofs.Text

/-!
# Identifiers and their texts

A byte string has one base64 text.  Decoding accepts this text and no other: a
text of symbols is accepted only if some byte string is written with so many of
them and the bits that fill no byte are zero.  The texts of identifiers are
those of sixteen bytes, so an identifier has one text and a text names at most
one identifier.

Main results:

- Theorem `Base64.decode_eq_ok_iff`: the accepted byte strings are the canonical
  runs of symbols.
- Theorem `Base64.decode_utf8Bytes_eq_ok_iff`: decoding accepts exactly what
  encoding writes.
- Theorem `EntryId.text_names_identifier`: what is read as an identifier, and
  how every other text is refused.
-/

namespace RateDesk

namespace Base64

/-! ## Symbols -/

namespace Sextet

/-- A byte that stands for a symbol is the code of its character. -/
theorem code_of_ofByte? {b : UInt8} {s : Sextet} (h : ofByte? b = some s) :
    s.code = b.toNat := by
  simp only [ofByte?] at h
  -- One case for each range of the alphabet, and one outside it.
  repeat' split at h
  all_goals cases h
  all_goals grind [code]

/-- The only byte read as six bits is the one that writes them. -/
theorem ofByte?_eq_some_iff {b : UInt8} {s : Sextet} :
    ofByte? b = some s ↔ b = s.byte := by
  constructor
  · intro h
    rw [byte, code_of_ofByte? h, UInt8.ofNat_toNat]
  · rintro rfl
    exact ofByte?_byte s

theorem byte_ne_padding (s : Sextet) : s.byte ≠ padding := by
  revert s
  decide

theorem utf8EncodeChar_char (s : Sextet) :
    String.utf8EncodeChar s.char = [s.byte] := by
  revert s
  decide

/-- The characters of symbols are letters, digits, underscore and dash. -/
theorem char_alphabet (s : Sextet) :
    s.char.isAlphanum = true ∨ s.char = '_' ∨ s.char = '-' := by
  revert s
  decide

end Sextet

/-- The bytes of a text of symbols are the bytes of the symbols. -/
theorem utf8Bytes_map_char (symbols : List Sextet) :
    Text.utf8Bytes (symbols.map Sextet.char) = symbols.map Sextet.byte := by
  induction symbols with
  | nil => rfl
  | cons s symbols ih =>
      unfold Text.utf8Bytes at ih ⊢
      rw [List.map_cons, List.flatMap_cons, ih, Sextet.utf8EncodeChar_char]
      rfl

/-- Bytes are read as symbols exactly when they are the bytes of these
symbols. -/
theorem readSymbols_eq_ok_iff {offset : Nat} {bytes : List UInt8}
    {symbols : List Sextet} :
    readSymbols offset bytes = .ok symbols ↔
      bytes = symbols.map Sextet.byte := by
  induction bytes generalizing offset symbols with
  | nil => cases symbols <;> simp [readSymbols]
  | cons b rest ih =>
      unfold readSymbols
      cases symbols with
      | nil =>
          cases Sextet.ofByte? b <;> cases readSymbols (offset + 1) rest <;>
            simp [Except.map]
      | cons s symbols =>
          rw [List.map_cons, List.cons.injEq, ← Sextet.ofByte?_eq_some_iff,
            ← @ih (offset + 1)]
          cases Sextet.ofByte? b <;> cases readSymbols (offset + 1) rest <;>
            simp [Except.map]

/-- Where padding has begun, the end of a text is padded. -/
theorem padded_of_readTail {offset index place : Nat} {bytes : List UInt8}
    {tail : Tail} (h : readTail offset index (some place) bytes = .ok tail) :
    tail.padded = true := by
  induction bytes generalizing index place with
  | nil =>
      unfold readTail at h
      cases h
      rfl
  | cons b rest ih =>
      unfold readTail at h
      by_cases hpad : b = padding
      · by_cases hindex : index < 2
        · simp [hpad, hindex] at h
        · rw [if_pos hpad, if_neg hindex] at h
          exact ih h
      · simp [hpad] at h

/-- The end of a text without padding is read symbol by symbol. -/
theorem readTail_eq_ok_iff {offset index : Nat} {bytes : List UInt8}
    {symbols : List Sextet} :
    readTail offset index none bytes = .ok ⟨symbols, false⟩ ↔
      bytes = symbols.map Sextet.byte := by
  induction bytes generalizing index symbols with
  | nil => cases symbols <;> simp [readTail]
  | cons b rest ih =>
      unfold readTail
      by_cases hpad : b = padding
      · constructor
        · intro h
          by_cases hindex : index < 2
          · simp [hpad, hindex] at h
          · rw [if_pos hpad, if_neg hindex] at h
            exact absurd (padded_of_readTail h) Bool.false_ne_true
        · intro h
          cases symbols with
          | nil => simp at h
          | cons s symbols =>
              rw [List.map_cons, List.cons.injEq] at h
              exact absurd (h.1.symm.trans hpad) s.byte_ne_padding
      · rw [if_neg hpad]
        cases symbols with
        | nil =>
            cases Sextet.ofByte? b <;>
              cases readTail offset (index + 1) none rest <;>
              simp [Except.map]
        | cons s symbols =>
            rw [List.map_cons, List.cons.injEq, ← Sextet.ofByte?_eq_some_iff,
              ← @ih (index + 1)]
            cases Sextet.ofByte? b with
            | none => simp
            | some t =>
                cases readTail offset (index + 1) none rest with
                | error cause => simp [Except.map]
                | ok tail =>
                    cases tail
                    simp [Except.map, and_assoc]

/-! ## Canonical runs of symbols -/

/-- The last one to four symbols, where groups of four are counted from the
start. -/
def lastGroup (symbols : List Sextet) : List Sextet :=
  symbols.drop ((symbols.length - 1) / 4 * 4)

theorem lastGroup_of_length_le {symbols : List Sextet}
    (h : symbols.length ≤ 4) : lastGroup symbols = symbols := by
  have hnone : (symbols.length - 1) / 4 * 4 = 0 := by omega
  rw [lastGroup, hnone]
  rfl

/-- A full group with symbols behind it is not the last one. -/
theorem lastGroup_group_append (s t u v : Sextet) {rest : List Sextet}
    (hrest : rest ≠ []) :
    lastGroup (s :: t :: u :: v :: rest) = lastGroup rest := by
  have hpos : 0 < rest.length := List.length_pos_iff.mpr hrest
  have hgroups : (rest.length + 4 - 1) / 4 * 4 =
      (rest.length - 1) / 4 * 4 + 4 := by omega
  simp only [lastGroup, List.length_cons, Nat.add_assoc, Nat.reduceAdd]
  rw [hgroups]
  rfl

/-- Runs of symbols that write a byte string: no single symbol is left over
behind the groups of four, and the bits that fill no byte are zero. -/
structure Canonical (symbols : List Sextet) : Prop where
  length_mod : symbols.length % 4 ≠ 1
  loose : looseBits (lastGroup symbols) = 0

/-- A group of four symbols in front does not matter. -/
theorem Canonical.group_append {s t u v : Sextet} {rest : List Sextet} :
    Canonical (s :: t :: u :: v :: rest) ↔ Canonical rest := by
  have hlength : (s :: t :: u :: v :: rest).length % 4 = rest.length % 4 := by
    simp only [List.length_cons]
    omega
  have hloose : looseBits (lastGroup (s :: t :: u :: v :: rest)) =
      looseBits (lastGroup rest) := by
    by_cases hrest : rest = []
    · subst hrest
      have hgroup : lastGroup [s, t, u, v] = [s, t, u, v] :=
        lastGroup_of_length_le (by simp)
      rw [hgroup]
      rfl
    · rw [lastGroup_group_append s t u v hrest]
  constructor
  · intro h
    exact ⟨hlength ▸ h.length_mod, hloose ▸ h.loose⟩
  · intro h
    exact ⟨hlength ▸ h.length_mod, hloose ▸ h.loose⟩

/-- A byte string is written canonically. -/
theorem canonical_pack (bytes : List UInt8) : Canonical (pack bytes) := by
  fun_induction pack bytes with
  | case1 => exact ⟨by decide, rfl⟩
  | case2 a =>
      have hloose : a.toNat % 4 * 16 % 64 % 16 = 0 := by omega
      refine ⟨by simp, ?_⟩
      rw [lastGroup_of_length_le (by simp)]
      exact hloose
  | case3 a b =>
      have hloose : b.toNat % 16 * 4 % 64 % 4 = 0 := by omega
      refine ⟨by simp, ?_⟩
      rw [lastGroup_of_length_le (by simp)]
      exact hloose
  | case4 a b c rest ih => exact Canonical.group_append.mpr ih

/-- Six bits are known from their number. -/
theorem ofNat_eq_of_val {s : Sextet} {n : Nat} (h : n = s.val) :
    Fin.ofNat 64 n = s := by
  rw [h]
  exact Fin.ofNat_val_eq_self s

/-- Packing undoes unpacking on canonical runs. -/
theorem pack_unpack {symbols : List Sextet} (h : Canonical symbols) :
    pack (unpack symbols) = symbols := by
  have hbyte : ∀ n < 256, (UInt8.ofNat n).toNat = n :=
    fun n hn => UInt8.toNat_ofNat_of_lt hn
  fun_induction unpack symbols with
  | case1 s t u v rest ih =>
      have h1 := hbyte (s.val * 4 + t.val / 16) (by omega)
      have h2 := hbyte (t.val % 16 * 16 + u.val / 4) (by omega)
      have h3 := hbyte (u.val % 4 * 64 + v.val) (by omega)
      rw [pack, ih (Canonical.group_append.mp h), h1, h2, h3]
      congr
      · apply ofNat_eq_of_val; omega
      · apply ofNat_eq_of_val; omega
      · apply ofNat_eq_of_val; omega
      · apply ofNat_eq_of_val; omega
  | case2 s t u =>
      have hloose := h.loose
      rw [lastGroup_of_length_le (by simp), looseBits] at hloose
      have h1 := hbyte (s.val * 4 + t.val / 16) (by omega)
      have h2 := hbyte (t.val % 16 * 16 + u.val / 4) (by omega)
      rw [pack, h1, h2]
      congr
      · apply ofNat_eq_of_val; omega
      · apply ofNat_eq_of_val; omega
      · apply ofNat_eq_of_val; omega
  | case3 s t =>
      have hloose := h.loose
      rw [lastGroup_of_length_le (by simp), looseBits] at hloose
      have h1 := hbyte (s.val * 4 + t.val / 16) (by omega)
      rw [pack, h1]
      congr
      · apply ofNat_eq_of_val; omega
      · apply ofNat_eq_of_val; omega
  | case4 symbols hfour hthree htwo =>
      match symbols, h.length_mod with
      | [], _ => rfl
      | [_], hone => exact absurd rfl hone
      | [s, t], _ => exact absurd rfl (htwo s t)
      | [s, t, u], _ => exact absurd rfl (hthree s t u)
      | s :: t :: u :: v :: rest, _ => exact absurd rfl (hfour s t u v rest)

/-- Three bytes are packed into four symbols, and one or two bytes into two or
three. -/
theorem length_pack (bytes : List UInt8) :
    (pack bytes).length = (4 * bytes.length + 2) / 3 := by
  fun_induction pack bytes with
  | case1 => rfl
  | case2 a => simp
  | case3 a b => simp
  | case4 a b c rest ih =>
      simp only [List.length_cons, ih]
      omega

/-! ## Decoding -/

/-- A text of symbols has no stray byte at its end. -/
theorem checkStray_map_byte (symbols : List Sextet) :
    checkStray (symbols.map Sextet.byte) = .ok () := by
  unfold checkStray
  rw [List.getLast?_map]
  cases symbols.getLast? with
  | none => rfl
  | some s => simp

/-- What is decoded is a run of symbols cut before its last group; a text that
is not empty has at least two symbols there, and no bits left over. -/
theorem symbols_of_decode {bytes out : List UInt8}
    (h : decode bytes = .ok out) :
    ∃ front last,
      bytes.take ((bytes.length - 1) / 4 * 4) = front.map Sextet.byte ∧
      bytes.drop ((bytes.length - 1) / 4 * 4) = last.map Sextet.byte ∧
      (bytes ≠ [] → 2 ≤ last.length) ∧ looseBits last = 0 ∧
      unpack (front ++ last) = out := by
  unfold decode at h
  simp only [bind, Except.bind] at h
  split at h
  next => cases h
  next =>
    split at h
    next => cases h
    next front hfront =>
      split at h
      next => cases h
      next tail htail =>
        rcases tail with ⟨last, padded⟩
        by_cases hshort : bytes ≠ [] ∧ last.length < 2
        · simp [hshort] at h
        · rw [if_neg hshort] at h
          cases padded with
          | true => simp at h
          | false =>
              by_cases hloose : looseBits last ≠ 0
              · simp [hloose] at h
              · simp only [Bool.false_eq_true, if_false, if_neg hloose,
                  Except.ok.injEq] at h
                refine ⟨front, last, readSymbols_eq_ok_iff.mp hfront,
                  readTail_eq_ok_iff.mp htail, ?_, by simpa using hloose, h⟩
                intro hne
                exact Nat.le_of_not_lt fun hlt => hshort ⟨hne, hlt⟩

/-- A canonical run of symbols is decoded. -/
theorem decode_map_byte {symbols : List Sextet} (h : Canonical symbols) :
    decode (symbols.map Sextet.byte) = .ok (unpack symbols) := by
  let cut := (symbols.length - 1) / 4 * 4
  have hfront : readSymbols 0 ((symbols.map Sextet.byte).take cut) =
      .ok (symbols.take cut) :=
    readSymbols_eq_ok_iff.mpr List.map_take.symm
  have hlast : readTail cut 0 none ((symbols.map Sextet.byte).drop cut) =
      .ok ⟨lastGroup symbols, false⟩ :=
    readTail_eq_ok_iff.mpr List.map_drop.symm
  have hlong :
      ¬(symbols.map Sextet.byte ≠ [] ∧ (lastGroup symbols).length < 2) := by
    rintro ⟨hne, hshort⟩
    have hpos : 0 < (symbols.map Sextet.byte).length :=
      List.length_pos_iff.mpr hne
    have hmod := h.length_mod
    rw [lastGroup, List.length_drop] at hshort
    rw [List.length_map] at hpos
    omega
  have hsymbols : symbols.take cut ++ lastGroup symbols = symbols :=
    List.take_append_drop cut symbols
  unfold decode
  simp only [bind, Except.bind, checkStray_map_byte, List.length_map]
  simp only [cut] at hfront hlast hsymbols
  simp only [hfront, hlast, if_neg hlong, h.loose, Bool.false_eq_true,
    if_false, ne_eq, not_true_eq_false, hsymbols]

/-- The accepted byte strings are the canonical runs of symbols. -/
theorem decode_eq_ok_iff {bytes out : List UInt8} :
    decode bytes = .ok out ↔
      ∃ symbols, Canonical symbols ∧ bytes = symbols.map Sextet.byte ∧
        unpack symbols = out := by
  constructor
  · intro h
    rcases symbols_of_decode h with
      ⟨front, last, hfront, hlast, hlong, hloose, hout⟩
    have hbytes : bytes = (front ++ last).map Sextet.byte := by
      rw [List.map_append, ← hfront, ← hlast, List.take_append_drop]
    have hfrontLength : front.length = (bytes.length - 1) / 4 * 4 := by
      have hlength := congrArg List.length hfront
      rw [List.length_take, List.length_map] at hlength
      omega
    have hlength : bytes.length = front.length + last.length := by
      rw [hbytes, List.length_map, List.length_append]
    refine ⟨front ++ last, ⟨?_, ?_⟩, hbytes, hout⟩
    · rw [List.length_append]
      by_cases hne : bytes = []
      · rw [hne] at hlength
        simp only [List.length_nil] at hlength
        omega
      · have hlast := hlong hne
        omega
    · have hgroup : lastGroup (front ++ last) = last := by
        rw [lastGroup, List.length_append, ← hlength, ← hfrontLength,
          List.drop_left]
      rw [hgroup]
      exact hloose
  · rintro ⟨symbols, hcanonical, rfl, rfl⟩
    exact decode_map_byte hcanonical

/-- Decoding accepts exactly what encoding writes. -/
theorem decode_utf8Bytes_eq_ok_iff {text : List Char} {bytes : List UInt8} :
    decode (Text.utf8Bytes text) = .ok bytes ↔ text = encode bytes := by
  rw [decode_eq_ok_iff]
  constructor
  · rintro ⟨symbols, hcanonical, htext, rfl⟩
    rw [← utf8Bytes_map_char] at htext
    rw [encode, pack_unpack hcanonical]
    exact Text.utf8Bytes_inj htext
  · rintro rfl
    exact ⟨pack bytes, canonical_pack bytes, utf8Bytes_map_char _,
      unpack_pack bytes⟩

end Base64

/-! ## Identifiers -/

namespace EntryId

theorem length_encoded (id : EntryId) : id.encoded.length = 22 := by
  rw [encoded, Base64.encode, List.length_map, Base64.length_pack,
    id.length_bytes]

/-- A text is decoded to an identifier exactly when it is the written form of
this identifier. -/
theorem decode_eq_ok_iff {text : List Char} {id : EntryId} :
    decode text = .ok id ↔ text = id.encoded := by
  rw [encoded, ← Base64.decode_utf8Bytes_eq_ok_iff]
  unfold decode
  cases Base64.decode (Text.utf8Bytes text) with
  | error cause => simp
  | ok bytes =>
      by_cases hlength : bytes.length = 16
      · simp only [hlength, dif_pos, Except.ok.injEq]
        exact ⟨fun h => h ▸ rfl, fun h => ext_bytes h⟩
      · simp only [hlength, dif_neg, not_false_iff, Except.ok.injEq,
          reduceCtorEq, false_iff]
        rintro rfl
        exact hlength id.length_bytes

/-- The texts of byte strings of another length are refused for their length. -/
theorem decode_eq_wrongLength_iff {text : List Char} {length : Nat} :
    decode text = .error (.wrongLength length) ↔
      length ≠ 16 ∧ ∃ bytes, bytes.length = length ∧
        text = Base64.encode bytes := by
  simp only [← Base64.decode_utf8Bytes_eq_ok_iff]
  unfold decode
  cases Base64.decode (Text.utf8Bytes text) with
  | error cause => simp
  | ok bytes =>
      simp only [Except.ok.injEq, exists_eq_right']
      by_cases hlength : bytes.length = 16
      · simp only [hlength, dif_pos, reduceCtorEq, false_iff, not_and]
        intro hne heq
        exact hne heq.symm
      · simp only [hlength, dif_neg, not_false_iff, Except.error.injEq,
          CodecError.wrongLength.injEq]
        constructor
        · rintro rfl
          exact ⟨hlength, rfl⟩
        · intro h
          exact h.2

/-- The texts of no byte string are refused for their encoding. -/
theorem decode_eq_encoding_iff {text : List Char} :
    (∃ cause, decode text = .error (.encoding cause)) ↔
      ∀ bytes, text ≠ Base64.encode bytes := by
  simp only [ne_eq, ← Base64.decode_utf8Bytes_eq_ok_iff]
  unfold decode
  cases Base64.decode (Text.utf8Bytes text) with
  | error cause => simp
  | ok bytes => by_cases hlength : bytes.length = 16 <;> simp [hlength]

theorem decode_ne_missingTag (text : List Char) :
    decode text ≠ .error .missingTag := by
  unfold decode
  cases Base64.decode (Text.utf8Bytes text) with
  | error cause => simp
  | ok bytes => by_cases hlength : bytes.length = 16 <;> simp [hlength]

theorem read_of_tag (encoded : List Char) :
    read (tag ++ String.ofList encoded) = decode encoded := by
  have hchars : (tag ++ String.ofList encoded).toList =
      tag.toList ++ encoded := by simp
  have htag : tag.toList.isPrefixOf (tag.toList ++ encoded) = true := by simp
  have hdrop : (tag.toList ++ encoded).drop tag.length = encoded := by
    rw [← String.length_toList, List.drop_left]
  rw [read, hchars, if_pos htag, hdrop]

theorem read_of_no_tag {s : String} (h : ¬tag.toList <+: s.toList) :
    read s = .error .missingTag := by
  rw [read, if_neg]
  rw [List.isPrefixOf_iff_prefix]
  exact h

/-- A text that starts with the tag is the tag and a rest. -/
theorem eq_tag_append {s : String} (h : tag.toList <+: s.toList) :
    ∃ encoded, s = tag ++ String.ofList encoded := by
  rcases h with ⟨encoded, hs⟩
  refine ⟨encoded, ?_⟩
  apply String.toList_injective
  simp [← hs]

/-- A text is read as an identifier exactly when it is the text of this
identifier. -/
theorem read_eq_ok_iff {s : String} {id : EntryId} :
    read s = .ok id ↔ s = id.text := by
  constructor
  · intro h
    by_cases htag : tag.toList <+: s.toList
    · rcases eq_tag_append htag with ⟨encoded, rfl⟩
      rw [read_of_tag, decode_eq_ok_iff] at h
      rw [h, text]
    · rw [read_of_no_tag htag] at h
      cases h
  · rintro rfl
    rw [text, read_of_tag, decode_eq_ok_iff]

/-- The tag is missing exactly when the text does not start with it. -/
theorem read_eq_missingTag_iff {s : String} :
    read s = .error .missingTag ↔ ¬tag.toList <+: s.toList := by
  constructor
  · intro h htag
    rcases eq_tag_append htag with ⟨encoded, rfl⟩
    rw [read_of_tag] at h
    exact decode_ne_missingTag encoded h
  · exact read_of_no_tag

/-- An identifier is written with twenty-two symbols and read back, and its text
is the only one that names it.  A text of another number of bytes is refused for
that number, every other text for its encoding.  With the tag in front the same
holds, and only a missing tag is refused as such. -/
theorem text_names_identifier :
    (∀ id : EntryId, id.encoded.length = 22 ∧
      (∀ c ∈ id.encoded, c.isAlphanum = true ∨ c = '_' ∨ c = '-') ∧
      ∀ t : List Char, decode t = .ok id ↔ t = id.encoded) ∧
    (∀ (t : List Char) (length : Nat), decode t = .error (.wrongLength length) ↔
      length ≠ 16 ∧ ∃ bytes, bytes.length = length ∧ t = Base64.encode bytes) ∧
    (∀ t : List Char, (∃ cause, decode t = .error (.encoding cause)) ↔
      ∀ bytes, t ≠ Base64.encode bytes) ∧
    (∀ (s : String) (id : EntryId), read s = .ok id ↔ s = id.text) ∧
    (∀ s : String, read s = .error .missingTag ↔ ¬tag.toList <+: s.toList) := by
  refine ⟨?_, fun _ _ => decode_eq_wrongLength_iff,
    fun _ => decode_eq_encoding_iff, fun _ _ => read_eq_ok_iff,
    fun _ => read_eq_missingTag_iff⟩
  intro id
  refine ⟨id.length_encoded, ?_, fun _ => decode_eq_ok_iff⟩
  intro c hc
  rcases List.mem_map.mp hc with ⟨s, -, rfl⟩
  exact s.char_alphabet

/-- The last symbol of an identifier carries two bits and four zeros. -/
theorem text_names_identifier_one :
    'Q' ∈ (ofNat 1).encoded ∧ ('Q'.isAlphanum = true ∨ 'Q' = '_' ∨ 'Q' = '-') ∧
      read "FXQL-AAAAAAAAAAAAAAAAAAAAAQ" = .ok (ofNat 1) ∧
      ∃ cause, decode "AAAAAAAAAAAAAAAAAAAAAR".toList =
        .error (.encoding cause) := by
  have hmem : 'Q' ∈ (ofNat 1).encoded := by decide
  have hnames := text_names_identifier
  refine ⟨hmem, (hnames.1 (ofNat 1)).2.1 'Q' hmem, ?_, ?_⟩
  · rw [hnames.2.2.2.1]
    decide
  · exact ⟨.invalidLastSymbol 82 21, rfl⟩

end EntryId

end RateDesk
