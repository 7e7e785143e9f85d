import RateDesk.Proofs.FieldValue.Accepted
import RateDesk.Proofs.FieldValue.ReadBack
import RateDesk.Proofs.Text

/-!
# Pairs by their text

A currency code is read and compared by its bytes, ordered by its letters, and
written as a text.  The letters are ASCII, so each of them is one byte, and no
text but its own has the bytes of a code.  A pair is cut at its first dash; a
further dash falls to the second code, where it is no letter.

Main results:

- Theorem `CurrencyCode.ofBytes?_eq_some_iff`: the only bytes read as a code are
  its own.
- Theorem `CurrencyCode.isText_iff`: a code is equal to its own text only.
- Theorem `CurrencyCode.compare_eq_compare_text`: codes are ordered as their
  texts are.
- Theorem `FieldValue.pair_by_text`: which texts are accepted as a pair, and how
  its codes compare.
-/

namespace RateDesk

/-! ## Letters as bytes -/

namespace Letter

theorem val_le (letter : Letter) : letter.val.val ≤ 90 :=
  (of_decide_eq_true letter.property :
    65 ≤ letter.val.val ∧ letter.val.val ≤ 90).2

/-- A letter is one byte. -/
theorem utf8EncodeChar_val (letter : Letter) :
    String.utf8EncodeChar letter.val = [letter.val.toUInt8] := by
  apply String.utf8EncodeChar_eq_singleton
  rw [Char.utf8Size_eq_one_iff]
  exact UInt32.le_trans letter.val_le (by decide)

/-- A letter is recovered from its byte. -/
theorem ofUInt8_toUInt8 (letter : Letter) :
    Char.ofUInt8 letter.val.toUInt8 = letter.val := by
  have hle : letter.val.val.toNat ≤ 90 :=
    UInt32.le_iff_toNat_le.mp letter.val_le
  have hword : letter.val.val.toUInt8.toUInt32 = letter.val.val := by
    apply UInt32.toNat_inj.mp
    rw [UInt8.toNat_toUInt32, UInt32.toNat_toUInt8]
    omega
  exact Char.ext hword

end Letter

/-! ## Codes -/

namespace CurrencyCode

/-- The bytes of a code are those of its letters. -/
theorem utf8Bytes_chars (code : CurrencyCode) :
    Text.utf8Bytes code.chars = code.bytes := by
  simp [Text.utf8Bytes, bytes, chars, Letter.utf8EncodeChar_val]

/-- The only characters read as a code are its own. -/
theorem ofChars?_eq_some_iff {s : List Char} {code : CurrencyCode} :
    ofChars? s = some code ↔ s = code.chars := by
  constructor
  · exact eq_chars_of_ofChars?
  · rintro rfl
    exact ofChars?_chars code

/-- The only bytes read as a code are its own. -/
theorem ofBytes?_eq_some_iff {s : List UInt8} {code : CurrencyCode} :
    ofBytes? s = some code ↔ s = code.bytes := by
  rw [ofBytes?, ofChars?_eq_some_iff, bytes]
  constructor
  · intro h
    have hback : ∀ b : UInt8, (Char.ofUInt8 b).toUInt8 = b :=
      UInt8.toUInt8_toUInt32
    rw [← h, List.map_map]
    exact (List.map_id'' hback s).symm
  · rintro rfl
    simp [chars, Letter.ofUInt8_toUInt8]

/-- It makes no difference whether a text is read as characters or as bytes. -/
theorem ofBytes?_utf8Bytes (s : List Char) :
    ofBytes? (Text.utf8Bytes s) = ofChars? s := by
  apply Option.ext
  intro code
  rw [ofBytes?_eq_some_iff, ofChars?_eq_some_iff, ← utf8Bytes_chars]
  exact ⟨Text.utf8Bytes_inj, congrArg Text.utf8Bytes⟩

/-- A code is equal to its own text only. -/
theorem isText_iff {code : CurrencyCode} {s : String} :
    code.isText s = true ↔ s = code.text := by
  rw [isText, beq_iff_eq, ← utf8Bytes_chars, text]
  constructor
  · intro h
    rw [Text.utf8Bytes_inj h, String.ofList_toList]
  · rintro rfl
    rw [String.toList_ofList]

/-- A code comes before another exactly when its text does. -/
theorem compare_eq_lt_iff {a b : CurrencyCode} :
    compare a b = .lt ↔ a.text < b.text := by
  have hlt : ∀ c d : Char, c < d ↔ c.toNat < d.toNat := fun _ _ => Iff.rfl
  have heq : ∀ c d : Char, c = d ↔ c.toNat = d.toNat :=
    fun _ _ => Char.toNat_inj.symm
  rw [String.lt_iff, text, text, String.toList_ofList, String.toList_ofList]
  simp [compare, chars, Ordering.then_eq_lt, Nat.compare_eq_lt,
    List.cons_lt_cons_iff, hlt, heq]

theorem compare_eq_eq_iff {a b : CurrencyCode} :
    compare a b = .eq ↔ a.text = b.text := by
  rw [text, text, String.ofList_inj]
  simp [compare, chars, Ordering.then_eq_eq, ← Char.toNat_inj]

/-- Codes are ordered as their texts are. -/
theorem compare_eq_compare_text (a b : CurrencyCode) :
    compare a b = Ord.compare a.text b.text := by
  have htext : Ord.compare a.text b.text =
      if a.text < b.text then .lt else if a.text = b.text then .eq else .gt :=
    rfl
  rw [htext]
  cases h : compare a b with
  | lt => rw [if_pos (compare_eq_lt_iff.mp h)]
  | eq =>
      have hsame := compare_eq_eq_iff.mp h
      rw [hsame, if_neg (String.lt_irrefl b.text), if_pos rfl]
  | gt =>
      have hlt : ¬ a.text < b.text := by
        rw [← compare_eq_lt_iff, h]
        decide
      have hne : ¬ a.text = b.text := by
        rw [← compare_eq_eq_iff, h]
        decide
      rw [if_neg hlt, if_neg hne]

end CurrencyCode

/-! ## Pairs -/

namespace FieldValue

/-- A text is read as a pair exactly when it is the text of the pair. -/
theorem pair_eq_ok_iff_text {raw : String} {p : CurrencyPair} :
    pair raw = .ok p ↔ raw = p.text := by
  constructor
  · exact eq_text_of_pair
  · rintro rfl
    exact pair_text p

/-- A pair is read from the bytes before and behind the first dash. -/
theorem pair_eq_ok_iff_bytes {raw : String} {p : CurrencyPair} :
    pair raw = .ok p ↔ ∃ front back, raw.toList = front ++ '-' :: back ∧
      '-' ∉ front ∧
      CurrencyCode.ofBytes? (Text.utf8Bytes front) = some p.source ∧
      CurrencyCode.ofBytes? (Text.utf8Bytes back) = some p.destination := by
  simp only [CurrencyCode.ofBytes?_utf8Bytes, CurrencyCode.ofChars?_eq_some_iff]
  rw [pair_eq_ok_iff_text]
  constructor
  · rintro rfl
    refine ⟨_, _, ?_, p.source.dash_not_mem_chars, rfl, rfl⟩
    rw [CurrencyPair.text, String.toList_ofList, CurrencyPair.chars]
  · rintro ⟨front, back, hraw, -, rfl, rfl⟩
    apply String.toList_injective
    rw [hraw, CurrencyPair.text, String.toList_ofList, CurrencyPair.chars]

/-- A text that is not the text of a pair is malformed. -/
theorem pair_eq_error_iff {raw : String} {e : FieldError} :
    pair raw = .error e ↔
      e = .malformedPair raw ∧ ∀ p : CurrencyPair, raw ≠ p.text := by
  simp only [ne_eq, ← pair_eq_ok_iff_text]
  unfold pair
  split
  next p => simp
  next => simp [eq_comm]

/-- A text is accepted as a pair exactly when it is the text of the pair, and
every other text is malformed.  Both parts may be judged by their bytes alone.
Each code is equal to its own text only, and codes are ordered as their texts
are. -/
theorem pair_by_text (raw : String) :
    (∀ p, pair raw = .ok p ↔ raw = p.text) ∧
    (∀ e, pair raw = .error e ↔
      e = .malformedPair raw ∧ ∀ p : CurrencyPair, raw ≠ p.text) ∧
    (∀ p, pair raw = .ok p ↔
      ∃ front back, raw.toList = front ++ '-' :: back ∧ '-' ∉ front ∧
      CurrencyCode.ofBytes? (Text.utf8Bytes front) = some p.source ∧
      CurrencyCode.ofBytes? (Text.utf8Bytes back) = some p.destination) ∧
    ∀ code : CurrencyCode, (∀ s, code.isText s = true ↔ s = code.text) ∧
      ∀ other, code.compare other = compare code.text other.text :=
  ⟨fun _ => pair_eq_ok_iff_text, fun _ => pair_eq_error_iff,
    fun _ => pair_eq_ok_iff_bytes, fun code =>
      ⟨fun _ => CurrencyCode.isText_iff, code.compare_eq_compare_text⟩⟩

-- The first part has three bytes, but only two characters.
example : pair "ÀB-USD" = .error (.malformedPair "ÀB-USD") := rfl

end FieldValue

end RateDesk
