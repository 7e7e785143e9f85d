import RateDesk.Text.Blank
import RateDesk.Text.CaseFold
import RateDesk.Text.Offset

/-!
# Facts about texts

This module collects what the theory of blocks and sheets needs to know about
blanks, letter case and byte offsets.

Main results:

- Theorems `Text.run_append_inj` and `Text.append_run_inj`: there is one way to
  cut a text behind, or before, a run of characters of one kind.
- Theorem `Text.append_of_byteSize_le`: of two cuts of one text, the one at the
  smaller offset comes first.
- Theorem `Text.slice?_append`: the slice between two offsets is the text that
  stands there.
-/

namespace RateDesk
namespace Text

/-! ## Blanks and letters -/

/-- The first character of a text is there and is not blank. -/
def StartsSolid (s : List Char) : Prop :=
  ∃ c rest, s = c :: rest ∧ isBlank c = false

theorem StartsSolid.append {s : List Char} (h : StartsSolid s) (t : List Char) :
    StartsSolid (s ++ t) := by
  rcases h with ⟨c, rest, rfl, hc⟩
  exact ⟨c, rest ++ t, rfl, hc⟩

/-- A text of characters that are not blank starts with one of them. -/
theorem startsSolid_of_solid {s : List Char} (hne : s ≠ [])
    (hsolid : ∀ c ∈ s, isBlank c = false) : StartsSolid s := by
  cases s with
  | nil => exact absurd rfl hne
  | cons c rest => exact ⟨c, rest, rfl, hsolid c List.mem_cons_self⟩

/-- The leading blanks end where the first other character stands. -/
theorem blanks_append {w r : List Char} (hw : allBlank w = true)
    (hr : StartsSolid r) : blanks (w ++ r) = w := by
  rcases hr with ⟨c, rest, rfl, hc⟩
  simp only [allBlank, List.all_eq_true] at hw
  rw [blanks, List.takeWhile_append_of_pos hw]
  simp [hc]

/-- Behind the leading blanks stands the rest, from its first character that is
not blank. -/
theorem skipBlanks_append {w r : List Char} (hw : allBlank w = true)
    (hr : StartsSolid r) : skipBlanks (w ++ r) = r := by
  rcases hr with ⟨c, rest, rfl, hc⟩
  simp only [allBlank, List.all_eq_true] at hw
  rw [skipBlanks, List.dropWhile_append_of_pos hw]
  simp [hc]

/-- There is one way to cut a text into a run of characters of a kind and a rest
that does not go on with this kind. -/
theorem run_append_inj {p : Char → Bool} {w w' r r' : List Char}
    (hw : ∀ c ∈ w, p c = true) (hw' : ∀ c ∈ w', p c = true)
    (hr : ∀ c ∈ r.head?, p c = false) (hr' : ∀ c ∈ r'.head?, p c = false)
    (h : w ++ r = w' ++ r') : w = w' ∧ r = r' := by
  have hrun : ∀ {w r : List Char}, (∀ c ∈ w, p c = true) →
      (∀ c ∈ r.head?, p c = false) →
      (w ++ r).takeWhile p = w := by
    intro w r hw hr
    rw [List.takeWhile_append_of_pos hw]
    cases r with
    | nil => simp
    | cons c r =>
        rw [List.takeWhile_cons_of_neg (by simp [hr c rfl]), List.append_nil]
  have hfirst : w = w' := by rw [← hrun hw hr, h, hrun hw' hr']
  subst hfirst
  exact ⟨rfl, List.append_cancel_left h⟩

/-- There is one way to cut a text into a front that does not end with a kind of
characters and a run of this kind. -/
theorem append_run_inj {p : Char → Bool} {r r' w w' : List Char}
    (hr : ∀ c ∈ r.getLast?, p c = false) (hr' : ∀ c ∈ r'.getLast?, p c = false)
    (hw : ∀ c ∈ w, p c = true) (hw' : ∀ c ∈ w', p c = true)
    (h : r ++ w = r' ++ w') : r = r' ∧ w = w' := by
  have hreverse : w.reverse ++ r.reverse = w'.reverse ++ r'.reverse := by
    rw [← List.reverse_append, ← List.reverse_append, h]
  rw [← List.head?_reverse] at hr hr'
  rcases run_append_inj (by simpa using hw)
    (by simpa using hw') hr hr' hreverse with
    ⟨hrun, hfront⟩
  exact ⟨List.reverse_inj.mp hfront, List.reverse_inj.mp hrun⟩

/-- There is one way to cut a text into blanks and a rest that does not start
with a blank. -/
theorem blanks_append_inj {w w' r r' : List Char} (hw : allBlank w = true)
    (hw' : allBlank w' = true) (hr : StartsSolid r) (hr' : StartsSolid r')
    (h : w ++ r = w' ++ r') : w = w' ∧ r = r' := by
  rcases hr with ⟨c, r, rfl, hc⟩
  rcases hr' with ⟨d, r', rfl, hd⟩
  simp only [allBlank, List.all_eq_true] at hw hw'
  exact run_append_inj hw hw' (by simpa using hc) (by simpa using hd) h

/-- The codes of letters and digits end with that of the small `z`. -/
theorem toNat_lt_of_isAlphanum {c : Char} (h : c.isAlphanum = true) :
    c.toNat < 123 := by
  have hkinds : ((c.isUpper || c.isLower) || c.isDigit) = true := h
  rw [Bool.or_eq_true, Bool.or_eq_true] at hkinds
  rcases hkinds with (hupper | hlower) | hdigit
  · have hrange : 65 ≤ c.toNat ∧ c.toNat ≤ 90 := of_decide_eq_true hupper
    omega
  · have hz : c.toNat ≤ 122 :=
      of_decide_eq_true (Bool.and_eq_true_iff.mp hlower).2
    omega
  · have hnine : c.toNat ≤ 57 :=
      of_decide_eq_true (Bool.and_eq_true_iff.mp hdigit).2
    omega

/-- A letter or digit is not blank. -/
theorem isBlank_of_isAlphanum {c : Char} (h : c.isAlphanum = true) :
    isBlank c = false := by
  have hall : ∀ n < 123, (Char.ofNat n).isAlphanum = true →
      isBlank (Char.ofNat n) = false := by
    decide
  have hc := hall c.toNat (toNat_lt_of_isAlphanum h)
  rw [Char.ofNat_toNat] at hc
  exact hc h

theorem isAlphanum_of_isBlank {c : Char} (h : isBlank c = true) :
    c.isAlphanum = false := by
  cases halnum : c.isAlphanum with
  | false => rfl
  | true =>
      rw [isBlank_of_isAlphanum halnum] at h
      exact absurd h Bool.false_ne_true

theorem isBlank_toLower (c : Char) : isBlank c.toLower = isBlank c := by
  by_cases hc : 'A'.val ≤ c.val ∧ c.val ≤ 'Z'.val
  · have hrange : 65 ≤ c.toNat ∧ c.toNat ≤ 90 := hc
    have hall : ∀ n < 91,
        isBlank (Char.ofNat n).toLower = isBlank (Char.ofNat n) := by decide
    have hlt : c.toNat < 91 := by omega
    simpa only [Char.ofNat_toNat] using hall c.toNat hlt
  · have hsame : c.toLower = c := dif_neg hc
    rw [hsame]

/-- Folding the case of a character does not make it blank. -/
theorem isBlank_foldLetter (c : Char) : isBlank (foldLetter c) = isBlank c := by
  unfold foldLetter
  split
  next h => subst h; decide
  next =>
    split
    next h => subst h; decide
    next => exact isBlank_toLower c

/-- Two texts have the same letters if they agree when the case of each letter
is dropped. -/
theorem sameLetters_iff {s t : List Char} :
    sameLetters s t = true ↔ s.map foldLetter = t.map foldLetter := by
  rw [sameLetters, beq_iff_eq]

/-- A text that agrees with a letter text up to case has no blank where that has
none. -/
theorem startsSolid_of_sameLetters {s t : List Char}
    (h : sameLetters s t = true) (ht : StartsSolid t) : StartsSolid s := by
  rcases ht with ⟨d, back, rfl, hd⟩
  have hmap := sameLetters_iff.mp h
  cases s with
  | nil => simp at hmap
  | cons c rest =>
      simp only [List.map_cons, List.cons.injEq] at hmap
      refine ⟨c, rest, rfl, ?_⟩
      rw [← isBlank_foldLetter c, hmap.1, isBlank_foldLetter d, hd]

/-! ## Byte offsets -/

/-- A text is known from its bytes. -/
theorem utf8Bytes_inj {s t : List Char}
    (h : utf8Bytes s = utf8Bytes t) : s = t := by
  have hbytes : s.utf8Encode = t.utf8Encode := congrArg List.toByteArray h
  have hdecoded : some s.toArray = some t.toArray := by
    rw [← List.utf8Decode?_utf8Encode, ← List.utf8Decode?_utf8Encode, hbytes]
  simpa using hdecoded

/-- Only the empty text has no bytes. -/
theorem byteSize_eq_zero_iff {s : List Char} : byteSize s = 0 ↔ s = [] := by
  cases s with
  | nil => simp
  | cons c rest =>
      have hpos := c.utf8Size_pos
      simp only [byteSize_cons, List.cons_ne_nil, iff_false]
      omega

theorem byteSize_pos {s : List Char} (h : s ≠ []) : 0 < byteSize s := by
  rw [Nat.pos_iff_ne_zero, ne_eq, byteSize_eq_zero_iff]
  exact h

/-- Of two cuts of one text, the one at the smaller offset comes first. -/
theorem append_of_byteSize_le {before rest front back : List Char}
    (h : before ++ rest = front ++ back)
    (hle : byteSize before ≤ byteSize front) :
    ∃ middle, front = before ++ middle ∧ rest = middle ++ back := by
  rcases List.append_eq_append_iff.mp h with
    ⟨middle, hfront, hrest⟩ | ⟨middle, hbefore, hback⟩
  · exact ⟨middle, hfront, hrest⟩
  · have hmiddle : middle = [] := by
      rw [← byteSize_eq_zero_iff]
      rw [hbefore, byteSize_append] at hle
      omega
    subst hmiddle
    exact ⟨[], by simpa using hbefore.symm, by simpa using hback.symm⟩

/-- The slice between two offsets is the text that stands there. -/
theorem slice?_append (front middle back : List Char) :
    slice? (byteSize front) (byteSize front + byteSize middle)
      (front ++ (middle ++ back)) =
      some middle := by
  simp [slice?]

end Text
end RateDesk
