import RateDesk.Review

/-!
# Escaped line feeds

A line feed of a submission may be written as a backslash followed by `n`.
There is no escape for a backslash, so backslashes may stand next to line feeds
and next to the letter.  This module shows that they do no harm: however the
line feeds of a text are written, it becomes the same sheet, and nothing but
line feeds changes on the way.

Main results:

- Theorem `Sheet.FeedsEscaped.unescape_eq`: escaping line feeds does not change
  the sheet.
- Theorem `Sheet.feedsEscaped_unescape`: a text is its sheet with some line
  feeds escaped.
- Theorem `Sheet.unescape_of_no_escape`: a text without escaped line feeds stays
  as it is.
- Theorem `Review.line_feeds_interchangeable`: a submission is treated alike,
  however its line feeds are written.
-/

namespace RateDesk

namespace Sheet

/-- The two characters that stand for a line feed. -/
def escapedFeed : List Char :=
  ['\\', 'n']

/-- The second text is the first one with some of its line feeds escaped. -/
inductive FeedsEscaped : List Char → List Char → Prop
  | nil : FeedsEscaped [] []
  | keep (c : Char) {s t : List Char} (behind : FeedsEscaped s t) :
      FeedsEscaped (c :: s) (c :: t)
  | escape {s t : List Char} (behind : FeedsEscaped s t) :
      FeedsEscaped ('\n' :: s) ('\\' :: 'n' :: t)

theorem FeedsEscaped.refl (s : List Char) : FeedsEscaped s s := by
  induction s with
  | nil => exact .nil
  | cons c s ih => exact .keep c ih

/-- Escaping line feeds neither makes the letter the first character nor hides
it. -/
theorem FeedsEscaped.head?_eq_letter_iff {s t : List Char}
    (h : FeedsEscaped s t) : t.head? = some 'n' ↔ s.head? = some 'n' := by
  cases h with
  | nil => rfl
  | keep c behind => rfl
  | escape behind => simp

/-- Escaping line feeds does not change the sheet. -/
theorem FeedsEscaped.unescape_eq {s t : List Char} (h : FeedsEscaped s t) :
    unescape t = unescape s := by
  induction h with
  | nil => rfl
  | @keep c s t behind ih =>
      by_cases hpair : c = '\\' ∧ s.head? = some 'n'
      · -- An escaped line feed of the first text is one of the second.
        rcases hpair with ⟨rfl, hs⟩
        rcases List.head?_eq_some_iff.mp hs with ⟨s', rfl⟩
        rcases List.head?_eq_some_iff.mp
          (behind.head?_eq_letter_iff.mpr hs) with ⟨t', rfl⟩
        rw [unescape_cons (by simp), unescape_cons (by simp)] at ih
        rw [unescape_escaped, unescape_escaped, (List.cons.inj ih).2]
      · have hpair' : ¬(c = '\\' ∧ t.head? = some 'n') := by
          rw [behind.head?_eq_letter_iff]
          exact hpair
        rw [unescape_cons hpair, unescape_cons hpair', ih]
  | escape behind ih => rw [unescape_escaped, unescape_cons (by simp), ih]

/-- A text is its sheet with some line feeds escaped. -/
theorem feedsEscaped_unescape (s : List Char) :
    FeedsEscaped (unescape s) s := by
  fun_induction unescape s with
  | case1 => exact .nil
  | case2 rest ih => exact .escape ih
  | case3 c rest _ ih => exact .keep c ih

/-- No escaped line feed is left in a sheet. -/
theorem no_escape_unescape (s : List Char) : ¬escapedFeed <:+: unescape s := by
  fun_induction unescape s with
  | case1 => simp [escapedFeed]
  | case2 rest ih =>
      rw [List.infix_cons_iff, not_or]
      exact ⟨by simp [escapedFeed], ih⟩
  | case3 c rest hpair ih =>
      rw [List.infix_cons_iff, not_or]
      refine ⟨?_, ih⟩
      -- The letter behind a kept backslash would have stood there before.
      intro hfirst
      rcases List.cons_prefix_cons.mp hfirst with ⟨hc, hn⟩
      rcases hn with ⟨back, hback⟩
      have hhead : (unescape rest).head? = some 'n' := by
        rw [← hback]
        rfl
      rw [← (feedsEscaped_unescape rest).head?_eq_letter_iff] at hhead
      rcases List.head?_eq_some_iff.mp hhead with ⟨rest', rfl⟩
      exact hpair rest' hc.symm rfl

/-- A text without escaped line feeds stays as it is. -/
theorem unescape_of_no_escape {s : List Char} (h : ¬escapedFeed <:+: s) :
    unescape s = s := by
  induction s with
  | nil => rfl
  | cons c s ih =>
      rw [List.infix_cons_iff, not_or] at h
      have hpair : ¬(c = '\\' ∧ s.head? = some 'n') := by
        rintro ⟨rfl, hs⟩
        rcases List.head?_eq_some_iff.mp hs with ⟨s', rfl⟩
        exact h.1 ⟨s', rfl⟩
      rw [unescape_cons hpair, ih h.2]

/-- The text of a sheet, and any part of it, is its own sheet. -/
theorem ofRaw_ofList {raw : String} {s : List Char}
    (h : s <:+: (ofRaw raw).chars) : ofRaw (String.ofList s) = ⟨s⟩ := by
  have hleft : ¬escapedFeed <:+: s :=
    fun hfeed => no_escape_unescape _ (hfeed.trans h)
  rw [ofRaw, String.toList_ofList, unescape_of_no_escape hleft]

end Sheet

namespace Review

/-- However the line feeds of a submission are written, it becomes the same
sheet with the same lines, and it is accepted with the same entries or rejected
with the same diagnostics.  Nothing else of the text changes, and no escaped
line feed is left, so that the text of a sheet is its own sheet. -/
theorem line_feeds_interchangeable (raw other : String)
    (h : Sheet.FeedsEscaped raw.toList other.toList) (ids : IdSource) :
    (Sheet.ofRaw other).text = (Sheet.ofRaw raw).text ∧
    (Sheet.ofRaw other).lineStarts = (Sheet.ofRaw raw).lineStarts ∧
    (ofRaw other).book ids = (ofRaw raw).book ids ∧
    Sheet.FeedsEscaped (Sheet.ofRaw raw).text.toList raw.toList ∧
    ¬Sheet.escapedFeed <:+: (Sheet.ofRaw raw).text.toList ∧
    Sheet.ofRaw (Sheet.ofRaw raw).text = Sheet.ofRaw raw := by
  have hsheet : Sheet.ofRaw other = Sheet.ofRaw raw :=
    congrArg Sheet.mk h.unescape_eq
  have hreview : ofRaw other = ofRaw raw := by
    unfold ofRaw
    rw [hsheet]
  have htext : (Sheet.ofRaw raw).text.toList = Sheet.unescape raw.toList :=
    String.toList_ofList
  rw [hsheet, hreview, htext]
  exact ⟨rfl, rfl, rfl, Sheet.feedsEscaped_unescape _,
    Sheet.no_escape_unescape _, Sheet.ofRaw_ofList (List.infix_refl _)⟩

/-- Backslashes stand before line feeds, and the letter behind one.  Of three
line feeds the first and the last are escaped. -/
theorem line_feeds_interchangeable_backslashes :
    (ofRaw "\\\\nn\\\n\\nA-B \x7bBUY x SELL 2 CAP 3\x7d").book .counting =
      (ofRaw "\\\nn\\\n\nA-B \x7bBUY x SELL 2 CAP 3\x7d").book .counting ∧
    (Sheet.ofRaw "\\\\nn\\\n\\nA-B \x7bBUY x SELL 2 CAP 3\x7d").lineStarts =
      [0, 2, 5, 6] := by
  let statement := "A-B \x7bBUY x SELL 2 CAP 3\x7d".toList
  have hescaped : Sheet.FeedsEscaped
      ('\\' :: '\n' :: 'n' :: '\\' :: '\n' :: '\n' :: statement)
      ('\\' :: '\\' :: 'n' :: 'n' :: '\\' :: '\n' :: '\\' :: 'n' ::
        statement) :=
    .keep _ (.escape (.keep _ (.keep _ (.keep _ (.escape (.refl _))))))
  have hsame := line_feeds_interchangeable
    "\\\nn\\\n\nA-B \x7bBUY x SELL 2 CAP 3\x7d"
    "\\\\nn\\\n\\nA-B \x7bBUY x SELL 2 CAP 3\x7d" hescaped .counting
  refine ⟨hsame.2.2.1, ?_⟩
  rw [hsame.2.1]
  decide +kernel

end Review

end RateDesk
