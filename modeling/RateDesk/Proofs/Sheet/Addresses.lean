import Mathlib.Algebra.GroupWithZero.Nat
import RateDesk.Text.Cut
import RateDesk.Proofs.Sheet.Lines

/-!
# Positions and byte offsets

A place in a sheet is found by its byte offset, or by its line and the
characters before it on that line.  This module shows that `Sheet.position` is
the inverse of counting bytes: on character boundaries the two ways of writing a
place determine each other, and they order places alike.  Inside a character and
past the end there is no place, and only the line is meaningful.

Main results:

- Theorem `Sheet.line_eq_count_feeds`: the line of any offset, in terms of the
  bytes before it.
- Theorem `Sheet.start_le_iff`: the lines that start at or before an offset come
  first.
- Theorem `Sheet.address_position`: counting bytes up to the position of an
  offset gives the offset.
- Theorem `Sheet.position_address`: the position of a counted offset is the
  place counted for.
- Theorem `Sheet.position_inverts_address`: all of this for every sheet and
  every offset.
-/

namespace RateDesk

/-! ## Bytes of line feeds -/

namespace Text

/-- The byte of a line feed. -/
def feedByte : UInt8 := 10

/-- Only a line feed is written with the byte of a line feed. -/
theorem feedByte_mem_utf8EncodeChar {c : Char}
    (h : feedByte ∈ String.utf8EncodeChar c) : c = '\n' := by
  -- All bytes of longer characters are at least 128.
  have hbyte : ∀ n < 256, feedByte = UInt8.ofNat n → n = 10 := by
    intro n hn heq
    have htoNat := congrArg UInt8.toNat heq
    rw [UInt8.toNat_ofNat_of_lt' hn] at htoNat
    exact htoNat.symm
  have hten : c.val.toNat = 10 := by
    unfold String.utf8EncodeChar at h
    simp only at h
    split at h
    next hle => exact hbyte _ (by omega) (List.mem_singleton.mp h)
    next =>
      split at h
      next =>
        simp only [List.mem_cons, List.not_mem_nil, or_false] at h
        rcases h with h | h <;> have := hbyte _ (by omega) h <;> omega
      next =>
        split at h
        next =>
          simp only [List.mem_cons, List.not_mem_nil, or_false] at h
          rcases h with h | h | h <;> have := hbyte _ (by omega) h <;> omega
        next =>
          simp only [List.mem_cons, List.not_mem_nil, or_false] at h
          rcases h with h | h | h | h <;> have := hbyte _ (by omega) h <;> omega
  exact Char.ext (UInt32.toNat_inj.mp hten)

theorem utf8Bytes_cons (c : Char) (s : List Char) :
    utf8Bytes (c :: s) = String.utf8EncodeChar c ++ utf8Bytes s :=
  List.flatMap_cons

/-- A slice ends at a cut of the text. -/
theorem exists_cut_of_slice? {start stop : Nat} {s middle : List Char}
    (h : slice? start stop s = some middle) :
    ∃ before after, s = before ++ after ∧ byteSize before = stop := by
  rcases Option.bind_eq_some_iff.mp h with ⟨⟨front, tail⟩, hfront, hrest⟩
  simp only at hrest
  by_cases hle : start ≤ stop
  · rw [if_pos hle] at hrest
    rcases Option.bind_eq_some_iff.mp hrest with ⟨⟨inside, after⟩, hinside, -⟩
    rcases append_of_splitAtByte? hfront with ⟨rfl, hstart⟩
    rcases append_of_splitAtByte? hinside with ⟨rfl, hstop⟩
    refine ⟨front ++ inside, after, by rw [List.append_assoc], ?_⟩
    rw [byteSize_append]
    omega
  · rw [if_neg hle] at hrest
    cases hrest

end Text

namespace Sheet

/-! ## Lines -/

/-- Among the line starts up to an offset there is one for each line feed before
it. -/
theorem length_takeWhile_startsAfterFeeds (start offset : Nat) (s : List Char) :
    ((startsAfterFeeds start s).takeWhile (· ≤ offset)).length =
      ((Text.utf8Bytes s).take (offset - start)).count Text.feedByte := by
  induction s generalizing start with
  | nil => simp [startsAfterFeeds, Text.utf8Bytes]
  | cons c s ih =>
      have hrest := ih (start + c.utf8Size)
      rw [Text.utf8Bytes_cons, List.take_append, List.count_append,
        String.length_utf8EncodeChar, Nat.sub_sub, ← hrest]
      by_cases hc : c = '\n'
      · subst hc
        simp only [startsAfterFeeds, if_true]
        by_cases hle : start + Char.utf8Size '\n' ≤ offset
        · have hone : (String.utf8EncodeChar '\n').take (offset - start) =
              [Text.feedByte] := by
            apply List.take_of_length_le
            rw [String.length_utf8EncodeChar]
            omega
          rw [List.takeWhile_cons_of_pos (by simpa using hle), hone,
            List.length_cons, List.count_singleton_self, Nat.add_comm]
        · have hsize : Char.utf8Size '\n' = 1 := by decide
          have hnone : offset - start = 0 := by omega
          have hrestNone : offset - (start + Char.utf8Size '\n') = 0 := by omega
          rw [List.takeWhile_cons_of_neg (by simpa using hle), hrest,
            hnone, hrestNone]
          simp
      · have hnone : ((String.utf8EncodeChar c).take (offset - start)).count
            Text.feedByte = 0 := by
          rw [List.count_eq_zero]
          intro hmem
          exact hc
            (Text.feedByte_mem_utf8EncodeChar (List.mem_of_mem_take hmem))
        simp only [startsAfterFeeds, if_neg hc, hnone, Nat.zero_add]

/-- The line of an offset is one more than the number of line feeds among the
bytes before it. -/
theorem line_eq_count_feeds (sheet : Sheet) (offset : Nat) :
    (sheet.position offset).line =
      ((Text.utf8Bytes sheet.chars).take offset).count Text.feedByte + 1 := by
  have hstarts := length_takeWhile_startsAfterFeeds 0 offset sheet.chars
  rw [Nat.sub_zero] at hstarts
  simp only [position, lineStarts]
  rw [List.takeWhile_cons_of_pos (by simp), List.length_cons, hstarts]

theorem pairwise_startsAfterFeeds (offset : Nat) (s : List Char) :
    (startsAfterFeeds offset s).Pairwise (· < ·) := by
  induction s generalizing offset with
  | nil => exact List.Pairwise.nil
  | cons c s ih =>
      simp only [startsAfterFeeds]
      split
      next =>
        exact List.Pairwise.cons
          (fun _ hstart => (mem_startsAfterFeeds hstart).1) (ih _)
      next => exact ih _

theorem pairwise_lineStarts (sheet : Sheet) :
    sheet.lineStarts.Pairwise (· < ·) :=
  List.Pairwise.cons (fun _ hstart => (mem_startsAfterFeeds hstart).1)
    (pairwise_startsAfterFeeds 0 sheet.chars)

/-- In an increasing list, the elements up to a bound come first. -/
theorem le_iff_lt_length_takeWhile {starts : List Nat}
    (hsorted : starts.Pairwise (· < ·)) (offset : Nat) {i start : Nat}
    (hget : starts[i]? = some start) :
    start ≤ offset ↔ i < (starts.takeWhile (· ≤ offset)).length := by
  induction starts generalizing i with
  | nil => cases hget
  | cons first starts ih =>
      rcases List.pairwise_cons.mp hsorted with ⟨hfirst, hrest⟩
      by_cases hle : first ≤ offset
      · rw [List.takeWhile_cons_of_pos (by simpa using hle), List.length_cons]
        cases i with
        | zero =>
            cases hget
            simp [hle]
        | succ i => rw [Nat.succ_lt_succ_iff, ih hrest hget]
      · rw [List.takeWhile_cons_of_neg (by simpa using hle), List.length_nil]
        cases i with
        | zero =>
            cases hget
            simp [hle]
        | succ i =>
            have hlt := hfirst start (List.mem_of_getElem? hget)
            constructor <;> intro h <;> omega

/-- The line of an offset is the number of lines that start at or before it, and
these are the first ones. -/
theorem start_le_iff {sheet : Sheet} {i start : Nat}
    (hget : sheet.lineStarts[i]? = some start) (offset : Nat) :
    start ≤ offset ↔ i < (sheet.position offset).line :=
  le_iff_lt_length_takeWhile sheet.pairwise_lineStarts offset hget

/-- Every address is on a line of the sheet. -/
theorem line_bounds (sheet : Sheet) (offset : Nat) :
    1 ≤ (sheet.position offset).line ∧
      (sheet.position offset).line ≤ max 1 sheet.lineCount := by
  constructor
  · rw [line_eq_count_feeds]
    exact Nat.le_add_left 1 _
  · have hle : (sheet.position offset).line ≤ sheet.lineStarts.length :=
      (List.takeWhile_sublist _).length_le
    cases hchars : sheet.chars with
    | nil =>
        have hone : sheet.lineStarts.length = 1 := by
          simp [lineStarts, hchars, startsAfterFeeds]
        omega
    | cons c rest =>
        have hcount : sheet.lineCount = sheet.lineStarts.length := by
          simp [lineCount, hchars]
        omega

/-! ## Addresses -/

/-- The offset lies between two characters, before the first one or behind the
last one. -/
def IsBoundary (sheet : Sheet) (offset : Nat) : Prop :=
  ∃ before after, sheet.chars = before ++ after ∧ Text.byteSize before = offset

/-- The sheet has a line of this number, and the line has so many characters. -/
def HasPlace (sheet : Sheet) (p : Position) : Prop :=
  1 ≤ p.line ∧ ∃ line, sheet.lines[p.line - 1]? = some line ∧
    p.column ≤ line.length

/-- The number of bytes before a place: those of the earlier lines, each with
its line feed, and those of the characters before the place on its own line. -/
def address (sheet : Sheet) (p : Position) : Nat :=
  ((sheet.lines.take (p.line - 1)).map fun line => Text.byteSize line + 1).sum +
    Text.byteSize ((sheet.lines[p.line - 1]?.getD []).take p.column)

/-- The lines of a text, with a line feed for each, are as long as the text and
one more line feed. -/
theorem sum_splitOn (s : List Char) :
    ((s.splitOn '\n').map fun line => Text.byteSize line + 1).sum =
      Text.byteSize s + 1 := by
  induction s with
  | nil => rfl
  | cons c s ih =>
      rw [List.splitOn_cons_eq_if_modifyHead, Text.byteSize_cons]
      by_cases hc : c = '\n'
      · subst hc
        have hsize : Char.utf8Size '\n' = 1 := by decide
        rw [if_pos (BEq.refl '\n'), List.map_cons, List.sum_cons, ih, hsize,
          Text.byteSize_nil]
        omega
      · rcases List.exists_cons_of_ne_nil (List.splitOn_ne_nil '\n' s) with
          ⟨line, lines, hlines⟩
        rw [hlines, List.map_cons, List.sum_cons] at ih
        rw [if_neg (by simpa using hc), hlines, List.modifyHead_cons,
          List.map_cons, List.sum_cons, Text.byteSize_cons]
        omega

/-- The bytes of whole lines are those of the lines and of their line feeds. -/
theorem sum_take_lines {front : List Char} (hfront : EndsLine front)
    (rest : List Char) :
    (((lines ⟨front ++ rest⟩).take (front.count '\n')).map
      fun line => Text.byteSize line + 1).sum = Text.byteSize front := by
  rcases hfront with rfl | ⟨init, rfl⟩
  · rfl
  · have hsplit : lines ⟨init ++ ['\n'] ++ rest⟩ =
        init.splitOn '\n' ++ rest.splitOn '\n' := by
      rw [lines, List.append_assoc]
      exact List.splitOn_append_cons_self init rest
    have hcount : (init ++ ['\n']).count '\n' = (init.splitOn '\n').length := by
      rw [length_splitOn, List.count_append]
      rfl
    rw [hsplit, hcount, List.take_left, sum_splitOn, Text.byteSize_append]
    rfl

/-- A line of a sheet stands behind whole lines, as many as its number says. -/
theorem exists_front_of_getElem? {s line : List Char} {i : Nat}
    (h : (s.splitOn '\n')[i]? = some line) :
    ∃ front rest, s = front ++ (line ++ rest) ∧ EndsLine front ∧
      front.count '\n' = i ∧ '\n' ∉ line := by
  induction i generalizing s with
  | zero =>
      cases hcut : Text.cutAt? '\n' s with
      | none =>
          have hfeed := Text.cutAt?_eq_none_iff.mp hcut
          rw [List.splitOn_eq_singleton hfeed] at h
          cases h
          exact ⟨[], [], by simp, Or.inl rfl, rfl, hfeed⟩
      | some cut =>
          rcases Text.cutAt?_eq_some_iff.mp hcut with ⟨hs, hfeed⟩
          rw [hs, List.splitOn_append_cons_self_of_not_mem hfeed] at h
          cases h
          exact ⟨[], '\n' :: cut.2, hs, Or.inl rfl, rfl, hfeed⟩
  | succ i ih =>
      cases hcut : Text.cutAt? '\n' s with
      | none =>
          rw [List.splitOn_eq_singleton (Text.cutAt?_eq_none_iff.mp hcut)] at h
          cases h
      | some cut =>
          rcases Text.cutAt?_eq_some_iff.mp hcut with ⟨hs, hfeed⟩
          rw [hs, List.splitOn_append_cons_self_of_not_mem hfeed,
            List.getElem?_cons_succ] at h
          rcases ih h with ⟨front, rest, hback, hfront, hcount, hline⟩
          refine ⟨cut.1 ++ '\n' :: front, rest,
            by rw [hs, hback]; simp, Or.inr ?_, ?_, hline⟩
          · rcases hfront with rfl | ⟨init, rfl⟩
            · exact ⟨cut.1, rfl⟩
            · exact ⟨cut.1 ++ '\n' :: init, by simp⟩
          · rw [List.count_append, List.count_cons_self, hcount,
              List.count_eq_zero.mpr hfeed]
            omega

/-- Every cut of a text lies on a line: whole lines stand before the line, the
rest of the line and the text from its line feed on stand behind the cut. -/
theorem exists_line_of_cut (before after : List Char) :
    ∃ front line more rest, before = front ++ line ∧ after = more ++ rest ∧
      EndsLine front ∧ '\n' ∉ line ++ more ∧ ∀ c ∈ rest.head?, c = '\n' := by
  rcases exists_endsLine_append before with
    ⟨front, line, hbefore, hfront, hline⟩
  cases hcut : Text.cutAt? '\n' after with
  | none =>
      refine ⟨front, line, after, [], hbefore, by simp, hfront, ?_, by simp⟩
      simp [hline, Text.cutAt?_eq_none_iff.mp hcut]
  | some cut =>
      rcases Text.cutAt?_eq_some_iff.mp hcut with ⟨hafter, hmore⟩
      exact ⟨front, line, cut.1, '\n' :: cut.2, hbefore, hafter, hfront,
        by simp [hline, hmore], by simp⟩

/-- The address of the position of an offset is the offset. -/
theorem address_position {sheet : Sheet} {offset : Nat}
    (h : sheet.IsBoundary offset) :
    sheet.HasPlace (sheet.position offset) ∧
      sheet.address (sheet.position offset) = offset := by
  rcases sheet with ⟨chars⟩
  rcases h with ⟨before, after, hchars, rfl⟩
  rcases exists_line_of_cut before after with
    ⟨front, line, more, rest, rfl, rfl, hfront, hline, hrest⟩
  simp only at hchars
  have hfeed : '\n' ∉ line := fun hmem => hline (List.mem_append_left more hmem)
  have hposition := position_append hfront hfeed (more ++ rest)
  have hget := getElem?_lines hfront hline hrest
  have hsum := sum_take_lines hfront (line ++ more ++ rest)
  have htext : front ++ (line ++ more ++ rest) = chars := by
    rw [hchars]
    simp
  rw [← hchars] at hposition
  rw [htext] at hget hsum
  rw [hposition]
  constructor
  · refine ⟨Nat.le_add_left 1 _, line ++ more, hget, ?_⟩
    rw [List.length_append]
    exact Nat.le_add_right _ _
  · rw [address, Nat.add_sub_cancel, hget, hsum, Option.getD_some,
      List.take_left, Text.byteSize_append]

/-- The position of the address of a place is the place. -/
theorem position_address {sheet : Sheet} {p : Position} (h : sheet.HasPlace p) :
    sheet.IsBoundary (sheet.address p) ∧
      sheet.position (sheet.address p) = p := by
  rcases sheet with ⟨chars⟩
  rcases h with ⟨hpos, line, hget, hcolumn⟩
  rcases exists_front_of_getElem? hget with
    ⟨front, rest, rfl, hfront, hcount, hline⟩
  have haddress : address ⟨front ++ (line ++ rest)⟩ p =
      Text.byteSize (front ++ line.take p.column) := by
    rw [address, hget, ← hcount, sum_take_lines hfront, Option.getD_some,
      Text.byteSize_append]
  have hsplit : front ++ (line ++ rest) =
      front ++ line.take p.column ++ (line.drop p.column ++ rest) := by
    rw [List.append_assoc, ← List.append_assoc (line.take _),
      List.take_append_drop]
  have hfeed : '\n' ∉ line.take p.column :=
    fun hmem => hline (List.mem_of_mem_take hmem)
  have hposition := position_append hfront hfeed (line.drop p.column ++ rest)
  rw [← hsplit, hcount, Nat.sub_add_cancel hpos,
    List.length_take_of_le hcolumn] at hposition
  rw [haddress]
  exact ⟨⟨_, _, hsplit, rfl⟩, hposition⟩

/-- Inside a character and past the end the column is zero. -/
theorem column_of_not_boundary {sheet : Sheet} {offset : Nat}
    (h : ¬sheet.IsBoundary offset) : (sheet.position offset).column = 0 := by
  simp only [position]
  cases hslice :
    Text.slice? ((sheet.lineStarts.takeWhile (· ≤ offset)).getLastD 0) offset
      sheet.chars with
  | none => rfl
  | some middle => exact absurd (Text.exists_cut_of_slice? hslice) h

/-- On character boundaries the position increases with the offset. -/
theorem position_before_of_lt {sheet : Sheet} {offset other : Nat}
    (h : sheet.IsBoundary offset) (hother : sheet.IsBoundary other)
    (hlt : offset < other) :
    (sheet.position offset).Before (sheet.position other) := by
  rcases sheet with ⟨chars⟩
  rcases h with ⟨before, rest, hchars, rfl⟩
  rcases hother with ⟨front, after, hchars', rfl⟩
  simp only at hchars hchars'
  rcases Text.append_of_byteSize_le (hchars.symm.trans hchars')
    (Nat.le_of_lt hlt) with ⟨middle, rfl, -⟩
  have hne : middle ≠ [] := by
    rintro rfl
    simp at hlt
  rw [hchars']
  exact position_before before hne after

/-- The end of a sheet is on its last line. -/
theorem line_at_end {sheet : Sheet} (h : sheet.chars ≠ []) :
    (sheet.position (Text.byteSize sheet.chars)).line = sheet.lineCount := by
  rcases sheet with ⟨chars⟩
  have hline := position_line chars []
  rw [List.append_nil] at hline
  rw [hline, lineCount, if_neg (by simpa using h), lineStarts, List.length_cons,
    length_startsAfterFeeds]

/-- The line of an offset is one more than the number of line feeds among the
bytes before it; it is the number of line starts up to the offset, which come
first, and at least one.  On a character boundary the position is a place of the
sheet whose address is the offset, and each place is the position of its
address; elsewhere the column is zero.  Positions are ordered as the boundaries
are, and the last one lies on the last line. -/
theorem position_inverts_address (sheet : Sheet) (offset : Nat) :
    (sheet.position offset).line =
      ((Text.utf8Bytes sheet.chars).take offset).count Text.feedByte + 1 ∧
    1 ≤ (sheet.position offset).line ∧
    (sheet.position offset).line ≤ max 1 sheet.lineCount ∧
    (∀ i start, sheet.lineStarts[i]? = some start →
      (start ≤ offset ↔ i < (sheet.position offset).line)) ∧
    (sheet.IsBoundary offset →
      sheet.HasPlace (sheet.position offset) ∧
      sheet.address (sheet.position offset) = offset) ∧
    (∀ p, sheet.HasPlace p →
      sheet.IsBoundary (sheet.address p) ∧
      sheet.position (sheet.address p) = p) ∧
    (¬sheet.IsBoundary offset → (sheet.position offset).column = 0) ∧
    (∀ other, sheet.IsBoundary offset → sheet.IsBoundary other →
      offset < other →
      (sheet.position offset).Before (sheet.position other)) ∧
    (sheet.chars ≠ [] →
      (sheet.position (Text.byteSize sheet.chars)).line = sheet.lineCount) := by
  rcases sheet.line_bounds offset with ⟨hpos, hle⟩
  exact ⟨sheet.line_eq_count_feeds offset, hpos, hle,
    fun _ _ hget => start_le_iff hget offset, address_position,
    fun _ => position_address, column_of_not_boundary,
    fun _ => position_before_of_lt, line_at_end⟩

/-- The euro sign takes up the bytes from four to six, on the third line. -/
theorem position_inverts_address_wide_character :
    (ofRaw "é\\n\n€x").IsBoundary 7 ∧ (ofRaw "é\\n\n€x").position 7 = ⟨3, 1⟩ ∧
    (ofRaw "é\\n\n€x").address ⟨3, 1⟩ = 7 ∧ (ofRaw "é\\n\n€x").HasPlace ⟨3, 1⟩ ∧
    ¬(ofRaw "é\\n\n€x").IsBoundary 5 ∧
    ((ofRaw "é\\n\n€x").position 5).column = 0 ∧
    ((ofRaw "é\\n\n€x").position 7).Before ((ofRaw "é\\n\n€x").position 8) ∧
    ((ofRaw "é\\n\n€x").position 8).line = (ofRaw "é\\n\n€x").lineCount := by
  let sheet := ofRaw "é\\n\n€x"
  have hseven : sheet.IsBoundary 7 :=
    ⟨"é\n\n€".toList, ['x'], by decide +kernel, by decide +kernel⟩
  have height : sheet.IsBoundary 8 :=
    ⟨"é\n\n€x".toList, [], by decide +kernel, by decide +kernel⟩
  have hfive : ¬sheet.IsBoundary 5 := by
    rintro ⟨before, after, hchars, hsize⟩
    have hsplit := Text.splitAtByte?_append before after
    have hnone : Text.splitAtByte? 5 sheet.chars = none := by decide +kernel
    rw [← hchars, hsize, hnone] at hsplit
    cases hsplit
  have hposition : sheet.position 7 = ⟨3, 1⟩ := by decide +kernel
  have hend : Text.byteSize sheet.chars = 8 := by decide +kernel
  rcases position_inverts_address sheet 7 with
    ⟨-, -, -, -, haddress, -, -, hbefore, hlast⟩
  rcases position_inverts_address sheet 5 with ⟨-, -, -, -, -, -, hcolumn, -, -⟩
  have hplace := haddress hseven
  rw [hposition] at hplace
  rw [hend] at hlast
  exact ⟨hseven, hposition, hplace.2, hplace.1, hfive, hcolumn hfive,
    hbefore 8 hseven height (by decide), hlast (by decide +kernel)⟩

end Sheet

end RateDesk
