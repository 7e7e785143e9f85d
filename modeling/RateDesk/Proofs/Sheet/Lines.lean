import RateDesk.Sheet
import RateDesk.Proofs.Text

/-!
# Lines of a sheet

The lines of a sheet are what stands between its line feeds.  A place in a sheet
is written `front ++ line`, where `front` ends with a line feed or is empty and
`line` has none; its position is then the number of line feeds of `front` and
the length of `line`.

Main results:

- Theorem `Sheet.position_append`: the position of a place written in this way.
- Theorem `Sheet.position_before`: of two places of a sheet, the one further
  right has the larger position.
- Theorem `Sheet.getElem?_lines`: the line of a place is found under its number.
-/

namespace RateDesk

/-- One position comes before another: on an earlier line, or on the same line
and further left. -/
def Position.Before (p q : Position) : Prop :=
  p.line < q.line ∨ (p.line = q.line ∧ p.column < q.column)

namespace Sheet

/-- The lines of a sheet, without their line feeds. -/
def lines (sheet : Sheet) : List (List Char) :=
  sheet.chars.splitOn '\n'

/-- A text behind which a line starts: the empty one, and every one that ends
with a line feed. -/
def EndsLine (front : List Char) : Prop :=
  front = [] ∨ ∃ init, front = init ++ ['\n']

/-- Every text is some whole lines and the start of one more. -/
theorem exists_endsLine_append (before : List Char) :
    ∃ front line, before = front ++ line ∧ EndsLine front ∧ '\n' ∉ line := by
  induction before with
  | nil => exact ⟨[], [], rfl, Or.inl rfl, by simp⟩
  | cons c before ih =>
      rcases ih with ⟨front, line, rfl, hfront, hline⟩
      rcases hfront with rfl | ⟨init, rfl⟩
      · by_cases hc : c = '\n'
        · subst hc
          exact ⟨['\n'], line, rfl, Or.inr ⟨[], rfl⟩, hline⟩
        · refine ⟨[], c :: line, rfl, Or.inl rfl, ?_⟩
          simp [hline, Ne.symm hc]
      · exact ⟨c :: (init ++ ['\n']), line, rfl, Or.inr ⟨c :: init, rfl⟩, hline⟩

/-! ## Line starts -/

/-- The starts of lines in joined texts are those of the parts. -/
theorem startsAfterFeeds_append (offset : Nat) (s t : List Char) :
    startsAfterFeeds offset (s ++ t) =
      startsAfterFeeds offset s ++
        startsAfterFeeds (offset + Text.byteSize s) t := by
  induction s generalizing offset with
  | nil => rfl
  | cons c s ih =>
      simp only [List.cons_append, startsAfterFeeds, ih, Text.byteSize_cons,
        Nat.add_assoc]
      split <;> rfl

/-- No line starts in a text without line feeds. -/
theorem startsAfterFeeds_of_not_mem {s : List Char} (offset : Nat)
    (h : '\n' ∉ s) : startsAfterFeeds offset s = [] := by
  induction s generalizing offset with
  | nil => rfl
  | cons c s ih =>
      rw [List.mem_cons, not_or] at h
      simp only [startsAfterFeeds, if_neg (Ne.symm h.1)]
      exact ih _ h.2

theorem length_startsAfterFeeds (offset : Nat) (s : List Char) :
    (startsAfterFeeds offset s).length = s.count '\n' := by
  induction s generalizing offset with
  | nil => rfl
  | cons c s ih =>
      simp only [startsAfterFeeds, List.count_cons]
      split <;> simp_all

/-- The starts of lines lie inside the text and behind its first character. -/
theorem mem_startsAfterFeeds {offset start : Nat} {s : List Char}
    (h : start ∈ startsAfterFeeds offset s) :
    offset < start ∧ start ≤ offset + Text.byteSize s := by
  induction s generalizing offset with
  | nil => simp [startsAfterFeeds] at h
  | cons c s ih =>
      have hpos := c.utf8Size_pos
      simp only [startsAfterFeeds] at h
      rw [Text.byteSize_cons]
      split at h
      next =>
        rcases List.mem_cons.mp h with rfl | hrest
        · omega
        · have hbounds := ih hrest
          omega
      next =>
        have hbounds := ih h
        omega

/-- The line starts up to a place are those of the text before it. -/
theorem takeWhile_lineStarts (before after : List Char) :
    (lineStarts ⟨before ++ after⟩).takeWhile (· ≤ Text.byteSize before) =
      0 :: startsAfterFeeds 0 before := by
  have hbefore : ∀ start ∈ 0 :: startsAfterFeeds 0 before,
      decide (start ≤ Text.byteSize before) = true := by
    intro start hstart
    rw [decide_eq_true_eq]
    rcases List.mem_cons.mp hstart with rfl | hstart
    · exact Nat.zero_le _
    · have hbounds := mem_startsAfterFeeds hstart
      omega
  rw [lineStarts, startsAfterFeeds_append, ← List.cons_append,
    List.takeWhile_append_of_pos hbefore]
  cases hafter : startsAfterFeeds (0 + Text.byteSize before) after with
  | nil => simp
  | cons start rest =>
      have hstart : start ∈
          startsAfterFeeds (0 + Text.byteSize before) after := by
        rw [hafter]
        exact List.mem_cons_self
      have hlt : ¬start ≤ Text.byteSize before := by
        have hbounds := mem_startsAfterFeeds hstart
        omega
      rw [List.takeWhile_cons_of_neg (by simpa using hlt), List.append_nil]

/-- The last line starts behind the whole lines. -/
theorem getLastD_startsAfterFeeds {front line : List Char}
    (hfront : EndsLine front) (hline : '\n' ∉ line) :
    (0 :: startsAfterFeeds 0 (front ++ line)).getLastD 0 =
      Text.byteSize front := by
  rw [startsAfterFeeds_append, startsAfterFeeds_of_not_mem _ hline,
    List.append_nil]
  rcases hfront with rfl | ⟨init, rfl⟩
  · rfl
  · have hlast : startsAfterFeeds 0 (init ++ ['\n']) =
        startsAfterFeeds 0 init ++ [Text.byteSize (init ++ ['\n'])] := by
      rw [startsAfterFeeds_append]
      simp [startsAfterFeeds]
    rw [hlast, ← List.cons_append, List.getLastD_eq_getLast?,
      List.getLast?_concat]
    rfl

/-! ## Positions -/

/-- The line of a place is one more than the number of line feeds before it. -/
theorem position_line (before after : List Char) :
    (position ⟨before ++ after⟩ (Text.byteSize before)).line =
      before.count '\n' + 1 := by
  simp only [position, takeWhile_lineStarts]
  rw [List.length_cons, length_startsAfterFeeds]

/-- The position of a place: the line feeds before its line, and the characters
before it on that line. -/
theorem position_append {front line : List Char} (hfront : EndsLine front)
    (hline : '\n' ∉ line) (after : List Char) :
    position ⟨front ++ line ++ after⟩ (Text.byteSize (front ++ line)) =
      ⟨front.count '\n' + 1, line.length⟩ := by
  simp only [position, takeWhile_lineStarts,
    getLastD_startsAfterFeeds hfront hline]
  have hslice := Text.slice?_append front line after
  rw [List.append_assoc, Text.byteSize_append, hslice, List.length_cons,
    length_startsAfterFeeds, List.count_append, List.count_eq_zero.mpr hline]
  rfl

/-- Of two places of a sheet, the one further right has the larger position. -/
theorem position_before (before : List Char) {middle : List Char}
    (hne : middle ≠ []) (after : List Char) :
    (position ⟨before ++ middle ++ after⟩ (Text.byteSize before)).Before
      (position ⟨before ++ middle ++ after⟩
        (Text.byteSize (before ++ middle))) := by
  by_cases hfeed : '\n' ∈ middle
  · left
    have hcount : 0 < middle.count '\n' := List.count_pos_iff.mpr hfeed
    rw [position_line, List.append_assoc, position_line, List.count_append]
    omega
  · right
    rcases exists_endsLine_append before with ⟨front, line, rfl, hfront, hline⟩
    have hlonger : '\n' ∉ line ++ middle := by simp [hline, hfeed]
    have hlength : 0 < middle.length := List.length_pos_iff.mpr hne
    have hleft := position_append hfront hline (middle ++ after)
    have hright := position_append hfront hlonger after
    rw [← List.append_assoc] at hleft hright
    rw [hleft, hright]
    simp only [List.length_append, true_and]
    omega

theorem length_splitOn (s : List Char) :
    (s.splitOn '\n').length = s.count '\n' + 1 := by
  induction s with
  | nil => rfl
  | cons c s ih =>
      rw [List.splitOn_cons_eq_if_modifyHead, List.count_cons]
      split <;> simp [ih]

/-- The line behind some whole lines is found under their number. -/
theorem getElem?_lines {front line rest : List Char} (hfront : EndsLine front)
    (hline : '\n' ∉ line) (hrest : ∀ c ∈ rest.head?, c = '\n') :
    (lines ⟨front ++ (line ++ rest)⟩)[front.count '\n']? = some line := by
  have hhead : ((line ++ rest).splitOn '\n').head? = some line := by
    cases rest with
    | nil =>
        rw [List.append_nil, List.splitOn_eq_singleton hline, List.head?_cons]
    | cons c rest =>
        rw [hrest c rfl, List.splitOn_append_cons_self_of_not_mem hline,
          List.head?_cons]
  rw [List.head?_eq_getElem?] at hhead
  rcases hfront with rfl | ⟨init, rfl⟩
  · exact hhead
  · have hsplit : lines ⟨init ++ ['\n'] ++ (line ++ rest)⟩ =
        init.splitOn '\n' ++ (line ++ rest).splitOn '\n' := by
      rw [lines, List.append_assoc]
      exact List.splitOn_append_cons_self init (line ++ rest)
    have hcount : (init ++ ['\n']).count '\n' = (init.splitOn '\n').length := by
      rw [length_splitOn, List.count_append]
      rfl
    rw [hsplit, hcount, List.getElem?_append_right (Nat.le_refl _),
      Nat.sub_self]
    exact hhead

end Sheet

end RateDesk
