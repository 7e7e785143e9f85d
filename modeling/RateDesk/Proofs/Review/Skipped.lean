import Mathlib.Data.List.Forall2
import RateDesk.Proofs.Review.Rejection
import RateDesk.Proofs.Sheet.Addresses

/-!
# Skipped text

What no statement covers is skipped, but not silently: each gap that is more
than blanks is reported once, at its first character that is not blank.  The
gaps are known from the offsets of the statements alone: one starts where a
statement ends, and stops where the next one starts.

Main results:

- Theorem `Segment.zip_bounds`: the gaps lie between the statements.
- Theorem `Segment.mem_block_or_gap`: every character stands in a block or in a
  gap.
- Theorem `Sheet.charAt?_position`: a character is found under the line and the
  column of its offset.
- Theorem `Review.skipped_text_reported`: gaps and statements divide the text,
  and the warnings of a review are those of its gaps.
-/

namespace RateDesk

/-! ## Characters of a text -/

namespace Text

/-- A character of a text that is cut in two stands before the cut or behind
it. -/
theorem split_of_append {before after front back : List Char} {c : Char}
    (h : before ++ c :: after = front ++ back) :
    (∃ more, front = before ++ c :: more) ∨
      ∃ middle, before = front ++ middle ∧ back = middle ++ c :: after := by
  rcases List.append_eq_append_iff.mp h with
    ⟨more, hfront, hback⟩ | ⟨middle, hbefore, hback⟩
  · cases more with
    | nil =>
        exact Or.inr ⟨[], by simpa using hfront.symm, by simpa using hback.symm⟩
    | cons d more =>
        rw [List.cons_append, List.cons.injEq] at hback
        exact Or.inl ⟨more, by rw [hback.1, hfront]⟩
  · exact Or.inr ⟨middle, hbefore, hback⟩

/-- Where a character stands in a part of a text, it lies between the ends of
this part. -/
theorem bounds_of_split {part front back : List Char} {c : Char}
    (h : part = front ++ c :: back) {start offset : Nat}
    (hoffset : offset = start + Text.byteSize front) :
    start ≤ offset ∧ offset + c.utf8Size ≤ start + Text.byteSize part := by
  rw [h, Text.byteSize_append, Text.byteSize_cons]
  omega

/-- A text that is more than blanks has a first character that is not blank. -/
theorem exists_solid {s : List Char} (h : allBlank s = false) :
    ∃ c rest, s = blanks s ++ c :: rest ∧ isBlank c = false := by
  have hsplit := blanks_append_skipBlanks s
  cases hskip : skipBlanks s with
  | nil =>
      rw [hskip, List.append_nil] at hsplit
      rw [← hsplit, allBlank_blanks] at h
      exact absurd h.symm Bool.false_ne_true
  | cons c rest =>
      rw [hskip] at hsplit
      have hhead := List.head?_dropWhile_not isBlank s
      rw [← skipBlanks, hskip] at hhead
      exact ⟨c, rest, hsplit.symm, by simpa using hhead⟩

/-- The leading blanks of a text stand before each of its characters that is not
blank. -/
theorem exists_blanks_append {s before after : List Char} {c : Char}
    (hs : s = before ++ c :: after) (hc : isBlank c = false) :
    ∃ middle, before = blanks s ++ middle := by
  have hsplit : before ++ c :: after = blanks s ++ skipBlanks s := by
    rw [blanks_append_skipBlanks, hs]
  rcases split_of_append hsplit with ⟨more, hblanks⟩ | ⟨middle, hbefore, -⟩
  · have hall := allBlank_blanks s
    rw [hblanks, allBlank, List.all_eq_true] at hall
    rw [hall c (by simp)] at hc
    exact absurd hc.symm Bool.false_ne_true
  · exact ⟨middle, hbefore⟩

end Text

/-- The character of a sheet at a place. -/
def Sheet.charAt? (sheet : Sheet) (p : Position) : Option Char :=
  sheet.lines[p.line - 1]?.bind fun chars => chars[p.column]?

/-- A character is found under the line and the column of its offset. -/
theorem Sheet.charAt?_position (before after : List Char) {c : Char}
    (hc : c ≠ '\n') :
    charAt? ⟨before ++ c :: after⟩
      (position ⟨before ++ c :: after⟩ (Text.byteSize before)) = some c := by
  rcases exists_line_of_cut before (c :: after) with
    ⟨front, line, more, rest, rfl, hafter, hfront, hline, hrest⟩
  have hfeed : '\n' ∉ line := fun hmem => hline (List.mem_append_left more hmem)
  cases more with
  | nil =>
      rw [List.nil_append] at hafter
      rw [← hafter] at hrest
      exact absurd (hrest c rfl) hc
  | cons d more =>
      rw [List.cons_append, List.cons.injEq] at hafter
      have hposition := position_append hfront hfeed (c :: after)
      have hget := getElem?_lines hfront hline hrest
      have htext : front ++ (line ++ d :: more ++ rest) =
          front ++ line ++ c :: after := by
        rw [hafter.1, hafter.2]
        simp
      rw [htext] at hget
      rw [charAt?, hposition, Nat.add_sub_cancel, hget, Option.bind_some,
        List.getElem?_append_right (Nat.le_refl _), Nat.sub_self, hafter.1]
      rfl

/-! ## Gaps and statements -/

namespace Segment

theorem map_snd_gaps (last : List Char) (offset : Nat)
    (segments : List Segment) :
    (gaps last offset segments).map Prod.snd =
      segments.map Segment.gap ++ [last] := by
  induction segments generalizing offset with
  | nil => rfl
  | cons g segments ih =>
      rw [gaps, List.map_cons, ih, List.map_cons, List.cons_append]

theorem map_text_statements (offset : Nat) (segments : List Segment) :
    (statements offset segments).map (fun s => s.block.text) =
      segments.map fun g => g.block.text := by
  induction segments generalizing offset with
  | nil => rfl
  | cons g segments ih => rw [statements, List.map_cons, ih, List.map_cons]

/-- The gaps of segments lie between their statements: they start where a
statement stops, and stop where the next one starts. -/
theorem zip_bounds (last : List Char) (offset : Nat) (segments : List Segment) :
    (offset :: (statements offset segments).map Statement.stop).zip
        ((statements offset segments).map Statement.start ++
          [offset + Text.byteSize (segments.flatMap Segment.text ++ last)]) =
      (gaps last offset segments).map fun gap =>
        (gap.1, gap.1 + Text.byteSize gap.2) := by
  induction segments generalizing offset with
  | nil => rfl
  | cons g segments ih =>
      have hstop : offset + Text.byteSize g.gap + Text.byteSize g.block.text =
          offset + Text.byteSize g.text := by
        rw [Segment.text, Text.byteSize_append, Nat.add_assoc]
      have hend : offset +
          Text.byteSize ((g :: segments).flatMap Segment.text ++ last) =
          offset + Text.byteSize g.text +
            Text.byteSize (segments.flatMap Segment.text ++ last) := by
        rw [List.flatMap_cons, List.append_assoc, Text.byteSize_append,
          Nat.add_assoc]
      have hrest := ih (offset + Text.byteSize g.text)
      simp only [statements, gaps, Statement.stop, List.map_cons,
        List.cons_append, List.zip_cons_cons, hstop, hend, hrest]

/-- The text of a gap stands at its offset. -/
theorem placed_of_mem_gaps {last : List Char} {gap : Nat × List Char}
    (segments : List Segment) (front : List Char)
    (h : gap ∈ gaps last (Text.byteSize front) segments) :
    ∃ before after, front ++ (segments.flatMap Segment.text ++ last) =
      before ++ (gap.2 ++ after) ∧ Text.byteSize before = gap.1 := by
  induction segments generalizing front with
  | nil =>
      rw [gaps, List.mem_singleton] at h
      subst h
      exact ⟨front, [], by simp, rfl⟩
  | cons g segments ih =>
      rw [gaps, List.mem_cons] at h
      rcases h with rfl | h
      · exact ⟨front, g.block.text ++ (segments.flatMap Segment.text ++ last),
          by simp [Segment.text], rfl⟩
      · rw [← Text.byteSize_append] at h
        rcases ih _ h with ⟨before, after, htext, hbefore⟩
        refine ⟨before, after, ?_, hbefore⟩
        rw [← htext, List.flatMap_cons]
        simp

/-- Every character of a text stands in a block or in a gap. -/
theorem mem_block_or_gap {last after : List Char} {c : Char}
    (segments : List Segment) {before : List Char} (offset : Nat)
    (h : before ++ c :: after = segments.flatMap Segment.text ++ last) :
    (∃ s ∈ statements offset segments, ∃ front back,
      s.block.text = front ++ c :: back ∧
      offset + Text.byteSize before = s.start + Text.byteSize front) ∨
    ∃ gap ∈ gaps last offset segments, ∃ front back,
      gap.2 = front ++ c :: back ∧
      offset + Text.byteSize before = gap.1 + Text.byteSize front := by
  induction segments generalizing before offset with
  | nil =>
      rw [List.flatMap_nil, List.nil_append] at h
      exact Or.inr ⟨(offset, last), List.mem_singleton_self _, before, after,
        h.symm, rfl⟩
  | cons g segments ih =>
      rw [List.flatMap_cons, Segment.text, List.append_assoc,
        List.append_assoc] at h
      simp only [statements, gaps, List.mem_cons, exists_eq_or_imp]
      -- The character stands in the first gap, in the first block, or behind
      -- both.
      rcases Text.split_of_append h with ⟨more, hgap⟩ | ⟨middle, rfl, hbehind⟩
      · exact Or.inr (Or.inl ⟨before, more, hgap, rfl⟩)
      rcases Text.split_of_append hbehind.symm with
        ⟨more, hblock⟩ | ⟨inside, rfl, hrest⟩
      · refine Or.inl (Or.inl ⟨middle, more, hblock, ?_⟩)
        rw [Text.byteSize_append, Nat.add_assoc]
      · have hoffset : offset +
            Text.byteSize (g.gap ++ (g.block.text ++ inside)) =
            offset + Text.byteSize g.text + Text.byteSize inside := by
          simp only [Segment.text, Text.byteSize_append, Nat.add_assoc]
        have hstop : Statement.stop ⟨offset + Text.byteSize g.gap, g.block⟩ =
            offset + Text.byteSize g.text := by
          rw [Statement.stop, Segment.text, Text.byteSize_append, Nat.add_assoc]
        rw [hoffset, hstop]
        rcases ih (offset + Text.byteSize g.text) hrest.symm with
          hfound | hfound
        · exact Or.inl (Or.inr hfound)
        · exact Or.inr (Or.inr hfound)

/-- Gaps and blocks, taken alternately, are the text of the segments. -/
theorem flatten_zipWith (last : List Char) (segments : List Segment) :
    (List.zipWith (· ++ ·) (segments.map Segment.gap ++ [last])
      ((segments.map fun g => g.block.text) ++ [[]])).flatten =
        segments.flatMap Segment.text ++ last := by
  induction segments with
  | nil => simp
  | cons g segments ih =>
      simp only [List.map_cons, List.cons_append, List.zipWith_cons_cons,
        List.flatten_cons, ih, List.flatMap_cons, Segment.text,
        List.append_assoc]

end Segment

/-! ## Warnings -/

namespace Review

/-- The place of the first character of a gap that is not blank: only blanks
stand before it in the gap, and it is found under its line and its column. -/
def FirstSolidAt (sheet : Sheet) (gap : Nat × List Char)
    (place : Position) : Prop :=
  ∃ front c back, gap.2 = front ++ c :: back ∧ Text.allBlank front = true ∧
    Text.isBlank c = false ∧
    place = sheet.position (gap.1 + Text.byteSize front) ∧
    sheet.charAt? place = some c

/-- Gaps and statements divide the sheet of a review. -/
structure Divided (r : Review) : Prop where
  /-- Each gap starts where a statement stops or at the start of the sheet, and
  stops where the next statement starts or at its end. -/
  bounds : (0 :: r.statements.map Statement.stop).zip
      (r.statements.map Statement.start ++ [Text.byteSize r.sheet.chars]) =
    r.gaps.map fun gap => (gap.1, gap.1 + Text.byteSize gap.2)
  /-- There is a gap before each statement and one behind the last. -/
  length_gaps : r.gaps.length = r.statements.length + 1
  /-- The bounds of a gap are character boundaries, with its text between
  them. -/
  gap_slice : ∀ gap ∈ r.gaps,
    Text.slice? gap.1 (gap.1 + Text.byteSize gap.2) r.sheet.chars = some gap.2
  block_slice : ∀ s ∈ r.statements,
    Text.slice? s.start s.stop r.sheet.chars = some s.block.text
  /-- Gaps and blocks, taken alternately, are the text of the sheet. -/
  alternate : (List.zipWith (· ++ ·) (r.gaps.map Prod.snd)
    ((r.statements.map fun s => s.block.text) ++ [[]])).flatten = r.sheet.chars

/-- The warnings of a review are about skipped text, and give these places. -/
structure WarnsAt (r : Review) (places : List Position) : Prop where
  /-- There are no other warnings. -/
  warnings : (r.notices.filter fun n => n.level = .warn) =
    places.map Notice.skippedText
  /-- There is one place for each gap that is more than blanks, in text
  order. -/
  in_order : List.Forall₂ (FirstSolidAt r.sheet)
    (r.gaps.filter fun gap => !Text.allBlank gap.2) places
  /-- A character that is not blank stands in a block, or in a gap that is
  reported at this character or before it. -/
  covers : ∀ before c after, r.sheet.chars = before ++ c :: after →
    Text.isBlank c = false →
    (∃ s ∈ r.statements, s.start ≤ Text.byteSize before ∧
      Text.byteSize before + c.utf8Size ≤ s.stop) ∨
    ∃ gap ∈ r.gaps, gap.1 ≤ Text.byteSize before ∧
      Text.byteSize before + c.utf8Size ≤ gap.1 + Text.byteSize gap.2 ∧
      ∃ place ∈ places, FirstSolidAt r.sheet gap place ∧
        (place = r.sheet.position (Text.byteSize before) ∨
          place.Before (r.sheet.position (Text.byteSize before)))

theorem skippedAt?_of_allBlank {sheet : Sheet} {gap : Nat × List Char}
    (h : Text.allBlank gap.2 = true) : skippedAt? sheet gap = none :=
  if_pos h

/-- A gap that is more than blanks is reported at its first character that is
not blank, which stands behind its leading blanks. -/
theorem exists_skippedAt? {sheet : Sheet} {gap : Nat × List Char}
    (hplaced : ∃ before after, sheet.chars = before ++ (gap.2 ++ after) ∧
      Text.byteSize before = gap.1) (h : Text.allBlank gap.2 = false) :
    ∃ place, skippedAt? sheet gap = some place ∧ FirstSolidAt sheet gap place ∧
      place = sheet.position (gap.1 + Text.byteSize (Text.blanks gap.2)) := by
  rcases sheet with ⟨chars⟩
  rcases hplaced with ⟨before, after, htext, hbefore⟩
  rcases Text.exists_solid h with ⟨c, rest, hgap, hc⟩
  have hfeed : c ≠ '\n' := by
    rintro rfl
    exact absurd hc (by decide)
  have hchars : chars =
      before ++ Text.blanks gap.2 ++ c :: (rest ++ after) := by
    simp only at htext
    rw [htext, List.append_assoc, ← List.cons_append,
      ← List.append_assoc (Text.blanks gap.2), ← hgap]
  have hfound :=
    Sheet.charAt?_position (before ++ Text.blanks gap.2) (rest ++ after) hfeed
  rw [← hchars, Text.byteSize_append, hbefore] at hfound
  exact ⟨_, if_neg (by simp [h]),
    ⟨_, c, rest, hgap, Text.allBlank_blanks _, hc, rfl, hfound⟩, rfl⟩

/-- The places of the gaps that are more than blanks, gap by gap. -/
theorem forall₂_skippedAt? {sheet : Sheet} {gaps : List (Nat × List Char)}
    (hplaced : ∀ gap ∈ gaps, ∃ before after,
      sheet.chars = before ++ (gap.2 ++ after) ∧ Text.byteSize before = gap.1) :
    List.Forall₂ (FirstSolidAt sheet)
      (gaps.filter fun gap => !Text.allBlank gap.2)
      (gaps.filterMap (skippedAt? sheet)) := by
  induction gaps with
  | nil => exact .nil
  | cons gap gaps ih =>
      rcases List.forall_mem_cons.mp hplaced with ⟨hgap, hgaps⟩
      cases hblank : Text.allBlank gap.2 with
      | true =>
          rw [List.filter_cons_of_neg (by simp [hblank]),
            List.filterMap_cons_none (skippedAt?_of_allBlank hblank)]
          exact ih hgaps
      | false =>
          rcases exists_skippedAt? hgap hblank with ⟨place, hskipped, hfirst, -⟩
          rw [List.filter_cons_of_pos (by simp [hblank]),
            List.filterMap_cons_some hskipped]
          exact .cons hfirst (ih hgaps)

/-- The warnings of a review are those about skipped text. -/
theorem filter_warn_notices (r : Review) :
    (r.notices.filter fun n => n.level = .warn) =
      (r.gaps.filterMap (skippedAt? r.sheet)).map Notice.skippedText := by
  have hskipped : ∀ places : List Position,
      ((places.map Notice.skippedText).filter fun n => n.level = .warn) =
        places.map Notice.skippedText := by
    intro places
    rw [List.filter_eq_self]
    intro n hn
    rcases List.mem_map.mp hn with ⟨place, -, rfl⟩
    rfl
  have hrejected : ((r.rejections.map fun x =>
      Notice.rejectedField x.kind x.error
        ⟨x.diagnostic.line, x.diagnostic.start⟩).filter
        fun n => n.level = .warn) = [] := by
    rw [List.filter_eq_nil_iff]
    intro n hn
    rcases List.mem_map.mp hn with ⟨x, -, rfl⟩
    simp [Notice.level]
  rw [notices, List.filter_append, List.filter_append, ← List.map_filterMap,
    hskipped, hrejected]
  split <;> simp [Notice.level]

/-- The text of a gap of a submission stands at its offset. -/
theorem placed_of_mem_gaps {raw : String} {gap : Nat × List Char}
    (h : gap ∈ (ofRaw raw).gaps) :
    ∃ before after, (ofRaw raw).sheet.chars = before ++ (gap.2 ++ after) ∧
      Text.byteSize before = gap.1 := by
  have hplaced := Segment.placed_of_mem_gaps _ [] h
  rw [List.nil_append, ← Layout.text, Layout.text_read] at hplaced
  exact hplaced

/-- The gaps and statements of a submission divide its sheet. -/
theorem divided_ofRaw (raw : String) : (ofRaw raw).Divided where
  bounds := by
    have hzip := Segment.zip_bounds (Layout.read (Sheet.ofRaw raw).chars).rest 0
      (Layout.read (Sheet.ofRaw raw).chars).segments
    rw [Nat.zero_add, ← Layout.text, Layout.text_read] at hzip
    exact hzip
  length_gaps := by
    have hgaps := congrArg List.length (Segment.map_snd_gaps
      (Layout.read (Sheet.ofRaw raw).chars).rest 0
      (Layout.read (Sheet.ofRaw raw).chars).segments)
    have hblocks := congrArg List.length (Segment.map_text_statements 0
      (Layout.read (Sheet.ofRaw raw).chars).segments)
    simp only [List.length_map, List.length_append,
      List.length_singleton] at hgaps hblocks
    exact hgaps.trans (congrArg (· + 1) hblocks.symm)
  gap_slice := by
    intro gap hgap
    rcases placed_of_mem_gaps hgap with ⟨before, after, htext, hbefore⟩
    rw [htext, ← hbefore]
    exact Text.slice?_append before gap.2 after
  block_slice := by
    intro s hs
    exact (occurs_of_mem_statements hs).slice?_block
  alternate := by
    have hgaps := Segment.map_snd_gaps
      (Layout.read (Sheet.ofRaw raw).chars).rest 0
      (Layout.read (Sheet.ofRaw raw).chars).segments
    have hblocks := Segment.map_text_statements 0
      (Layout.read (Sheet.ofRaw raw).chars).segments
    have htext := Segment.flatten_zipWith
      (Layout.read (Sheet.ofRaw raw).chars).rest
      (Layout.read (Sheet.ofRaw raw).chars).segments
    rw [← hgaps, ← hblocks, ← Layout.text, Layout.text_read] at htext
    exact htext

/-- A character of a gap that is not blank is not before the place at which the
gap is reported. -/
theorem exists_place_of_mem_gap {raw : String} {gap : Nat × List Char}
    (hgap : gap ∈ (ofRaw raw).gaps) {front back : List Char} {c : Char}
    (htext : gap.2 = front ++ c :: back) (hc : Text.isBlank c = false) :
    ∃ place ∈ (ofRaw raw).gaps.filterMap (skippedAt? (ofRaw raw).sheet),
      FirstSolidAt (ofRaw raw).sheet gap place ∧
      (place = (ofRaw raw).sheet.position (gap.1 + Text.byteSize front) ∨
        place.Before
          ((ofRaw raw).sheet.position (gap.1 + Text.byteSize front))) := by
  have hblank : Text.allBlank gap.2 = false := by
    rw [Text.allBlank, List.all_eq_false]
    exact ⟨c, by simp [htext], by simp [hc]⟩
  have hplaced := placed_of_mem_gaps hgap
  rcases exists_skippedAt? hplaced hblank with ⟨place, hskipped, hfirst, hplace⟩
  refine ⟨place, List.mem_filterMap.mpr ⟨gap, hgap, hskipped⟩, hfirst, ?_⟩
  rcases Text.exists_blanks_append htext hc with ⟨middle, rfl⟩
  rcases hplaced with ⟨before, after, hchars, hbefore⟩
  cases middle with
  | nil =>
      rw [List.append_nil]
      exact Or.inl hplace
  | cons d middle =>
      right
      have hboundary : ∀ part rest, gap.2 = part ++ rest →
          (ofRaw raw).sheet.IsBoundary (gap.1 + Text.byteSize part) := by
        intro part rest hpart
        refine ⟨before ++ part, rest ++ after, ?_, ?_⟩
        · rw [hchars, hpart]
          simp
        · rw [Text.byteSize_append, hbefore]
      have hlt : gap.1 + Text.byteSize (Text.blanks gap.2) <
          gap.1 + Text.byteSize (Text.blanks gap.2 ++ d :: middle) := by
        have hpos := Text.byteSize_pos (List.cons_ne_nil d middle)
        rw [Text.byteSize_append]
        omega
      rw [hplace]
      refine Sheet.position_before_of_lt
        (hboundary _ (Text.skipBlanks gap.2) ?_) (hboundary _ _ htext) hlt
      exact (Text.blanks_append_skipBlanks gap.2).symm

/-- A submission is warned of at its gaps that are not blank. -/
theorem warnsAt_ofRaw (raw : String) :
    (ofRaw raw).WarnsAt
      ((ofRaw raw).gaps.filterMap (skippedAt? (ofRaw raw).sheet)) where
  warnings := filter_warn_notices (ofRaw raw)
  in_order := forall₂_skippedAt? fun _ => placed_of_mem_gaps
  covers := by
    intro before c after hchars hc
    have hlayout : before ++ c :: after =
        (Layout.read (Sheet.ofRaw raw).chars).text := by
      rw [Layout.text_read]
      exact hchars.symm
    rcases Segment.mem_block_or_gap _ 0 hlayout with
      ⟨s, hs, front, back, hblock, hoffset⟩ |
        ⟨gap, hgap, front, back, htext, hoffset⟩
    · rw [Nat.zero_add] at hoffset
      exact Or.inl ⟨s, hs, Text.bounds_of_split hblock hoffset⟩
    · rw [Nat.zero_add] at hoffset
      rcases Text.bounds_of_split htext hoffset with ⟨hlow, hhigh⟩
      refine Or.inr ⟨gap, hgap, hlow, hhigh, ?_⟩
      rw [hoffset]
      exact exists_place_of_mem_gap hgap htext hc

/-- The gaps before, between and behind the statements of a submission are known
from the offsets of the statements, and divide the sheet together with their
blocks.  The warnings of its review are one for each gap that is more than
blanks, in text order, at the first character of the gap that is not blank; so
every character that is not blank is part of a statement, or is reported there
or further left. -/
theorem skipped_text_reported (raw : String) :
    (ofRaw raw).sheet = Sheet.ofRaw raw ∧
    (ofRaw raw).statements = scan (Sheet.ofRaw raw).text ∧
    (ofRaw raw).Divided ∧ ∃ places, (ofRaw raw).WarnsAt places :=
  ⟨rfl, statements_ofRaw raw, divided_ofRaw raw, _, warnsAt_ofRaw raw⟩

/-- The gap before the statement is reported at its first character, the one
between the statements is blank, and the one behind them is reported on the
third line, behind a wide blank. -/
theorem skipped_text_reported_wide_blank :
    ∃ places,
      (ofRaw
        "é: A-B\x7bBUY 1 SELL 2 CAP 3\x7d\\n C-D\x7bBUY 4 SELL 5 CAP 6\x7d\n\u3000é"
      ).WarnsAt places ∧ places = [⟨1, 0⟩, ⟨3, 1⟩] := by
  let raw :=
    "é: A-B\x7bBUY 1 SELL 2 CAP 3\x7d\\n C-D\x7bBUY 4 SELL 5 CAP 6\x7d\n\u3000é"
  rcases (skipped_text_reported raw).2.2.2 with ⟨places, hplaces⟩
  have hcomputed : (ofRaw raw).gaps.filterMap (skippedAt? (ofRaw raw).sheet) =
      [⟨1, 0⟩, ⟨3, 1⟩] := by decide +kernel
  have hwarnings := hplaces.warnings
  rw [filter_warn_notices, hcomputed] at hwarnings
  have hinjective : Function.Injective Notice.skippedText :=
    fun _ _ h => Notice.skippedText.inj h
  exact ⟨places, hplaces,
    (List.map_injective_iff.mpr hinjective hwarnings).symm⟩

end Review

end RateDesk
