import RateDesk.Proofs.Block.Written
import RateDesk.Proofs.Scan

/-!
# Statements in prose

Statements can be written into other text.  This module says when the scan finds
exactly the statements that were written: a blank stands between each value and
the keyword behind it, no dash occurs in the text between statements and it does
not touch a pair with a letter or digit, and the closing brace of a statement
cannot be taken for a part of its limit.

The values themselves are free.  They may hold keywords and braces, as no blank
stands inside them and a blank stands behind them.

Main results:

- Theorem `Block.Spaced.sealed`: blanks behind its values seal a block.
- Theorem `Layout.read_prose`: statements in prose are read back.
- Theorem `scan_finds_written_statements`: the scan finds the written
  statements, each where it was written.
-/

namespace RateDesk

/-! ## Blocks with blanks behind their values -/

/-- A block that follows the grammar and has a blank between each value and the
keyword behind it. -/
structure Block.Spaced (b : Block) : Prop where
  wellFormed : b.WellFormed
  buy_trail : b.buy.trail ≠ []
  sell_trail : b.sell.trail ≠ []

/-- The closing brace of a block cannot be taken for a part of its limit: a
blank stands before it, or behind it there is a blank or nothing and no other
closing brace comes next. -/
def Block.Closed (b : Block) (tail : List Char) : Prop :=
  b.cap.trail ≠ [] ∨
    ((∀ c ∈ tail.head?, Text.isBlank c = true) ∧
      ∀ c ∈ (Text.skipBlanks tail).head?, c ≠ '}')

/-- Blanks behind its values seal a block. -/
theorem Block.Spaced.sealed {b : Block} {tail : List Char} (h : b.Spaced)
    (hclosed : b.Closed tail) : b.Sealed tail where
  buy := Reader.sealed_of_blank _
    (Reader.head_blank_append h.wellFormed.buy.trail_blank h.buy_trail _)
  sell := Reader.sealed_of_blank _
    (Reader.head_blank_append h.wellFormed.sell.trail_blank h.sell_trail _)
  cap := by
    have htrail := h.wellFormed.cap.trail_blank
    rcases hclosed with hblank | ⟨hblank, hnext⟩
    · exact Reader.sealed_of_blank _ (Reader.head_blank_append htrail hblank _)
    · exact Reader.sealed_close htrail hblank hnext

/-- A block starts with a character that is neither blank nor a closing
brace. -/
theorem Block.WellFormed.text_eq_cons {b : Block} (h : b.WellFormed) :
    ∃ c rest, b.text = c :: rest ∧ Text.isBlank c = false ∧ c ≠ '}' := by
  rcases h.exists_text with ⟨source, rest, htext, hsource⟩
  cases source with
  | nil => exact ⟨'-', rest, htext, by decide, by decide⟩
  | cons c source =>
      have halnum := hsource c List.mem_cons_self
      refine ⟨c, source ++ '-' :: rest, htext,
        Text.isBlank_of_isAlphanum halnum, ?_⟩
      intro hbrace
      rw [hbrace] at halnum
      exact absurd halnum (by decide)

/-! ## Segments in prose -/

/-- The first character behind leading blanks stands in the first part of a text
or behind the leading blanks of the second. -/
theorem Text.mem_or_of_head_skipBlanks {s t : List Char} {c : Char}
    (hc : c ∈ (Text.skipBlanks (s ++ t)).head?) :
    c ∈ s ∨ c ∈ (Text.skipBlanks t).head? := by
  induction s with
  | nil => exact Or.inr hc
  | cons d s ih =>
      by_cases hd : Text.isBlank d = true
      · rw [List.cons_append, Text.skipBlanks,
          List.dropWhile_cons_of_pos hd] at hc
        rcases ih hc with hs | ht
        · exact Or.inl (List.mem_cons_of_mem d hs)
        · exact Or.inr ht
      · rw [List.cons_append, Text.skipBlanks,
          List.dropWhile_cons_of_neg hd] at hc
        have hdc : d = c := by simpa using hc
        rw [hdc]
        exact Or.inl List.mem_cons_self

namespace Segment

/-- The gap behind a block, before the segments that follow it or at the end. -/
def nextGap (last : List Char) : List Segment → List Char
  | [] => last
  | g :: _ => g.gap

/-- A block with the given segments and last gap behind it has a blank before
its closing brace, or ends the text, or is followed by a gap that starts with a
blank and has no closing brace. -/
def EndsClearly (b : Block) (last : List Char) (rest : List Segment) : Prop :=
  b.cap.trail ≠ [] ∨ (rest = [] ∧ last = []) ∨
    ((∃ c ∈ (nextGap last rest).head?, Text.isBlank c = true) ∧
      '}' ∉ nextGap last rest)

/-- The segments and the gap behind them are statements in prose. -/
def InProse (last : List Char) : List Segment → Prop
  | [] => '-' ∉ last
  | g :: rest =>
      Text.Inert g.gap ∧ g.block.Spaced ∧ EndsClearly g.block last rest ∧
      InProse last rest

variable {last : List Char} {rest : List Segment}

/-- Segments in prose start with their first gap, and no closing brace is the
first character behind it. -/
theorem InProse.exists_text (h : InProse last rest) :
    ∃ more, Layout.text ⟨rest, last⟩ = nextGap last rest ++ more ∧
      ∀ c ∈ (Text.skipBlanks more).head?, c ≠ '}' := by
  cases rest with
  | nil => exact ⟨[], by simp [Layout.text, nextGap], by simp [Text.skipBlanks]⟩
  | cons g rest =>
      rcases h with ⟨-, hspaced, -, -⟩
      rcases hspaced.wellFormed.text_eq_cons with
        ⟨c, back, htext, hsolid, hbrace⟩
      refine ⟨g.block.text ++ Layout.text ⟨rest, last⟩, ?_, ?_⟩
      · simp [Layout.text, Segment.text, nextGap]
      · rw [htext, List.cons_append, Text.skipBlanks,
          List.dropWhile_cons_of_neg (by simp [hsolid])]
        intro d hd
        have hcd : c = d := by simpa using hd
        rw [← hcd]
        exact hbrace

/-- A block that ends clearly is closed by what follows it. -/
theorem EndsClearly.closed {b : Block} (h : EndsClearly b last rest)
    (hrest : InProse last rest) : b.Closed (Layout.text ⟨rest, last⟩) := by
  rcases h with hblank | ⟨rfl, rfl⟩ | ⟨⟨c, hc, hblank⟩, hbrace⟩
  · exact Or.inl hblank
  · right
    simp [Layout.text, Text.skipBlanks]
  · right
    rcases hrest.exists_text with ⟨more, htext, hmore⟩
    rw [htext]
    constructor
    · intro d hd
      rw [List.head?_append, Option.mem_def.mp hc] at hd
      have hcd : c = d := by simpa using hd
      rw [← hcd]
      exact hblank
    · intro d hd
      rcases Text.mem_or_of_head_skipBlanks hd with hgap | hbehind
      · intro heq
        rw [heq] at hgap
        exact hbrace hgap
      · exact hmore d hbehind

end Segment

namespace Layout

/-- Statements in prose are read back. -/
theorem read_prose {segments : List Segment} {last : List Char}
    (h : Segment.InProse last segments) :
    read (text ⟨segments, last⟩) = ⟨segments, last⟩ := by
  induction segments with
  | nil => exact read_of_no_dash h
  | cons g rest ih =>
      rcases h with ⟨hgap, hspaced, hends, hrest⟩
      have hsealed := hspaced.sealed (hends.closed hrest)
      rw [read_cons hgap (Block.read?_text hspaced.wellFormed hsealed),
        ih hrest]

end Layout

/-! ## The statements found -/

namespace Segment

/-- The byte offset behind some segments, a gap and the front of a block. -/
def placeBehind (before : List Segment) (gap front : List Char) : Nat :=
  Text.byteSize (Layout.text ⟨before, gap ++ front⟩)

theorem placeBehind_add (before : List Segment) (gap front : List Char) :
    placeBehind before gap [] + Text.byteSize front =
      placeBehind before gap front := by
  simp [placeBehind, Layout.text, Nat.add_assoc]

theorem length_statements (offset : Nat) (segments : List Segment) :
    (statements offset segments).length = segments.length := by
  induction segments generalizing offset with
  | nil => rfl
  | cons g rest ih => simp only [statements, List.length_cons, ih]

/-- A statement starts behind the segments before it and its own gap. -/
theorem getElem?_statements (offset : Nat) (before : List Segment) (g : Segment)
    (after : List Segment) :
    (statements offset (before ++ g :: after))[before.length]? =
      some ⟨offset + placeBehind before g.gap [], g.block⟩ := by
  induction before generalizing offset with
  | nil => simp [statements, placeBehind, Layout.text]
  | cons first before ih =>
      simp only [List.cons_append, statements, List.length_cons,
        List.getElem?_cons_succ, ih, Statement.stop]
      simp [placeBehind, Layout.text, Segment.text, Nat.add_assoc]

end Segment

/-- The scan finds exactly the statements that are written into prose, in order.
Each has the block that was written, its span is that of the block, and each of
its fields is what was written, at the offset behind all the text that was
written before. -/
theorem scan_finds_written_statements (segments : List Segment)
    (last : List Char) (h : Segment.InProse last segments) :
    let found := scan (String.ofList (Layout.text ⟨segments, last⟩))
    found.length = segments.length ∧
    ∀ before g after, segments = before ++ g :: after →
      ∃ s, found[before.length]? = some s ∧ s.block = g.block ∧
        s.start = Segment.placeBehind before g.gap [] ∧
        s.stop = Segment.placeBehind before g.gap g.block.text ∧
        s.pair = ⟨String.ofList g.block.pair,
          Segment.placeBehind before g.gap []⟩ ∧
        s.buy = ⟨String.ofList g.block.buy.value,
          Segment.placeBehind before g.gap
            (g.block.head ++ g.block.buy.keyword ++ g.block.buy.gap)⟩ ∧
        s.sell = ⟨String.ofList g.block.sell.value,
          Segment.placeBehind before g.gap
            (g.block.head ++ g.block.buy.text ++ g.block.sell.keyword ++
              g.block.sell.gap)⟩ ∧
        s.cap = ⟨String.ofList g.block.cap.value,
          Segment.placeBehind before g.gap
            (g.block.head ++ g.block.buy.text ++ g.block.sell.text ++
              g.block.cap.keyword ++ g.block.cap.gap)⟩ := by
  intro found
  have hfound : found = Segment.statements 0 segments := by
    rw [show found = (Layout.read _).statements from rfl, String.toList_ofList,
      Layout.read_prose h]
    rfl
  refine ⟨by rw [hfound, Segment.length_statements], ?_⟩
  intro before g after hsegments
  have hget : found[before.length]? =
      some ⟨Segment.placeBehind before g.gap [], g.block⟩ := by
    rw [hfound, hsegments, Segment.getElem?_statements, Nat.zero_add]
  have hplace := Segment.placeBehind_add before g.gap
  exact ⟨_, hget, rfl, rfl, hplace _, rfl, congrArg _ (hplace _),
    congrArg _ (hplace _), congrArg _ (hplace _)⟩

/-- The values hold keywords and braces, a long s and characters of several
bytes occur, and the second closing brace touches its limit. -/
theorem scan_finds_statements_around_braces :
    let found := scan
      ("Kurse für €: A-B\x7bBUY \x7dSELL ſell \x7bCAP cap CAP \x7d, X- \x7b " ++
        "buy 1 SELL -2 CAP 3\x7d \x7b")
    found.length = 2 ∧
    (∃ s, found[0]? = some s ∧ s.start = 16 ∧ s.buy = ⟨"\x7dSELL", 24⟩ ∧
      s.sell = ⟨"\x7bCAP", 36⟩ ∧ s.cap = ⟨"CAP", 45⟩ ∧ s.stop = 50) ∧
    ∃ s, found[1]? = some s ∧ s.start = 52 ∧ s.cap = ⟨"3", 75⟩ ∧
      s.stop = 77 := by
  intro found
  let first : Segment := ⟨"Kurse für €: ".toList, ⟨"A-B".toList, [], [],
    ⟨"BUY".toList, [' '], "\x7dSELL".toList, [' ']⟩,
    ⟨"ſell".toList, [' '], "\x7bCAP".toList, [' ']⟩,
    ⟨"cap".toList, [' '], "CAP".toList, [' ']⟩⟩⟩
  let second : Segment := ⟨[',', ' '], ⟨"X-".toList, [' '], [' '],
    ⟨"buy".toList, [' '], ['1'], [' ']⟩,
    ⟨"SELL".toList, [' '], "-2".toList, [' ']⟩,
    ⟨"CAP".toList, [' '], ['3'], []⟩⟩⟩
  have hsolid : ∀ {s : List Char}, (s.all fun c => !Text.isBlank c) = true →
      ∀ c ∈ s, Text.isBlank c = false := by
    intro s h
    simpa using h
  have hfirst : first.block.Spaced := by
    refine ⟨⟨⟨['A'], ['B'], rfl, by simp, by simp⟩, rfl, rfl, ?_, ?_, ?_⟩,
      by simp [first], by simp [first]⟩
    all_goals exact ⟨by decide, by decide, by decide, by decide,
      hsolid (by decide), by decide⟩
  have hsecond : second.block.Spaced := by
    refine ⟨⟨⟨['X'], [], rfl, by simp, by simp⟩, rfl, rfl, ?_, ?_, ?_⟩,
      by simp [second], by simp [second]⟩
    all_goals exact ⟨by decide, by decide, by decide, by decide,
      hsolid (by decide), by decide⟩
  have hgaps : Text.Inert first.gap ∧ Text.Inert second.gap :=
    ⟨⟨by decide, by simp [first]⟩, ⟨by decide, by simp [second]⟩⟩
  have hlast : '-' ∉ [' ', '\x7b'] := by decide
  have hprose : Segment.InProse [' ', '\x7b'] [first, second] :=
    ⟨hgaps.1, hfirst, Or.inl (by simp [first]), hgaps.2, hsecond,
      Or.inr (Or.inr ⟨⟨' ', rfl, rfl⟩, by simp [Segment.nextGap]⟩), hlast⟩
  have htext : String.ofList (Layout.text ⟨[first, second], [' ', '\x7b']⟩) =
      "Kurse für €: A-B\x7bBUY \x7dSELL ſell \x7bCAP cap CAP \x7d, X- \x7b " ++
        "buy 1 SELL -2 CAP 3\x7d \x7b" := by
    decide +kernel
  have hwritten :=
    scan_finds_written_statements [first, second] [' ', '\x7b'] hprose
  rw [htext] at hwritten
  rcases hwritten.2 [] first [second] rfl with
    ⟨s, hs, -, hstart, hstop, -, hbuy, hsell, hcap⟩
  rcases hwritten.2 [first] second [] rfl with
    ⟨t, ht, -, hstart', hstop', -, -, -, hcap'⟩
  refine ⟨hwritten.1, ⟨s, hs, ?_⟩, t, ht, ?_⟩
  · rw [hstart, hbuy, hsell, hcap, hstop]
    decide +kernel
  · rw [hstart', hcap', hstop']
    decide +kernel

end RateDesk
