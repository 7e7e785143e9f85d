import RateDesk.Block.Reader

/-!
# The layout of a text

A text is a sequence of blocks with gaps before, between and behind them.  Each
block is the first one that can be read from where the last one ended.

Main results:

- Theorem `Layout.text_read`: gaps and blocks, taken alternately, concatenate to
  the text.
-/

namespace RateDesk

/-- A block and the skipped text before it. -/
structure Segment where
  /-- The text before the block in which no block starts. -/
  gap : List Char
  block : Block
deriving DecidableEq, Repr

namespace Segment

/-- The text of a segment. -/
def text (g : Segment) : List Char :=
  g.gap ++ g.block.text

/-- The segment up to the end of the first block that can be read, and the text
behind it. -/
def first? : List Char → Option (Segment × List Char)
  | [] => none
  | c :: rest =>
      match Block.read? (c :: rest) with
      | some (block, tail) => some (⟨[], block⟩, tail)
      | none => (first? rest).map fun found =>
          (⟨c :: found.1.gap, found.1.block⟩, found.2)

/-- The first segment is a verbatim start of the text. -/
theorem first?_exact : Reader.Exact first? text := by
  intro s
  induction s with
  | nil => intro g tail hread; simp [first?] at hread
  | cons c rest ih =>
      intro g tail hread
      simp only [first?] at hread
      split at hread
      next block back hblock =>
        simp only [Option.some.injEq, Prod.mk.injEq] at hread
        obtain ⟨rfl, rfl⟩ := hread
        simpa [text] using Block.read?_exact hblock
      next =>
        obtain ⟨found, hfound, heq⟩ := Option.map_eq_some_iff.mp hread
        simp only [Prod.mk.injEq] at heq
        obtain ⟨rfl, rfl⟩ := heq
        have hrest := ih hfound
        simp only [text] at hrest
        simp [text, hrest]

/-- Taking off a segment leaves a shorter text. -/
theorem length_lt_of_first? {s tail : List Char} {g : Segment}
    (h : first? s = some (g, tail)) : tail.length < s.length := by
  have hs := first?_exact h
  have hpos := g.block.length_text_pos
  have hlength := congrArg List.length hs
  simp only [text, List.length_append] at hlength
  omega

end Segment

/-- A text cut into segments and the skipped text behind the last block. -/
structure Layout where
  /-- The blocks with the gaps before them. -/
  segments : List Segment
  /-- The text behind the last block. -/
  rest : List Char
deriving DecidableEq, Repr

namespace Layout

/-- The text of a layout. -/
def text (l : Layout) : List Char :=
  l.segments.flatMap Segment.text ++ l.rest

/-- Cut a text into segments. -/
def read (s : List Char) : Layout :=
  match _h : Segment.first? s with
  | none => ⟨[], s⟩
  | some (g, tail) =>
      let behind := read tail
      ⟨g :: behind.segments, behind.rest⟩
termination_by s.length
decreasing_by exact Segment.length_lt_of_first? (by assumption)

/-- A text in which no block can be read is one gap. -/
theorem read_of_none {s : List Char} (h : Segment.first? s = none) :
    read s = ⟨[], s⟩ := by
  rw [read]
  split
  next => rfl
  next g tail hsome => simp [h] at hsome

/-- The layout of a text starts with its first segment. -/
theorem read_of_some {s tail : List Char} {g : Segment}
    (h : Segment.first? s = some (g, tail)) :
    read s = ⟨g :: (read tail).segments, (read tail).rest⟩ := by
  rw [read]
  split
  next hnone => simp [h] at hnone
  next g' tail' hsome =>
    rw [h] at hsome
    simp only [Option.some.injEq, Prod.mk.injEq] at hsome
    obtain ⟨rfl, rfl⟩ := hsome
    rfl

/-- Gaps and blocks, taken alternately, concatenate to the text. -/
@[simp] theorem text_read (s : List Char) : (read s).text = s := by
  fun_induction read s with
  | case1 s h => simp [text]
  | case2 s g tail h behind ih =>
      have hs := Segment.first?_exact h
      simp only [text, behind] at ih ⊢
      rw [List.flatMap_cons, List.append_assoc, ih, ← hs]

end Layout

end RateDesk
