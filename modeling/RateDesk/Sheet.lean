import RateDesk.Text.Offset

/-!
# Rate sheets

A submission arrives as one text in which line feeds may be written as a
backslash followed by `n`.  A sheet is that text with every such pair replaced
by a line feed, and it turns byte offsets into lines and columns.
-/

namespace RateDesk

/-- A place in a sheet: the line, counted from one, and the number of characters
before it on that line. -/
structure Position where
  /-- The line, counted from one. -/
  line : Nat
  /-- The characters before the place on its line. -/
  column : Nat
deriving DecidableEq, Repr

/-- The text of a submission after its escaped line feeds are resolved. -/
structure Sheet where
  chars : List Char
deriving DecidableEq, Repr

namespace Sheet

/-- Replace every backslash followed by `n` by a line feed, from left to
right. -/
def unescape : List Char → List Char
  | [] => []
  | '\\' :: 'n' :: rest => '\n' :: unescape rest
  | c :: rest => c :: unescape rest

/-- The sheet of a submitted text. -/
def ofRaw (raw : String) : Sheet :=
  ⟨unescape raw.toList⟩

/-- The text of a sheet. -/
def text (sheet : Sheet) : String :=
  String.ofList sheet.chars

/-- The offsets just behind the line feeds of a text that starts at the given
offset. -/
def startsAfterFeeds (offset : Nat) : List Char → List Nat
  | [] => []
  | c :: rest =>
      let next := offset + c.utf8Size
      if c = '\n' then next :: startsAfterFeeds next rest
      else startsAfterFeeds next rest

/-- The byte offsets at which the lines of a sheet start. -/
def lineStarts (sheet : Sheet) : List Nat :=
  0 :: startsAfterFeeds 0 sheet.chars

/-- The number of lines; the empty sheet has none. -/
def lineCount (sheet : Sheet) : Nat :=
  if sheet.chars.isEmpty then 0 else sheet.lineStarts.length

/-- The place of a byte offset: the last line that starts at or before it, and
the characters from there on.  Inside a character and past the end the column is
zero. -/
def position (sheet : Sheet) (offset : Nat) : Position :=
  let starts := sheet.lineStarts.takeWhile (· ≤ offset)
  let before := Text.slice? (starts.getLastD 0) offset sheet.chars
  ⟨starts.length, (before.map List.length).getD 0⟩

/-- A backslash followed by `n` becomes a line feed. -/
theorem unescape_escaped (rest : List Char) :
    unescape ('\\' :: 'n' :: rest) = '\n' :: unescape rest := rfl

/-- A character with which no escaped line feed starts is kept. -/
theorem unescape_cons {c : Char} {rest : List Char}
    (h : ¬(c = '\\' ∧ rest.head? = some 'n')) :
    unescape (c :: rest) = c :: unescape rest := by
  rw [unescape]
  intro back hc hrest
  apply h
  rw [hc, hrest]
  exact ⟨rfl, rfl⟩

end Sheet

end RateDesk
