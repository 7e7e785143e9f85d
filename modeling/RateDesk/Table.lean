/-!
# Tables

A table is written line by line.  The texts of a line are separated by commas,
and the line ends with a line feed; a text that would not be read back as one
text is put in quotation marks.  The names of the columns stand before the first
row.

Main results:

- Theorem `Table.cell_of_unmarked`: a text without marks is written as it is.
-/

namespace RateDesk
namespace Table

/-- Whether a character has a meaning of its own in a table. -/
def isMark (c : Char) : Bool :=
  c == ',' || c == '"' || c == '\n' || c == '\r'

/-- A text in quotation marks; those in the text are doubled. -/
def quoted (s : List Char) : List Char :=
  '"' :: (s.flatMap (fun c => if c = '"' then ['"', '"'] else [c]) ++ ['"'])

/-- A text as it stands in a table, in quotation marks only if it has a mark. -/
def cell (text : String) : String :=
  if text.toList.any isMark then String.ofList (quoted text.toList) else text

/-- A line of a table. -/
def line (texts : List String) : String :=
  String.intercalate "," (texts.map cell) ++ "\n"

/-- A table that is being written. -/
structure Writer where
  text : String
  /-- Whether the names of the columns stand there. -/
  headed : Bool
deriving DecidableEq, Repr

namespace Writer

/-- Nothing is written yet. -/
def empty : Writer := ⟨"", false⟩

/-- Write a line. -/
def record (w : Writer) (texts : List String) : Writer :=
  ⟨w.text ++ line texts, true⟩

/-- Write a row, and the names of the columns before the first one. -/
def row (w : Writer) (columns texts : List String) : Writer :=
  (if w.headed then w else w.record columns).record texts

end Writer

/-- A text without marks is written as it is. -/
theorem cell_of_unmarked {text : String}
    (h : ∀ c ∈ text.toList, isMark c = false) : cell text = text := by
  have hnone : text.toList.any isMark = false := by simpa using h
  simp [cell, hnone]

end Table
end RateDesk
