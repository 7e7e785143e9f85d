import RateDesk.Text.Offset
import RateDesk.Layout

/-!
# Statements and their places

A statement is a block together with the byte offset at which it starts.  The
offsets of its fields follow from the sizes of the parts before them.
-/

namespace RateDesk

/-- A piece of text and the byte offset at which it starts. -/
structure Field where
  text : String
  /-- The byte offset of its first character. -/
  offset : Nat
deriving DecidableEq, Repr

/-- A block and the byte offset at which it starts. -/
structure Statement where
  start : Nat
  block : Block
deriving DecidableEq, Repr

namespace Statement

/-- The byte offset just behind the block. -/
def stop (s : Statement) : Nat :=
  s.start + Text.byteSize s.block.text

/-- The currency pair. -/
def pair (s : Statement) : Field :=
  ⟨String.ofList s.block.pair, s.start⟩

/-- The value of a clause that follows the given text of the block. -/
def valueAfter (s : Statement) (before : List Char) (c : Clause) : Field :=
  ⟨String.ofList c.value,
    s.start + Text.byteSize (before ++ c.keyword ++ c.gap)⟩

/-- The buying price. -/
def buy (s : Statement) : Field :=
  s.valueAfter s.block.head s.block.buy

/-- The selling price. -/
def sell (s : Statement) : Field :=
  s.valueAfter (s.block.head ++ s.block.buy.text) s.block.sell

/-- The amount limit. -/
def cap (s : Statement) : Field :=
  s.valueAfter (s.block.head ++ s.block.buy.text ++ s.block.sell.text)
    s.block.cap

/-- The same statement further right. -/
def shift (s : Statement) (distance : Nat) : Statement :=
  ⟨distance + s.start, s.block⟩

/-- Moving a statement keeps its block. -/
@[simp] theorem shift_block (s : Statement) (distance : Nat) :
    (s.shift distance).block = s.block := rfl

/-- A statement that is moved starts that much later. -/
@[simp] theorem shift_start (s : Statement) (distance : Nat) :
    (s.shift distance).start = distance + s.start := rfl

end Statement

namespace Segment

/-- The statements of segments that start at the given byte offset. -/
def statements (offset : Nat) : List Segment → List Statement
  | [] => []
  | g :: rest =>
      let statement : Statement := ⟨offset + Text.byteSize g.gap, g.block⟩
      statement :: statements statement.stop rest

/-- The gaps of segments that start at the given byte offset, each with its own
offset, and behind them the given last gap. -/
def gaps (last : List Char) (offset : Nat) :
    List Segment → List (Nat × List Char)
  | [] => [(offset, last)]
  | g :: rest =>
      (offset, g.gap) :: gaps last (offset + Text.byteSize g.text) rest

end Segment

namespace Layout

/-- The statements of a layout in text order. -/
def statements (l : Layout) : List Statement :=
  Segment.statements 0 l.segments

/-- The gaps of a layout in text order, with their byte offsets: one before each
block and one behind the last. -/
def gaps (l : Layout) : List (Nat × List Char) :=
  Segment.gaps l.rest 0 l.segments

end Layout

/-- The statements of a text, from left to right. -/
def scan (text : String) : List Statement :=
  (Layout.read text.toList).statements

end RateDesk
