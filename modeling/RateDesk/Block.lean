import RateDesk.Text.Blank
import RateDesk.Text.CaseFold

/-!
# Statement blocks

A statement is written as a currency pair and three keyed values in braces:

```text
USD-GBP { BUY 1.20 SELL 1.25 CAP 1000 }
```

A block is such a statement with every character accounted for, blanks included,
so that `Block.text` gives back exactly what was written.  The predicate
`Block.WellFormed` says which blocks are statements; it is the grammar.

- The pair is a run of ASCII letters and digits, a dash, and another such run;
  either run may be empty.
- Each keyword is spelled in any letter case and followed by at least one blank.
- Each value is a nonempty run of characters that are not blank.  It may hold
  keywords and braces, and no blank is needed behind it.
-/

namespace RateDesk

/-- The keywords that introduce the values of a statement. -/
inductive Keyword
  | buy
  | sell
  /-- The largest amount traded at these prices. -/
  | cap
deriving DecidableEq, Repr

namespace Keyword

/-- The letters of a keyword, all capital. -/
def letters : Keyword → List Char
  | .buy => ['B', 'U', 'Y']
  | .sell => ['S', 'E', 'L', 'L']
  | .cap => ['C', 'A', 'P']

/-- The spelling of a keyword in capital letters. -/
def word (k : Keyword) : String :=
  String.ofList k.letters

end Keyword

/-- One keyed value of a statement and the blanks around it. -/
structure Clause where
  keyword : List Char
  /-- The blanks between keyword and value. -/
  gap : List Char
  value : List Char
  /-- The blanks behind the value. -/
  trail : List Char
deriving DecidableEq, Repr

namespace Clause

/-- The text of a clause. -/
def text (c : Clause) : List Char :=
  c.keyword ++ c.gap ++ c.value ++ c.trail

/-- A clause of the given keyword that follows the grammar. -/
structure WellFormed (k : Keyword) (c : Clause) : Prop where
  keyword : Text.sameLetters c.keyword k.letters = true
  gap_ne_nil : c.gap ≠ []
  gap_blank : Text.allBlank c.gap = true
  value_ne_nil : c.value ≠ []
  value_solid : ∀ x ∈ c.value, Text.isBlank x = false
  trail_blank : Text.allBlank c.trail = true

end Clause

/-- A statement with every character accounted for. -/
structure Block where
  pair : List Char
  /-- The blanks between the pair and the opening brace. -/
  lead : List Char
  /-- The blanks behind the opening brace. -/
  inner : List Char
  buy : Clause
  sell : Clause
  /-- The amount limit; its trailing blanks stand before the closing brace. -/
  cap : Clause
deriving DecidableEq, Repr

namespace Block

/-- The part of a block before its first clause. -/
def head (b : Block) : List Char :=
  b.pair ++ b.lead ++ '{' :: b.inner

/-- The text of a block. -/
def text (b : Block) : List Char :=
  b.head ++ b.buy.text ++ b.sell.text ++ b.cap.text ++ ['}']

/-- Whether a text is two runs of ASCII letters and digits joined by a dash. -/
def IsPair (s : List Char) : Prop :=
  ∃ source destination : List Char,
    s = source ++ '-' :: destination ∧
      (∀ c ∈ source, c.isAlphanum = true) ∧
      (∀ c ∈ destination, c.isAlphanum = true)

/-- A block that follows the grammar. -/
structure WellFormed (b : Block) : Prop where
  pair : IsPair b.pair
  lead_blank : Text.allBlank b.lead = true
  inner_blank : Text.allBlank b.inner = true
  buy : b.buy.WellFormed .buy
  sell : b.sell.WellFormed .sell
  cap : b.cap.WellFormed .cap

/-- A block has at least its closing brace. -/
theorem text_ne_nil (b : Block) : b.text ≠ [] := by
  simp [text]

/-- A block takes up at least one character. -/
theorem length_text_pos (b : Block) : 0 < b.text.length :=
  List.length_pos_iff.mpr b.text_ne_nil

end Block

end RateDesk
