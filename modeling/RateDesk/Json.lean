import RateDesk.Json.Quoted

/-!
# JSON values

Replies are JSON values, written either without any blank or spread over lines
with two blanks for each level of nesting.  Members keep their order, and
numbers are kept as the text they are written with.
-/

namespace RateDesk

/-- A JSON value. -/
inductive Json
  | text (value : String)
  /-- A number, as written. -/
  | number (literal : String)
  | list (items : List Json)
  /-- Named values in order. -/
  | object (members : List (String × Json))

namespace Json

/-! ## Without blanks -/

mutual

/-- The characters of a value without blanks. -/
def compact : Json → List Char
  | .text value => quoted value.toList
  | .number literal => literal.toList
  | .list items => '[' :: (compactItems items ++ [']'])
  | .object members => '{' :: (compactMembers members ++ ['}'])

/-- The items of a list, separated by commas. -/
def compactItems : List Json → List Char
  | [] => []
  | [item] => compact item
  | item :: next :: rest => compact item ++ ',' :: compactItems (next :: rest)

/-- The members of an object, separated by commas. -/
def compactMembers : List (String × Json) → List Char
  | [] => []
  | [(name, value)] => quoted name.toList ++ ':' :: compact value
  | (name, value) :: next :: rest =>
      quoted name.toList ++ ':' ::
        (compact value ++ ',' :: compactMembers (next :: rest))

end

/-- The text of a value without blanks. -/
def compactText (j : Json) : String :=
  String.ofList j.compact

/-! ## Spread over lines -/

/-- A line break and the blanks of the next line at the given depth. -/
def lineBreak (depth : Nat) : List Char :=
  '\n' :: List.replicate (2 * depth) ' '

mutual

/-- The characters of a value at the given depth, spread over lines.  Empty
lists and objects stay on one line. -/
def pretty (depth : Nat) : Json → List Char
  | .text value => quoted value.toList
  | .number literal => literal.toList
  | .list items =>
      if items.isEmpty then ['[', ']']
      else '[' :: (prettyItems (depth + 1) items ++ lineBreak depth ++ [']'])
  | .object members =>
      if members.isEmpty then ['{', '}']
      else '{' ::
        (prettyMembers (depth + 1) members ++ lineBreak depth ++ ['}'])

/-- The items of a list, each on lines of its own. -/
def prettyItems (depth : Nat) : List Json → List Char
  | [] => []
  | [item] => lineBreak depth ++ pretty depth item
  | item :: next :: rest =>
      lineBreak depth ++ pretty depth item ++ ',' ::
        prettyItems depth (next :: rest)

/-- The members of an object, each on lines of its own, with a blank behind the
colon. -/
def prettyMembers (depth : Nat) : List (String × Json) → List Char
  | [] => []
  | [(name, value)] =>
      lineBreak depth ++ quoted name.toList ++ ':' :: ' ' :: pretty depth value
  | (name, value) :: next :: rest =>
      lineBreak depth ++ quoted name.toList ++
        ':' :: ' ' ::
          (pretty depth value ++ ',' :: prettyMembers depth (next :: rest))

end

/-- The text of a value spread over lines. -/
def prettyText (j : Json) : String :=
  String.ofList (j.pretty 0)

end Json

end RateDesk
