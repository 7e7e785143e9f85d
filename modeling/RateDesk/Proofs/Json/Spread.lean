import RateDesk.Text.Blank
import RateDesk.Proofs.Request.Quoted

/-!
# JSON texts up to layout

The text of a value without blanks and the one spread over lines differ by
blanks only, and only outside of quoted texts.  To tell where these are, a text
is cut into pieces: a quoted text is one piece, whatever stands in it, and every
other character is a piece of its own.

`Json.Spread` relates the two texts and the quoted texts that both of them have.
It is built up from left to right, as both writers proceed, and the pieces of a
text show what it relates.

Main results:

- Theorem `Json.flatMap_chars_of_lex`: the pieces of a text make up the text.
- Theorem `Json.Spread.withoutLayout_eq` and `Json.Spread.quotedTexts?_eq`: what
  is left of the wider text without its layout, and the quoted texts in it.
- Theorem `Json.spread_pretty`: both texts of a value.
-/

namespace RateDesk
namespace Json

/-! ## Pieces of a text -/

/-- A piece of a JSON text. -/
inductive Lexeme
  /-- What stands between the quotation marks of a quoted text, with its
  escapes. -/
  | literal (content : List Char)
  /-- A character outside of quoted texts. -/
  | single (c : Char)
deriving DecidableEq, Repr

namespace Lexeme

/-- The characters of a piece. -/
def chars : Lexeme → List Char
  | .literal content => '"' :: (content ++ ['"'])
  | .single c => [c]

/-- Whether a piece is a blank. -/
def isLayout : Lexeme → Bool
  | .literal _ => false
  | .single c => Text.isBlank c

/-- What stands between the quotation marks, if the piece has any. -/
def content? : Lexeme → Option (List Char)
  | .literal content => some content
  | .single _ => none

end Lexeme

/-- Cut a text into pieces.  The first argument is what was read of an open
quoted text; in it a backslash takes the next character along.  A quoted text
has to be closed. -/
def lex : Option (List Char) → List Char → Option (List Lexeme)
  | none, [] => some []
  | some _, [] => none
  | none, c :: rest =>
      if c = '"' then lex (some []) rest
      else (lex none rest).map (.single c :: ·)
  | some content, '"' :: rest => (lex none rest).map (.literal content :: ·)
  | some content, '\\' :: c :: rest => lex (some (content ++ ['\\', c])) rest
  | some content, c :: rest => lex (some (content ++ [c])) rest

/-- A text less the blanks outside of its quoted texts. -/
def withoutLayout (s : List Char) : Option (List Char) :=
  (lex none s).map fun pieces =>
    (pieces.filter fun piece => !piece.isLayout).flatMap Lexeme.chars

/-- The text that is written between quotation marks. -/
def unescape? (content : List Char) : Option String :=
  match Request.readQuoted (content ++ ['"']) with
  | .ok (found, []) => some (String.ofList found)
  | _ => none

/-- The quoted texts of a text in order, without their escapes. -/
def quotedTexts? (s : List Char) : Option (List String) := do
  let pieces ← lex none s
  (pieces.filterMap Lexeme.content?).mapM unescape?

/-- The pieces of a text make up the text. -/
theorem flatMap_chars_of_lex {content : Option (List Char)} {s : List Char}
    {pieces : List Lexeme} (h : lex content s = some pieces) :
    pieces.flatMap Lexeme.chars =
      (content.elim [] fun front => '"' :: front) ++ s := by
  fun_induction lex content s generalizing pieces with
  | case1 => simp_all
  | case2 => simp at h
  | case3 rest ih => simpa using ih h
  | case4 c rest hc ih =>
      obtain ⟨behind, hbehind, rfl⟩ := Option.map_eq_some_iff.mp h
      have hrest := ih hbehind
      simp_all [Lexeme.chars]
  | case5 content rest ih =>
      obtain ⟨behind, hbehind, rfl⟩ := Option.map_eq_some_iff.mp h
      have hrest := ih hbehind
      simp_all [Lexeme.chars]
  | case6 content c rest ih => simpa using ih h
  | case7 content c rest _ _ ih => simpa using ih h

/-! ## Quoted texts -/

theorem lex_single {c : Char} (hc : c ≠ '"') (rest : List Char) :
    lex none (c :: rest) = (lex none rest).map (.single c :: ·) := by
  rw [lex, if_neg hc]

/-- Any other character inside of a quoted text goes on with it. -/
theorem lex_inside {c : Char} (hquote : c ≠ '"') (hslash : c ≠ '\\')
    (content rest : List Char) :
    lex (some content) (c :: rest) = lex (some (content ++ [c])) rest := by
  rw [lex]
  · simpa using hquote
  · intro _ _ heq
    exact absurd heq hslash

/-- A hexadecimal digit is neither of the characters that are escaped. -/
theorem hexChar_ne {n : Nat} (h : n < 16) :
    hexChar n ≠ '"' ∧ hexChar n ≠ '\\' := by
  have hall : ∀ k : Fin 16, hexChar k.val ≠ '"' ∧ hexChar k.val ≠ '\\' := by
    decide
  exact hall ⟨n, h⟩

/-- A written character does not end the quoted text in which it stands. -/
theorem lex_escape (c : Char) (content rest : List Char) :
    lex (some content) (escape c ++ rest) =
      lex (some (content ++ escape c)) rest := by
  rcases escape_cases c with ⟨mark, -, -, hescape⟩ | ⟨hcontrol, hescape⟩ |
    ⟨hquote, hslash, -, hescape⟩
  · rw [hescape]
    rfl
  · -- The letter `u` goes with the backslash, and its digits are read like any
    -- other characters.
    have hhigh := hexChar_ne (n := c.toNat / 16) (by omega)
    have hlow := hexChar_ne (n := c.toNat % 16) (by omega)
    rw [hescape]
    simp only [List.cons_append, List.nil_append]
    rw [lex, lex_inside (by decide) (by decide),
      lex_inside (by decide) (by decide), lex_inside hhigh.1 hhigh.2,
      lex_inside hlow.1 hlow.2]
    simp only [List.append_assoc, List.cons_append, List.nil_append]
  · rw [hescape, List.singleton_append, lex_inside hquote hslash]

/-- Written characters are read up to the quotation mark that ends them. -/
theorem lex_flatMap_escape (s content rest : List Char) :
    lex (some content) (s.flatMap escape ++ '"' :: rest) =
      (lex none rest).map (.literal (content ++ s.flatMap escape) :: ·) := by
  induction s generalizing content with
  | nil => rw [List.flatMap_nil, List.nil_append, List.append_nil, lex]
  | cons c s ih =>
      rw [List.flatMap_cons, List.append_assoc, lex_escape, ih,
        List.append_assoc]

/-- A quoted text is one piece. -/
theorem lex_quoted (s rest : List Char) :
    lex none (quoted s ++ rest) =
      (lex none rest).map (.literal (s.flatMap escape) :: ·) := by
  rw [quoted, List.cons_append, List.append_assoc, List.singleton_append,
    lex, if_pos rfl, lex_flatMap_escape, List.nil_append]

/-- Escaping a text and reading it back gives the text. -/
theorem unescape?_flatMap_escape (s : String) :
    unescape? (s.toList.flatMap escape) = some s := by
  rw [unescape?, Request.readQuoted_flatMap_escape]
  simp

theorem mapM_unescape? (texts : List String) :
    (texts.map fun s => s.toList.flatMap escape).mapM unescape? =
      some texts := by
  induction texts with
  | nil => rfl
  | cons s texts ih =>
      rw [List.map_cons, List.mapM_cons, unescape?_flatMap_escape, ih]
      rfl

/-! ## Spread texts -/

/-- The first text is the second one with blanks between its pieces, and the
list has the quoted texts of both. -/
inductive Spread : List Char → List Char → List String → Prop
  | nil : Spread [] [] []
  | blank {c : Char} {wide narrow : List Char} {texts : List String}
      (hblank : Text.isBlank c = true) (rest : Spread wide narrow texts) :
      Spread (c :: wide) narrow texts
  | single {c : Char} {wide narrow : List Char} {texts : List String}
      (hquote : c ≠ '"') (hsolid : Text.isBlank c = false)
      (rest : Spread wide narrow texts) :
      Spread (c :: wide) (c :: narrow) texts
  | quoted {wide narrow : List Char} {texts : List String} (s : String)
      (rest : Spread wide narrow texts) :
      Spread (Json.quoted s.toList ++ wide) (Json.quoted s.toList ++ narrow)
        (s :: texts)

namespace Spread

variable {wide narrow wide' narrow' : List Char} {texts texts' : List String}

theorem append (h : Spread wide narrow texts)
    (h' : Spread wide' narrow' texts') :
    Spread (wide ++ wide') (narrow ++ narrow') (texts ++ texts') := by
  induction h with
  | nil => exact h'
  | blank hblank _ ih => exact ih.blank hblank
  | single hquote hsolid _ ih => exact ih.single hquote hsolid
  | quoted s _ ih =>
      rw [List.append_assoc, List.append_assoc]
      exact ih.quoted s

/-- The narrower text is spread out the least. -/
theorem narrow_self (h : Spread wide narrow texts) :
    Spread narrow narrow texts := by
  induction h with
  | nil => exact .nil
  | blank _ _ ih => exact ih
  | single hquote hsolid _ ih => exact ih.single hquote hsolid
  | quoted s _ ih => exact ih.quoted s

/-- Cut into pieces, the wider text shows the narrower one and the quoted
texts. -/
theorem lex_wide (h : Spread wide narrow texts) :
    ∃ pieces, lex none wide = some pieces ∧
      (pieces.filter fun piece => !piece.isLayout).flatMap Lexeme.chars =
        narrow ∧
      pieces.filterMap Lexeme.content? = texts.map fun s =>
        s.toList.flatMap escape := by
  induction h with
  | nil => exact ⟨[], rfl, rfl, rfl⟩
  | @blank c _ _ _ hblank _ ih =>
      rcases ih with ⟨pieces, hlex, hnarrow, htexts⟩
      have hquote : c ≠ '"' := by
        rintro rfl
        exact absurd hblank (by decide)
      refine ⟨.single c :: pieces,
        by rw [lex_single hquote, hlex]; rfl, ?_, htexts⟩
      rw [List.filter_cons_of_neg (by simp [Lexeme.isLayout, hblank]), hnarrow]
  | @single c _ _ _ hquote hsolid _ ih =>
      rcases ih with ⟨pieces, hlex, hnarrow, htexts⟩
      refine ⟨.single c :: pieces,
        by rw [lex_single hquote, hlex]; rfl, ?_, htexts⟩
      rw [List.filter_cons_of_pos (by simp [Lexeme.isLayout, hsolid]),
        List.flatMap_cons, hnarrow]
      rfl
  | quoted s _ ih =>
      rcases ih with ⟨pieces, hlex, hnarrow, htexts⟩
      refine ⟨.literal (s.toList.flatMap escape) :: pieces,
        by rw [lex_quoted, hlex]; rfl, ?_, ?_⟩
      · rw [List.filter_cons_of_pos rfl, List.flatMap_cons, hnarrow]
        rfl
      · rw [List.map_cons, ← htexts]
        rfl

/-- Without its layout the wider text is the narrower one. -/
theorem withoutLayout_eq (h : Spread wide narrow texts) :
    withoutLayout wide = some narrow := by
  rcases h.lex_wide with ⟨pieces, hlex, hnarrow, -⟩
  rw [withoutLayout, hlex, Option.map_some, hnarrow]

/-- Blanks, brackets and escaped quotation marks inside of quoted texts are no
layout. -/
example : withoutLayout "[ \" ] \\\" [\",\n  \"\\\\\" ]\n".toList =
    some "[\" ] \\\" [\",\"\\\\\"]".toList := by
  decide

/-- The quoted texts of a spread text are read from it. -/
theorem quotedTexts?_eq (h : Spread wide narrow texts) :
    quotedTexts? wide = some texts := by
  rcases h.lex_wide with ⟨pieces, hlex, -, htexts⟩
  rw [quotedTexts?, hlex, Option.bind_eq_bind, Option.bind_some, htexts,
    mapM_unescape?]

/-- Blanks are layout. -/
theorem of_blank {s : List Char} (h : ∀ c ∈ s, Text.isBlank c = true) :
    Spread s [] [] := by
  induction s with
  | nil => exact .nil
  | cons c s ih =>
      rcases List.forall_mem_cons.mp h with ⟨hc, hs⟩
      exact (ih hs).blank hc

/-- Characters that are neither blanks nor quotation marks stand in both
texts. -/
theorem of_plain {s : List Char}
    (h : ∀ c ∈ s, c ≠ '"' ∧ Text.isBlank c = false) : Spread s s [] := by
  induction s with
  | nil => exact .nil
  | cons c s ih =>
      rcases List.forall_mem_cons.mp h with ⟨hc, hs⟩
      exact (ih hs).single hc.1 hc.2

theorem of_quoted (s : String) :
    Spread (Json.quoted s.toList) (Json.quoted s.toList) [s] := by
  simpa using Spread.nil.quoted s

/-- A line break before a text is layout. -/
theorem onNewLine (h : Spread wide narrow texts) (depth : Nat) :
    Spread (lineBreak depth ++ wide) narrow texts := by
  have hbreak : Spread (lineBreak depth) [] [] := by
    apply of_blank
    intro c hc
    rw [lineBreak, List.mem_cons] at hc
    rcases hc with rfl | hc
    · decide
    · rw [List.eq_of_mem_replicate hc]
      decide
  exact hbreak.append h

/-- What stands between two marks, the second of them on a line of its own. -/
theorem enclosed {front back : Char} (h : Spread wide narrow texts)
    (depth : Nat) (hfront : front ≠ '"' ∧ Text.isBlank front = false)
    (hback : back ≠ '"' ∧ Text.isBlank back = false) :
    Spread (front :: (wide ++ lineBreak depth ++ [back]))
      (front :: (narrow ++ [back])) texts := by
  have hend : Spread (lineBreak depth ++ [back]) [back] [] :=
    (Spread.nil.single hback.1 hback.2).onNewLine depth
  have hinside := h.append hend
  rw [List.append_nil, ← List.append_assoc] at hinside
  exact hinside.single hfront.1 hfront.2

/-- A name on a line of its own, and behind it a colon and a blank. -/
theorem named (h : Spread wide narrow texts) (depth : Nat) (name : String) :
    Spread (lineBreak depth ++ Json.quoted name.toList ++ ':' :: ' ' :: wide)
      (Json.quoted name.toList ++ ':' :: narrow) (name :: texts) := by
  have hvalue : Spread (':' :: ' ' :: wide) (':' :: narrow) texts :=
    (h.blank (by decide)).single (by decide) (by decide)
  rw [List.append_assoc]
  exact (hvalue.quoted name).onNewLine depth

/-- Two texts with a comma between them. -/
theorem comma (h : Spread wide narrow texts)
    (h' : Spread wide' narrow' texts') :
    Spread (wide ++ ',' :: wide') (narrow ++ ',' :: narrow')
      (texts ++ texts') :=
  h.append (h'.single (by decide) (by decide))

end Spread

/-! ## Both texts of a value -/

/-- A name, a text or a number of a value. -/
inductive Leaf
  | text (value : String)
  | number (literal : String)
deriving DecidableEq, Repr

namespace Leaf

/-- The name or text, if it is one. -/
def text? : Leaf → Option String
  | .text value => some value
  | .number _ => none

/-- Numbers have neither blanks nor quotation marks. -/
def Plain : Leaf → Prop
  | .text _ => True
  | .number literal => ∀ c ∈ literal.toList, c ≠ '"' ∧ Text.isBlank c = false

@[simp] theorem plain_text (value : String) : (Leaf.text value).Plain := trivial

end Leaf

mutual

/-- The names, texts and numbers of a value in the order in which they are
written. -/
def leaves : Json → List Leaf
  | .text value => [.text value]
  | .number literal => [.number literal]
  | .list items => leavesOfItems items
  | .object members => leavesOfMembers members

/-- The names, texts and numbers of the items of a list. -/
def leavesOfItems : List Json → List Leaf
  | [] => []
  | item :: rest => leaves item ++ leavesOfItems rest

/-- The names, texts and numbers of the members of an object. -/
def leavesOfMembers : List (String × Json) → List Leaf
  | [] => []
  | (name, value) :: rest =>
      .text name :: (leaves value ++ leavesOfMembers rest)

end

mutual

/-- Spread over lines, a value has the same pieces and quoted texts as without
blanks. -/
theorem spread_pretty :
    ∀ (j : Json) (depth : Nat), (∀ leaf ∈ j.leaves, leaf.Plain) →
    Spread (j.pretty depth) j.compact (j.leaves.filterMap Leaf.text?)
  | .text value, _, _ => Spread.of_quoted value
  | .number literal, _, h =>
      Spread.of_plain (h (.number literal) (List.mem_singleton_self _))
  | .list [], _, _ =>
      (Spread.nil.single (by decide) (by decide)).single (by decide) (by decide)
  | .list (item :: rest), depth, h =>
      (spread_prettyItems (item :: rest) (depth + 1) h).enclosed depth
        (by decide) (by decide)
  | .object [], _, _ =>
      (Spread.nil.single (by decide) (by decide)).single (by decide) (by decide)
  | .object (member :: rest), depth, h =>
      (spread_prettyMembers (member :: rest) (depth + 1) h).enclosed depth
        (by decide) (by decide)

/-- The items of a list are spread over lines. -/
theorem spread_prettyItems : ∀ (items : List Json) (depth : Nat),
    (∀ leaf ∈ leavesOfItems items, leaf.Plain) →
    Spread (prettyItems depth items) (compactItems items)
      ((leavesOfItems items).filterMap Leaf.text?)
  | [], _, _ => .nil
  | [item], depth, h => by
      rw [leavesOfItems, leavesOfItems, List.append_nil] at h ⊢
      exact (spread_pretty item depth h).onNewLine depth
  | item :: next :: rest, depth, h => by
      rw [leavesOfItems, List.forall_mem_append] at h
      rw [leavesOfItems, List.filterMap_append]
      have hitem := (spread_pretty item depth h.1).onNewLine depth
      exact hitem.comma (spread_prettyItems (next :: rest) depth h.2)

/-- The members of an object are spread over lines. -/
theorem spread_prettyMembers : ∀ (members : List (String × Json)) (depth : Nat),
    (∀ leaf ∈ leavesOfMembers members, leaf.Plain) →
    Spread (prettyMembers depth members) (compactMembers members)
      ((leavesOfMembers members).filterMap Leaf.text?)
  | [], _, _ => .nil
  | [(name, value)], depth, h => by
      rw [leavesOfMembers, leavesOfMembers, List.append_nil] at h ⊢
      exact (spread_pretty value depth (List.forall_mem_cons.mp h).2).named
        depth name
  | (name, value) :: next :: rest, depth, h => by
      rw [leavesOfMembers, List.forall_mem_cons, List.forall_mem_append] at h
      rcases h with ⟨-, hvalue, hrest⟩
      have hmembers := (spread_pretty value depth hvalue).comma
        (spread_prettyMembers (next :: rest) depth hrest)
      rw [← List.filterMap_append] at hmembers
      exact hmembers.named depth name

end

end Json
end RateDesk
