import RateDesk.Block

/-!
# Reading a block at the start of a text

Values may hold keywords and braces, and no blank is needed behind a value, so a
text can be cut into clauses in several ways.  A reader therefore gets the
reader of what follows as an argument: a value is the longest one behind which
that reader still succeeds.  As the clauses are nested in this way, the longest
buying value wins first, then the longest selling value, then the longest limit.

Main results:

- Theorem `Block.read?_exact`: a block that is read is a verbatim start of the
  text.
-/

namespace RateDesk

/-- A reader takes a value off the start of a text and returns what remains. -/
abbrev Reader (α : Type) := List Char → Option (α × List Char)

namespace Reader

variable {α : Type}

/-- A reader is exact if the text it takes off is the written form of the
value. -/
def Exact (read : Reader α) (text : α → List Char) : Prop :=
  ∀ ⦃s : List Char⦄ ⦃a : α⦄ ⦃tail : List Char⦄, read s = some (a, tail) →
    s = text a ++ tail

/-- Take off leading blanks before reading on. -/
def afterBlanks (next : Reader α) : Reader (List Char × α) := fun s =>
  (next (Text.skipBlanks s)).map fun found =>
    ((Text.blanks s, found.1), found.2)

/-- Take off the longest nonempty run of characters that are not blank behind
which the next reader succeeds. -/
def value (next : Reader α) : Reader (List Char × α)
  | [] => none
  | c :: rest =>
      if Text.isBlank c then none
      else
        match value next rest with
        | some ((run, a), tail) => some ((c :: run, a), tail)
        | none => (next rest).map fun found => (([c], found.1), found.2)

/-- Take off the given letters in any letter case. -/
def letters : List Char → Reader (List Char)
  | [], s => some ([], s)
  | _ :: _, [] => none
  | letter :: word, c :: rest =>
      if Text.foldLetter c = Text.foldLetter letter then
        (letters word rest).map fun found => (c :: found.1, found.2)
      else none

/-- Take off a keyword in any letter case. -/
def keyword (k : Keyword) : Reader (List Char) :=
  letters k.letters

/-- Take off a clause and what the next reader finds behind it. -/
def clause (k : Keyword) (next : Reader α) : Reader (Clause × α) := fun s =>
  match keyword k s with
  | none => none
  | some (word, rest) =>
      if (Text.blanks rest).isEmpty then none
      else
        (value (afterBlanks next) (Text.skipBlanks rest)).map fun found =>
          ((⟨word, Text.blanks rest, found.1.1, found.1.2.1⟩, found.1.2.2),
            found.2)

/-- Take off the closing brace. -/
def close : Reader Unit
  | '}' :: rest => some ((), rest)
  | _ => none

/-- Take off the three clauses and the closing brace. -/
def body : Reader (Clause × Clause × Clause × Unit) :=
  clause .buy (clause .sell (clause .cap close))

/-- Take off two runs of ASCII letters and digits joined by a dash, each run as
long as possible. -/
def pair : Reader (List Char) := fun s =>
  let source := s.takeWhile Char.isAlphanum
  match s.dropWhile Char.isAlphanum with
  | '-' :: rest =>
      some (source ++ '-' :: rest.takeWhile Char.isAlphanum,
        rest.dropWhile Char.isAlphanum)
  | _ => none

/-! ## Nothing is lost -/

/-- Blanks and what follows them make up the text. -/
theorem afterBlanks_exact {next : Reader α} {text : α → List Char}
    (h : Exact next text) :
    Exact (afterBlanks next) fun found => found.1 ++ text found.2 := by
  intro s a tail hread
  obtain ⟨found, hfound, heq⟩ := Option.map_eq_some_iff.mp hread
  simp only [Prod.mk.injEq] at heq
  obtain ⟨rfl, rfl⟩ := heq
  have hnext := h hfound
  rw [List.append_assoc, ← hnext]
  exact (Text.blanks_append_skipBlanks s).symm

/-- A value and what follows it make up the text. -/
theorem value_exact {next : Reader α} {text : α → List Char}
    (h : Exact next text) :
    Exact (value next) fun found => found.1 ++ text found.2 := by
  intro s
  induction s with
  | nil => intro a tail hread; simp [value] at hread
  | cons c rest ih =>
      intro a tail hread
      simp only [value] at hread
      split at hread
      next => simp at hread
      next =>
        split at hread
        next run found back hvalue =>
          simp only [Option.some.injEq, Prod.mk.injEq] at hread
          obtain ⟨rfl, rfl⟩ := hread
          have hrest := ih hvalue
          simp [hrest]
        next =>
          obtain ⟨found, hfound, heq⟩ := Option.map_eq_some_iff.mp hread
          simp only [Prod.mk.injEq] at heq
          obtain ⟨rfl, rfl⟩ := heq
          have hrest := h hfound
          simp [← hrest]

/-- Letters that are taken off are a verbatim start of the text. -/
theorem letters_exact (word : List Char) : Exact (letters word) id := by
  induction word with
  | nil =>
      intro s a tail hread
      simp only [letters, Option.some.injEq, Prod.mk.injEq] at hread
      obtain ⟨rfl, rfl⟩ := hread
      rfl
  | cons letter word ih =>
      intro s a tail hread
      cases s with
      | nil => simp [letters] at hread
      | cons c rest =>
          simp only [letters] at hread
          split at hread
          next =>
            obtain ⟨found, hfound, heq⟩ := Option.map_eq_some_iff.mp hread
            simp only [Prod.mk.injEq] at heq
            obtain ⟨rfl, rfl⟩ := heq
            have hrest := ih hfound
            simp only [id_eq] at hrest
            simp [← hrest]
          next => simp at hread

/-- A keyword is a verbatim start of the text. -/
theorem keyword_exact (k : Keyword) : Exact (keyword k) id :=
  letters_exact k.letters

/-- A clause and what follows it make up the text. -/
theorem clause_exact (k : Keyword) {next : Reader α} {text : α → List Char}
    (h : Exact next text) :
    Exact (clause k next) fun found => found.1.text ++ text found.2 := by
  intro s a tail hread
  simp only [clause] at hread
  split at hread
  next => simp at hread
  next word rest hword =>
    split at hread
    next => simp at hread
    next =>
      obtain ⟨found, hfound, heq⟩ := Option.map_eq_some_iff.mp hread
      simp only [Prod.mk.injEq] at heq
      obtain ⟨rfl, rfl⟩ := heq
      have hrest := value_exact (afterBlanks_exact h) hfound
      have hs := keyword_exact k hword
      have hsplit : rest = Text.blanks rest ++ Text.skipBlanks rest :=
        (Text.blanks_append_skipBlanks rest).symm
      rw [hs]
      conv => lhs; rw [hsplit, hrest]
      simp [Clause.text]

/-- The closing brace is a verbatim start of the text. -/
theorem close_exact : Exact close fun _ => ['}'] := by
  intro s a tail hread
  unfold close at hread
  split at hread
  next rest =>
    simp only [Option.some.injEq, Prod.mk.injEq, true_and] at hread
    simp [hread]
  next => simp at hread

/-- The clauses and the closing brace are a verbatim start of the text. -/
theorem body_exact :
    Exact body fun found =>
      found.1.text ++ (found.2.1.text ++ (found.2.2.1.text ++ ['}'])) :=
  clause_exact .buy (clause_exact .sell (clause_exact .cap close_exact))

/-- A pair is a verbatim start of the text. -/
theorem pair_exact : Exact pair id := by
  intro s a tail hread
  simp only [pair] at hread
  split at hread
  next rest hrest =>
    simp only [Option.some.injEq, Prod.mk.injEq] at hread
    obtain ⟨rfl, rfl⟩ := hread
    have hs := @List.takeWhile_append_dropWhile _ Char.isAlphanum s
    rw [hrest] at hs
    simp [hs]
  next => simp at hread

end Reader

namespace Block

/-- Take a block off the start of a text. -/
def read? : Reader Block := fun s =>
  match Reader.pair s with
  | none => none
  | some (pair, rest) =>
      match Text.skipBlanks rest with
      | '{' :: inside =>
          (Reader.body (Text.skipBlanks inside)).map fun found =>
            (⟨pair, Text.blanks rest, Text.blanks inside,
              found.1.1, found.1.2.1, found.1.2.2.1⟩, found.2)
      | _ => none

/-- A block that is read is a verbatim start of the text. -/
theorem read?_exact : Reader.Exact read? text := by
  intro s b tail hread
  simp only [read?] at hread
  split at hread
  next => simp at hread
  next pair rest hpair =>
    split at hread
    next inside hinside =>
      obtain ⟨found, hfound, heq⟩ := Option.map_eq_some_iff.mp hread
      simp only [Prod.mk.injEq] at heq
      obtain ⟨rfl, rfl⟩ := heq
      have hbody := Reader.body_exact hfound
      have hs := Reader.pair_exact hpair
      have hrest : rest = Text.blanks rest ++ '{' :: inside := by
        rw [← hinside]
        exact (Text.blanks_append_skipBlanks rest).symm
      have hinner : inside = Text.blanks inside ++ Text.skipBlanks inside :=
        (Text.blanks_append_skipBlanks inside).symm
      simp only [id_eq] at hs
      rw [hs]
      conv => lhs; rw [hrest]
      conv => lhs; rw [hinner]
      rw [hbody]
      simp [text, head]
    next => simp at hread

end Block

end RateDesk
