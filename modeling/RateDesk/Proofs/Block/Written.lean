import RateDesk.Layout
import RateDesk.Proofs.Block.Grammar

/-!
# Written blocks are read back

No blank is needed between a value and what follows it, so a value could run on
into the next keyword or past the closing brace.  A text is sealed for a reader
if no such longer value lets the reader go on behind it.  Where all three values
of a block are sealed, the block is read back as it was written.

Main results:

- Theorem `Reader.sealed_clause`: a keyword whose value starts with another
  letter seals the value before it.
- Theorem `Block.read?_text`: a sealed block is read back.
- Theorem `Segment.first?_inert`: no block starts in text that holds no pair.
- Theorem `Layout.read_text`: a text of sealed blocks with blanks between them
  is read back.
-/

namespace RateDesk

namespace Reader

variable {α : Type}

/-- No nonempty run without blanks at the start of the text can be skipped so
that the reader succeeds behind it. -/
def Sealed (next : Reader α) (rest : List Char) : Prop :=
  ∀ extra back, extra ≠ [] → (∀ c ∈ extra, Text.isBlank c = false) →
    rest = extra ++ back → next back = none

/-- A run without blanks in front of a blank is empty. -/
theorem eq_nil_of_blank {extra back rest : List Char}
    (hsolid : ∀ c ∈ extra, Text.isBlank c = false)
    (hblank : ∀ c ∈ rest.head?, Text.isBlank c = true)
    (hrest : rest = extra ++ back) : extra = [] := by
  cases extra with
  | nil => rfl
  | cons c extra =>
      have hc := hblank c (by rw [hrest]; rfl)
      rw [hsolid c List.mem_cons_self] at hc
      exact absurd hc Bool.false_ne_true

/-- A text that starts with a blank, and the end of the text, are sealed. -/
theorem sealed_of_blank (next : Reader α) {rest : List Char}
    (hblank : ∀ c ∈ rest.head?, Text.isBlank c = true) : Sealed next rest := by
  intro extra back hne hsolid hrest
  exact absurd (eq_nil_of_blank hsolid hblank hrest) hne

/-- A text with blanks in front starts with a blank. -/
theorem head_blank_append {w : List Char} (hw : Text.allBlank w = true)
    (hne : w ≠ []) (rest : List Char) :
    ∀ c ∈ (w ++ rest).head?, Text.isBlank c = true := by
  cases w with
  | nil => exact absurd rfl hne
  | cons d w =>
      intro c hc
      have hd : d = c := by simpa using hc
      rw [← hd]
      exact List.all_eq_true.mp hw d List.mem_cons_self

/-- A value in front of a sealed text ends where it was written to end. -/
theorem value_append {next : Reader α} {v rest tail : List Char} {a : α}
    (hne : v ≠ []) (hsolid : ∀ c ∈ v, Text.isBlank c = false)
    (hsealed : Sealed next rest) (hnext : next rest = some (a, tail)) :
    value next (v ++ rest) = some ((v, a), tail) := by
  -- A longer value would go on into the sealed text.
  have hstop : value next rest = none := by
    cases hmore : value next rest with
    | none => rfl
    | some found =>
        rcases found with ⟨⟨extra, b⟩, back⟩
        rcases value_sound hmore with ⟨hextra, hextraSolid, more, hrest, hsome⟩
        rw [hsealed extra more hextra hextraSolid hrest] at hsome
        simp at hsome
  induction v with
  | nil => exact absurd rfl hne
  | cons c v ih =>
      rcases List.forall_mem_cons.mp hsolid with ⟨hc, hv⟩
      simp only [List.cons_append, value, hc, Bool.false_eq_true, if_false]
      by_cases hnil : v = []
      · subst hnil
        rw [List.nil_append, hstop, hnext]
        rfl
      · rw [ih hnil hv]

/-- A clause whose value is sealed is read back. -/
theorem clause_text {k : Keyword} {next : Reader α} {c : Clause}
    {rest tail : List Char} {a : α} (hc : c.WellFormed k)
    (hrest : Text.StartsSolid rest)
    (hsealed : Sealed (afterBlanks next) (c.trail ++ rest))
    (hnext : next rest = some (a, tail)) :
    clause k next (c.text ++ rest) = some ((c, a), tail) := by
  have hafter : afterBlanks next (c.trail ++ rest) =
      some ((c.trail, a), tail) := by
    rw [afterBlanks, Text.skipBlanks_append hc.trail_blank hrest, hnext,
      Text.blanks_append hc.trail_blank hrest]
    rfl
  have hvalue := value_append hc.value_ne_nil hc.value_solid hsealed hafter
  have hstart : Text.StartsSolid (c.value ++ (c.trail ++ rest)) :=
    (Text.startsSolid_of_solid hc.value_ne_nil hc.value_solid).append _
  have hclause :=
    clause_append k next hc.keyword hc.gap_ne_nil hc.gap_blank hstart
  rw [hvalue] at hclause
  simpa [Clause.text] using hclause

/-! ## What seals a value -/

/-- A clause does not start with a character other than the first letter of its
keyword. -/
theorem clause_eq_none {k : Keyword} (next : Reader α) {s : List Char}
    (h : ∀ c ∈ s.head?, ∀ d ∈ k.letters.head?,
      Text.foldLetter c ≠ Text.foldLetter d) :
    clause k next s = none := by
  have hkeyword : keyword k s = none := by
    cases s with
    | nil => cases k <;> rfl
    | cons c s =>
        have hletter := h c rfl
        cases k <;> simp [Keyword.letters, keyword, letters] at hletter ⊢ <;>
          simp [hletter]
  simp only [clause, hkeyword]

/-- No later letter of a keyword is the first one. -/
theorem foldLetter_ne_of_mem_tail (k : Keyword) :
    ∀ c ∈ k.letters.tail, ∀ d ∈ k.letters.head?,
      Text.foldLetter c ≠ Text.foldLetter d := by
  cases k <;> simp [Keyword.letters] <;> decide

/-- The letters of a keyword, however spelled, are not blank, and no later one
is the first one. -/
theorem spelled_letters {k : Keyword} {word extra rest : List Char} {x : Char}
    (hword : Text.sameLetters word k.letters = true) (hne : extra ≠ [])
    (hsplit : word = extra ++ x :: rest) :
    Text.isBlank x = false ∧
      ∀ d ∈ k.letters.head?, Text.foldLetter x ≠ Text.foldLetter d := by
  have hmap := Text.sameLetters_iff.mp hword
  have hmem : Text.foldLetter x ∈ k.letters.tail.map Text.foldLetter := by
    rw [List.map_tail, ← hmap, hsplit]
    cases extra with
    | nil => exact absurd rfl hne
    | cons c extra => simp
  rcases List.mem_map.mp hmem with ⟨letter, hletter, hfold⟩
  constructor
  · have hsolid : ∀ c ∈ k.letters.tail, Text.isBlank c = false := by
      cases k <;> simp [Keyword.letters] <;> decide
    rw [← Text.isBlank_foldLetter, ← hfold, Text.isBlank_foldLetter]
    exact hsolid letter hletter
  · intro d hd
    rw [← hfold]
    exact foldLetter_ne_of_mem_tail k letter hletter d hd

theorem afterBlanks_eq_none {next : Reader α} {s : List Char}
    (h : next (Text.skipBlanks s) = none) : afterBlanks next s = none := by
  rw [afterBlanks, h]
  rfl

/-- A clause seals the value before it, if its own value does not start like its
keyword. -/
theorem sealed_clause {k : Keyword} (next : Reader α) {c : Clause}
    (hc : c.WellFormed k) {w : List Char} (hw : Text.allBlank w = true)
    (hvalue : ∀ x ∈ c.value.head?, ∀ d ∈ k.letters.head?,
      Text.foldLetter x ≠ Text.foldLetter d) (rest : List Char) :
    Sealed (afterBlanks (clause k next)) (w ++ (c.text ++ rest)) := by
  by_cases hne : w = []
  · subst hne
    intro extra back hextra hsolid hsplit
    simp only [List.nil_append, Clause.text, List.append_assoc] at hsplit
    apply afterBlanks_eq_none
    -- The longer value swallows the whole keyword or a part of it.
    have hback : ∃ more, c.keyword = extra ++ more ∧
        back = more ++ (c.gap ++ (c.value ++ (c.trail ++ rest))) := by
      rcases List.append_eq_append_iff.mp hsplit with
        ⟨more, hlonger, hgap⟩ | ⟨more, hword, hback⟩
      · have hmore : ∀ x ∈ more, Text.isBlank x = false := by
          intro x hx
          exact hsolid x (by rw [hlonger]; exact List.mem_append_right _ hx)
        have hnil := eq_nil_of_blank hmore
          (head_blank_append hc.gap_blank hc.gap_ne_nil _) hgap
        subst hnil
        exact ⟨[], by simpa using hlonger.symm, by simpa using hgap.symm⟩
      · exact ⟨more, hword, hback⟩
    rcases hback with ⟨more, hword, rfl⟩
    apply clause_eq_none
    cases more with
    | nil =>
        have hstart : Text.StartsSolid (c.value ++ (c.trail ++ rest)) :=
          (Text.startsSolid_of_solid hc.value_ne_nil hc.value_solid).append _
        rw [List.nil_append, Text.skipBlanks_append hc.gap_blank hstart]
        intro x hx
        have hfirst : x ∈ c.value.head? := by
          cases hchars : c.value with
          | nil => exact absurd hchars hc.value_ne_nil
          | cons y chars =>
              rw [hchars] at hx
              exact hx
        exact hvalue x hfirst
    | cons x more =>
        rcases spelled_letters hc.keyword hextra hword with ⟨hx, hletter⟩
        rw [List.cons_append, Text.skipBlanks,
          List.dropWhile_cons_of_neg (by simp [hx])]
        intro y hy
        have hxy : x = y := by simpa using hy
        rw [← hxy]
        exact hletter
  · exact sealed_of_blank _ (head_blank_append hw hne _)

/-- A closing brace seals the limit before it, if a blank or nothing follows and
no other closing brace comes next. -/
theorem sealed_close {w after : List Char} (hw : Text.allBlank w = true)
    (hblank : ∀ c ∈ after.head?, Text.isBlank c = true)
    (hnext : ∀ c ∈ (Text.skipBlanks after).head?, c ≠ '}') :
    Sealed (afterBlanks close) (w ++ '}' :: after) := by
  by_cases hne : w = []
  · subst hne
    intro extra back hextra hsolid hsplit
    cases extra with
    | nil => exact absurd rfl hextra
    | cons c extra =>
        simp only [List.nil_append, List.cons_append, List.cons.injEq] at hsplit
        have hnil := eq_nil_of_blank
          (fun x hx => hsolid x (List.mem_cons_of_mem c hx)) hblank hsplit.2
        subst hnil
        rw [List.nil_append] at hsplit
        apply afterBlanks_eq_none
        rw [← hsplit.2]
        unfold close
        split
        next rest hrest => exact absurd rfl (hnext '}' (by rw [hrest]; rfl))
        next => rfl
  · exact sealed_of_blank _ (head_blank_append hw hne _)

end Reader

/-! ## Blocks -/

namespace Block

/-- No value of the block can be read longer than it is written, where the given
text follows the block. -/
structure Sealed (b : Block) (tail : List Char) : Prop where
  buy : Reader.Sealed
    (Reader.afterBlanks (Reader.clause .sell (Reader.clause .cap Reader.close)))
    (b.buy.trail ++ (b.sell.text ++ (b.cap.text ++ '}' :: tail)))
  sell : Reader.Sealed (Reader.afterBlanks (Reader.clause .cap Reader.close))
    (b.sell.trail ++ (b.cap.text ++ '}' :: tail))
  cap : Reader.Sealed (Reader.afterBlanks Reader.close)
    (b.cap.trail ++ '}' :: tail)

/-- A sealed block is read back. -/
theorem read?_text {b : Block} {tail : List Char} (h : b.WellFormed)
    (hsealed : b.Sealed tail) : read? (b.text ++ tail) = some (b, tail) := by
  have hcap : Reader.clause .cap Reader.close (b.cap.text ++ '}' :: tail) =
      some ((b.cap, ()), tail) :=
    Reader.clause_text h.cap ⟨'}', tail, rfl, by decide⟩ hsealed.cap rfl
  have hsell := Reader.clause_text h.sell
    ((Reader.startsSolid_clause h.cap).append _) hsealed.sell hcap
  have hbuy := Reader.clause_text h.buy
    ((Reader.startsSolid_clause h.sell).append _) hsealed.buy hsell
  have hbody : Reader.body (Reader.bodyText b.clauses ++ tail) =
      some (b.clauses, tail) := by
    simpa [Reader.body, Reader.bodyText, clauses] using hbuy
  rw [text_append,
    read?_append h.pair h.lead_blank h.inner_blank
      (startsSolid_bodyText h tail),
    hbody]
  rfl

/-- The pair of a block holds a dash, and only letters and digits stand before
it. -/
theorem WellFormed.exists_text {b : Block} (h : b.WellFormed) :
    ∃ source rest, b.text = source ++ '-' :: rest ∧
      ∀ c ∈ source, c.isAlphanum = true := by
  rcases h.pair with ⟨source, destination, hpair, hsource, -⟩
  refine ⟨source, destination ++ (b.lead ++ '{' :: (b.inner ++
    Reader.bodyText b.clauses)), ?_, hsource⟩
  have htext := text_append b []
  simpa [hpair] using htext

/-- No block starts in a text without a dash. -/
theorem read?_of_no_dash {s : List Char} (h : '-' ∉ s) : read? s = none := by
  rw [Option.eq_none_iff_forall_ne_some]
  intro found hread
  rcases (wellFormed_of_read? hread).exists_text with ⟨source, rest, htext, -⟩
  apply h
  rw [read?_exact hread, htext]
  simp

end Block

/-! ## Text between blocks -/

/-- Text that holds no pair and adds nothing to a pair behind it: it has no
dash, and its last character is no letter or digit. -/
structure Text.Inert (w : List Char) : Prop where
  no_dash : '-' ∉ w
  ends_apart : ∀ c ∈ w.getLast?, c.isAlphanum = false

theorem Text.inert_of_blank {w : List Char} (hw : Text.allBlank w = true) :
    Text.Inert w where
  no_dash := by
    intro hdash
    have hblank := List.all_eq_true.mp hw '-' hdash
    exact absurd hblank (by decide)
  ends_apart := by
    intro c hc
    apply Text.isAlphanum_of_isBlank
    exact List.all_eq_true.mp hw c (List.mem_of_getLast? hc)

theorem Text.Inert.tail {c : Char} {w : List Char} (h : Text.Inert (c :: w)) :
    Text.Inert w where
  no_dash := fun hdash => h.no_dash (List.mem_cons_of_mem c hdash)
  ends_apart := by
    intro d hd
    apply h.ends_apart
    rw [List.getLast?_cons, hd]
    rfl

/-- No block starts in an inert text, whatever follows it. -/
theorem Block.read?_of_inert {w : List Char} (h : Text.Inert w) (hne : w ≠ [])
    (s : List Char) : Block.read? (w ++ s) = none := by
  rw [Option.eq_none_iff_forall_ne_some]
  intro found hread
  rcases (Block.wellFormed_of_read? hread).exists_text with
    ⟨source, rest, htext, hsource⟩
  have hsplit : w ++ s = source ++ '-' :: (rest ++ found.2) := by
    rw [Block.read?_exact hread, htext]
    simp
  -- The last character of the text would stand before the dash of the pair.
  have hlast : w.getLast hne ∉ source := by
    intro hmem
    have hapart := h.ends_apart _ (List.getLast?_eq_some_getLast hne)
    rw [hsource _ hmem] at hapart
    exact Bool.false_ne_true hapart.symm
  rcases List.append_eq_append_iff.mp hsplit with
    ⟨more, hlonger, -⟩ | ⟨more, hshorter, hmore⟩
  · apply hlast
    rw [hlonger]
    exact List.mem_append_left more (List.getLast_mem hne)
  · cases more with
    | nil =>
        apply hlast
        rw [List.append_nil] at hshorter
        rw [← hshorter]
        exact List.getLast_mem hne
    | cons c more =>
        apply h.no_dash
        rw [hshorter, ← (List.cons.inj hmore).1]
        simp

namespace Segment

/-- Inert text before a block belongs to the gap. -/
theorem first?_inert {w : List Char} (h : Text.Inert w) (s : List Char) :
    first? (w ++ s) =
      (first? s).map fun found =>
        (⟨w ++ found.1.gap, found.1.block⟩, found.2) := by
  induction w with
  | nil => simp
  | cons c w ih =>
      have hnone := Block.read?_of_inert h (List.cons_ne_nil c w) s
      rw [List.cons_append] at hnone ⊢
      simp only [first?, hnone, ih h.tail, Option.map_map]
      rfl

/-- A block that is read at the start of a text is the first one. -/
theorem first?_block {b : Block} {tail : List Char}
    (hread : Block.read? (b.text ++ tail) = some (b, tail)) :
    first? (b.text ++ tail) = some (⟨[], b⟩, tail) := by
  have hne : b.text ++ tail ≠ [] :=
    List.append_ne_nil_of_left_ne_nil b.text_ne_nil tail
  cases htext : b.text ++ tail with
  | nil => exact absurd htext hne
  | cons c rest =>
      rw [htext] at hread
      simp only [first?, hread]

theorem first?_of_no_dash {w : List Char} (h : '-' ∉ w) : first? w = none := by
  induction w with
  | nil => rfl
  | cons c w ih =>
      have hrest : '-' ∉ w := fun hdash => h (List.mem_cons_of_mem c hdash)
      simp only [first?, Block.read?_of_no_dash h, ih hrest]
      rfl

end Segment

/-! ## Layouts -/

namespace Layout

/-- A text without a dash is one gap. -/
theorem read_of_no_dash {last : List Char} (h : '-' ∉ last) :
    read (text ⟨[], last⟩) = ⟨[], last⟩ := by
  have htext : text ⟨[], last⟩ = last := by simp [text]
  rw [htext]
  exact read_of_none (Segment.first?_of_no_dash h)

/-- Behind an inert gap a block is cut off, if it is read back in front of what
follows. -/
theorem read_cons {g : Segment} {rest : List Segment} {last : List Char}
    (hgap : Text.Inert g.gap)
    (hread : Block.read? (g.block.text ++ text ⟨rest, last⟩) =
      some (g.block, text ⟨rest, last⟩)) :
    read (text ⟨g :: rest, last⟩) =
      ⟨g :: (read (text ⟨rest, last⟩)).segments,
        (read (text ⟨rest, last⟩)).rest⟩ := by
  have htext : text ⟨g :: rest, last⟩ =
      g.gap ++ (g.block.text ++ text ⟨rest, last⟩) := by
    simp [text, Segment.text]
  have hfirst := Segment.first?_inert hgap (g.block.text ++ text ⟨rest, last⟩)
  rw [Segment.first?_block hread] at hfirst
  rw [htext, read_of_some hfirst]
  simp

end Layout

namespace Segment

/-- Only blanks stand before the blocks of the segments and in the text behind
them, and each block is sealed by what follows it. -/
def Sealed (last : List Char) : List Segment → Prop
  | [] => Text.allBlank last = true
  | g :: rest =>
      Text.allBlank g.gap = true ∧ g.block.WellFormed ∧
        g.block.Sealed (Layout.text ⟨rest, last⟩) ∧ Sealed last rest

end Segment

/-- A layout of sealed segments is read back. -/
theorem Layout.read_text {segments : List Segment} {last : List Char}
    (h : Segment.Sealed last segments) :
    Layout.read (Layout.text ⟨segments, last⟩) = ⟨segments, last⟩ := by
  induction segments with
  | nil => exact Layout.read_of_no_dash (Text.inert_of_blank h).no_dash
  | cons g rest ih =>
      rcases h with ⟨hgap, hblock, hsealed, hbehind⟩
      rw [Layout.read_cons (Text.inert_of_blank hgap)
        (Block.read?_text hblock hsealed),
        ih hbehind]

end RateDesk
