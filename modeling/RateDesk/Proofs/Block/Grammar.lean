import RateDesk.Block.Reader
import RateDesk.Proofs.Text

/-!
# The block reader and the grammar

A text can start with several blocks, which differ in where their values end.
This module shows that `Block.read?` finds a block whenever the text starts with
one, and which of them it finds: the one with the longest buying value, among
those the one with the longest selling value, and among those the one with the
longest limit.

The argument goes through the readers one at a time.  `Reader.Maximal` says that
a reader decides a grammar and takes its most preferred value; each combinator
of `Block.read?` hands this property on.

Main results:

- Theorem `Reader.clause_maximal`: the step for one clause.
- Theorem `Block.read?_maximal`: the reader of blocks is maximal for
  `Block.WellFormed` under `Block.Below`.
-/

namespace RateDesk

namespace Reader

variable {α β : Type}

/-- A reader is maximal for a grammar of written values and a preference among
them. -/
structure Maximal (read : Reader α) (text : α → List Char) (Valid : α → Prop)
    (Below : α → α → Prop) : Prop where
  /-- What is taken off is the written form of the value. -/
  verbatim : Exact read text
  /-- What is taken off follows the grammar. -/
  sound : ∀ ⦃s : List Char⦄ ⦃a : α⦄ ⦃tail : List Char⦄,
    read s = some (a, tail) → Valid a
  /-- If the text starts with a value, some value that is at least as preferred
  is taken off. -/
  complete : ∀ ⦃a : α⦄ (tail : List Char), Valid a →
    ∃ b back, read (text a ++ tail) = some (b, back) ∧ Below a b
  /-- Equally preferred values at the start of a text are the same. -/
  rigid : ∀ ⦃a b : α⦄ ⦃tail back : List Char⦄, Valid a → Valid b →
    text a ++ tail = text b ++ back → Below a b → Below b a → a = b

/-- Prefer the larger first part, and among equally large ones follow the
preference on the second part. -/
def LexBelow (size : β → Nat) (Below : α → α → Prop) (x y : β × α) : Prop :=
  size x.1 < size y.1 ∨ (size x.1 = size y.1 ∧ Below x.2 y.2)

/-- Two pairs that are each at least as preferred as the other have first parts
of one size and equally preferred second parts. -/
theorem LexBelow.antisymm {size : β → Nat} {Below : α → α → Prop} {x y : β × α}
    (hxy : LexBelow size Below x y) (hyx : LexBelow size Below y x) :
    size x.1 = size y.1 ∧ Below x.2 y.2 ∧ Below y.2 x.2 := by
  rcases hxy with hlt | ⟨heq, hbelow⟩
  · rcases hyx with hgt | ⟨heq, -⟩ <;> omega
  · rcases hyx with hgt | ⟨-, habove⟩
    · omega
    · exact ⟨heq, hbelow, habove⟩

/-! ## Blanks and values -/

section

variable {next : Reader α} {text : α → List Char} {Valid : α → Prop}
  {Below : α → α → Prop}

/-- Leading blanks leave no choice, as what follows starts with no blank. -/
theorem afterBlanks_maximal (h : Maximal next text Valid Below)
    (hstart : ∀ a, Valid a → Text.StartsSolid (text a)) :
    Maximal (afterBlanks next) (fun x => x.1 ++ text x.2)
      (fun x => Text.allBlank x.1 = true ∧ Valid x.2)
      (fun x y => Below x.2 y.2) where
  verbatim := afterBlanks_exact h.verbatim
  sound := by
    intro s a tail hread
    rcases Option.map_eq_some_iff.mp hread with ⟨found, hfound, heq⟩
    simp only [Prod.mk.injEq] at heq
    rcases heq with ⟨rfl, rfl⟩
    exact ⟨Text.allBlank_blanks s, h.sound hfound⟩
  complete := by
    rintro ⟨w, a⟩ tail ⟨hw, ha⟩
    have hsolid : Text.StartsSolid (text a ++ tail) := (hstart a ha).append tail
    rcases h.complete tail ha with ⟨b, back, hread, hbelow⟩
    refine ⟨(w, b), back, ?_, hbelow⟩
    simp only [afterBlanks, List.append_assoc]
    rw [Text.blanks_append hw hsolid, Text.skipBlanks_append hw hsolid, hread]
    rfl
  rigid := by
    rintro ⟨w, a⟩ ⟨v, b⟩ tail back ⟨hw, ha⟩ ⟨hv, hb⟩ htext hab hba
    simp only [List.append_assoc] at htext
    rcases Text.blanks_append_inj hw hv ((hstart a ha).append tail)
      ((hstart b hb).append back) htext with ⟨hblanks, hrest⟩
    exact Prod.ext hblanks (h.rigid ha hb hrest hab hba)

/-- A value that is taken off is not empty and has no blank, and the next reader
succeeds behind it. -/
theorem value_sound {s v tail : List Char} {a : α}
    (hread : value next s = some ((v, a), tail)) :
    v ≠ [] ∧ (∀ c ∈ v, Text.isBlank c = false) ∧
      ∃ rest, s = v ++ rest ∧ next rest = some (a, tail) := by
  induction s generalizing v with
  | nil => simp [value] at hread
  | cons c rest ih =>
      simp only [value] at hread
      split at hread
      next => simp at hread
      next hc =>
        have hsolid : Text.isBlank c = false := by simpa using hc
        split at hread
        next run b back hrun =>
          simp only [Option.some.injEq, Prod.mk.injEq] at hread
          rcases hread with ⟨⟨rfl, rfl⟩, rfl⟩
          rcases ih hrun with ⟨-, hrunSolid, more, hmore, hnext⟩
          exact ⟨by simp, List.forall_mem_cons.mpr ⟨hsolid, hrunSolid⟩, more,
            by rw [hmore]; rfl, hnext⟩
        next =>
          rcases Option.map_eq_some_iff.mp hread with ⟨found, hfound, heq⟩
          simp only [Prod.mk.injEq] at heq
          rcases heq with ⟨⟨rfl, rfl⟩, rfl⟩
          exact ⟨by simp, by simpa using hsolid, rest, rfl, hfound⟩

/-- A value is found if there is one, and it is at least as long as that one. -/
theorem value_complete (h : Maximal next text Valid Below)
    {v : List Char} {a : α} (hne : v ≠ [])
    (hsolid : ∀ c ∈ v, Text.isBlank c = false) (ha : Valid a)
    (tail : List Char) :
    ∃ b back, value next (v ++ (text a ++ tail)) = some (b, back) ∧
      LexBelow List.length Below (v, a) b := by
  induction v with
  | nil => exact absurd rfl hne
  | cons c v ih =>
      rcases List.forall_mem_cons.mp hsolid with ⟨hc, hrest⟩
      simp only [List.cons_append, value, hc, Bool.false_eq_true, if_false]
      by_cases hv : v = []
      · subst hv
        cases hmore : value next ([] ++ (text a ++ tail)) with
        | some found =>
            -- The value can go on, so the one found is longer.
            rcases found with ⟨⟨run, b⟩, back⟩
            have hrun : run ≠ [] := (value_sound hmore).1
            refine ⟨(c :: run, b), back, rfl, Or.inl ?_⟩
            simpa using List.length_pos_iff.mpr hrun
        | none =>
            rcases h.complete tail ha with ⟨b, back, hread, hbelow⟩
            exact ⟨([c], b), back, by simp [hread], Or.inr ⟨rfl, hbelow⟩⟩
      · rcases ih hv hrest with ⟨⟨run, b⟩, back, hread, hbelow⟩
        refine ⟨(c :: run, b), back, by rw [hread], ?_⟩
        simpa [LexBelow] using hbelow

/-- If the reader of what follows is maximal, a value is the longest run behind
which that reader succeeds. -/
theorem value_maximal (h : Maximal next text Valid Below) :
    Maximal (value next) (fun x => x.1 ++ text x.2)
      (fun x => x.1 ≠ [] ∧ (∀ c ∈ x.1, Text.isBlank c = false) ∧ Valid x.2)
      (LexBelow List.length Below) where
  verbatim := value_exact h.verbatim
  sound := by
    rintro s ⟨v, a⟩ tail hread
    rcases value_sound hread with ⟨hne, hsolid, rest, -, hnext⟩
    exact ⟨hne, hsolid, h.sound hnext⟩
  complete := by
    rintro ⟨v, a⟩ tail ⟨hne, hsolid, ha⟩
    simp only [List.append_assoc]
    exact value_complete h hne hsolid ha tail
  rigid := by
    rintro ⟨v, a⟩ ⟨w, b⟩ tail back ⟨-, -, ha⟩ ⟨-, -, hb⟩ htext hab hba
    rcases hab.antisymm hba with ⟨hsize, hbelow, habove⟩
    simp only [List.append_assoc] at htext
    rcases List.append_inj htext hsize with ⟨hv, hrest⟩
    exact Prod.ext hv (h.rigid ha hb hrest hbelow habove)

end

/-! ## Clauses -/

/-- A word is taken off in any letter case. -/
theorem letters_append {word spelled : List Char}
    (h : Text.sameLetters spelled word = true)
    (rest : List Char) :
    letters word (spelled ++ rest) = some (spelled, rest) := by
  rw [Text.sameLetters_iff] at h
  induction word generalizing spelled with
  | nil =>
      have hnil : spelled = [] := by simpa using h
      subst hnil
      rfl
  | cons letter word ih =>
      cases spelled with
      | nil => simp at h
      | cons c spelled =>
          simp only [List.map_cons, List.cons.injEq] at h
          simp only [List.cons_append, letters, if_pos h.1]
          rw [ih h.2]
          rfl

/-- What is taken off for a word has the letters of the word. -/
theorem sameLetters_of_letters {word s spelled rest : List Char}
    (hread : letters word s = some (spelled, rest)) :
    Text.sameLetters spelled word = true := by
  induction word generalizing s spelled with
  | nil =>
      simp only [letters, Option.some.injEq, Prod.mk.injEq] at hread
      rw [← hread.1]
      rfl
  | cons letter word ih =>
      cases s with
      | nil => simp [letters] at hread
      | cons c s =>
          simp only [letters] at hread
          split at hread
          next hc =>
            rcases Option.map_eq_some_iff.mp hread with ⟨found, hfound, heq⟩
            simp only [Prod.mk.injEq] at heq
            rcases heq with ⟨rfl, rfl⟩
            have hrest := ih hfound
            simp only [Text.sameLetters, beq_iff_eq, List.map_cons] at hrest ⊢
            rw [hc, hrest]
          next => simp at hread

theorem startsSolid_letters (k : Keyword) : Text.StartsSolid k.letters := by
  cases k with
  | buy => exact ⟨'B', _, rfl, by decide⟩
  | sell => exact ⟨'S', _, rfl, by decide⟩
  | cap => exact ⟨'C', _, rfl, by decide⟩

theorem startsSolid_clause {k : Keyword} {c : Clause} (h : c.WellFormed k) :
    Text.StartsSolid c.text := by
  have hword :=
    Text.startsSolid_of_sameLetters h.keyword (startsSolid_letters k)
  simp only [Clause.text, List.append_assoc]
  exact hword.append _

section

variable {next : Reader α} {text : α → List Char} {Valid : α → Prop}
  {Below : α → α → Prop}

/-- Behind a keyword and its blanks a clause goes on with its value. -/
theorem clause_append (k : Keyword) (next : Reader α) {word gap r : List Char}
    (hword : Text.sameLetters word k.letters = true) (hne : gap ≠ [])
    (hgap : Text.allBlank gap = true) (hr : Text.StartsSolid r) :
    clause k next (word ++ (gap ++ r)) =
      (value (afterBlanks next) r).map fun found =>
        ((⟨word, gap, found.1.1, found.1.2.1⟩, found.1.2.2), found.2) := by
  simp only [clause, keyword, letters_append hword, Text.blanks_append hgap hr,
    Text.skipBlanks_append hgap hr]
  simp [hne]

/-- What is taken off as a clause is a keyword, blanks, a value and more
blanks. -/
theorem clause_sound {k : Keyword} {s tail : List Char} {c : Clause} {a : α}
    (hread : clause k next s = some ((c, a), tail)) :
    c.WellFormed k ∧ ∃ rest, next rest = some (a, tail) := by
  simp only [clause] at hread
  split at hread
  next => simp at hread
  next word rest hword =>
    split at hread
    next => simp at hread
    next hgap =>
      rcases Option.map_eq_some_iff.mp hread with
        ⟨⟨⟨v, trail, b⟩, back⟩, hfound, heq⟩
      simp only [Prod.mk.injEq] at heq
      rcases heq with ⟨⟨rfl, rfl⟩, rfl⟩
      rcases value_sound hfound with ⟨hne, hsolid, middle, -, hmiddle⟩
      rcases Option.map_eq_some_iff.mp hmiddle with ⟨found, hnext, htrail⟩
      simp only [Prod.mk.injEq] at htrail
      rcases htrail with ⟨⟨rfl, rfl⟩, rfl⟩
      refine ⟨?_, _, hnext⟩
      exact
        { keyword := sameLetters_of_letters hword
          gap_ne_nil := by simpa using hgap
          gap_blank := Text.allBlank_blanks rest
          value_ne_nil := hne
          value_solid := hsolid
          trail_blank := Text.allBlank_blanks middle }

/-- The reader of clauses prefers longer values. -/
theorem clause_maximal (k : Keyword) (h : Maximal next text Valid Below)
    (hstart : ∀ a, Valid a → Text.StartsSolid (text a)) :
    Maximal (clause k next) (fun x => x.1.text ++ text x.2)
      (fun x => x.1.WellFormed k ∧ Valid x.2)
      (LexBelow (fun c => c.value.length) Below) where
  verbatim := clause_exact k h.verbatim
  sound := by
    rintro s ⟨c, a⟩ tail hread
    rcases clause_sound hread with ⟨hc, rest, hnext⟩
    exact ⟨hc, h.sound hnext⟩
  complete := by
    rintro ⟨c, a⟩ tail ⟨hc, ha⟩
    have hvalue := value_maximal (afterBlanks_maximal h hstart)
    rcases hvalue.complete (a := (c.value, c.trail, a)) tail
        ⟨hc.value_ne_nil, hc.value_solid, hc.trail_blank, ha⟩ with
      ⟨⟨v, trail, b⟩, back, hread, hbelow⟩
    have hsolid :
        Text.StartsSolid (c.value ++ (c.trail ++ text a) ++ tail) := by
      rw [List.append_assoc]
      exact (Text.startsSolid_of_solid hc.value_ne_nil hc.value_solid).append _
    refine ⟨(⟨c.keyword, c.gap, v, trail⟩, b), back, ?_, hbelow⟩
    have hclause :=
      clause_append k next hc.keyword hc.gap_ne_nil hc.gap_blank hsolid
    rw [hread] at hclause
    simpa [Clause.text] using hclause
  rigid := by
    rintro ⟨c, a⟩ ⟨d, b⟩ tail back ⟨hc, ha⟩ ⟨hd, hb⟩ htext hab hba
    simp only [Clause.text, List.append_assoc] at htext
    have hlength : c.keyword.length = d.keyword.length := by
      rw [Text.length_eq_of_sameLetters hc.keyword,
        Text.length_eq_of_sameLetters hd.keyword]
    rcases List.append_inj htext hlength with ⟨hword, hrest⟩
    rcases Text.blanks_append_inj hc.gap_blank hd.gap_blank
      ((Text.startsSolid_of_solid hc.value_ne_nil hc.value_solid).append _)
      ((Text.startsSolid_of_solid hd.value_ne_nil hd.value_solid).append _)
      hrest with ⟨hgap, hrest⟩
    have hbody : c.value ++ (c.trail ++ text a) ++ tail =
        d.value ++ (d.trail ++ text b) ++ back := by simpa using hrest
    have hvalue := value_maximal (afterBlanks_maximal h hstart)
    have hsame : (c.value, c.trail, a) = (d.value, d.trail, b) :=
      hvalue.rigid ⟨hc.value_ne_nil, hc.value_solid, hc.trail_blank, ha⟩
        ⟨hd.value_ne_nil, hd.value_solid, hd.trail_blank, hb⟩ hbody hab hba
    simp only [Prod.mk.injEq] at hsame
    rcases hsame with ⟨hv, htrail, hsecond⟩
    have hfirst : c = d := by
      cases c
      cases d
      rw [Clause.mk.injEq]
      exact ⟨hword, hgap, hv, htrail⟩
    exact Prod.ext hfirst hsecond

end

theorem close_maximal :
    Maximal close (fun _ => ['}']) (fun _ => True) (fun _ _ => True) where
  verbatim := close_exact
  sound := fun _ _ _ _ => trivial
  complete := fun _ tail _ => ⟨(), tail, rfl, trivial⟩
  rigid := fun _ _ _ _ _ _ _ _ _ => rfl

/-- The text between the opening brace and the end of a block. -/
def bodyText (x : Clause × Clause × Clause × Unit) : List Char :=
  x.1.text ++ (x.2.1.text ++ (x.2.2.1.text ++ ['}']))

/-- The reader of the three clauses prefers a long buying value, then a long
selling value, then a long limit. -/
theorem body_maximal :
    Maximal body bodyText
      (fun x => x.1.WellFormed .buy ∧ x.2.1.WellFormed .sell ∧
        x.2.2.1.WellFormed .cap ∧ True)
      (LexBelow (fun c => c.value.length)
        (LexBelow (fun c => c.value.length)
          (LexBelow (fun c => c.value.length) fun _ _ => True))) := by
  have hcap := clause_maximal .cap close_maximal fun _ _ =>
    ⟨'}', [], rfl, by decide⟩
  have hsell := clause_maximal .sell hcap fun x hx =>
    (startsSolid_clause hx.1).append _
  exact clause_maximal .buy hsell fun x hx => (startsSolid_clause hx.1).append _

end Reader

namespace Block

/-- Prefer the block with the longer buying value, then the one with the longer
selling value, then the one with the longer limit. -/
def Below (a b : Block) : Prop :=
  a.buy.value.length < b.buy.value.length ∨
    (a.buy.value.length = b.buy.value.length ∧
      (a.sell.value.length < b.sell.value.length ∨
        (a.sell.value.length = b.sell.value.length ∧
          a.cap.value.length ≤ b.cap.value.length)))

/-- The three clauses of a block, nested as the reader takes them off. -/
def clauses (b : Block) : Clause × Clause × Clause × Unit :=
  (b.buy, b.sell, b.cap, ())

/-- One block is below another if its clauses are, the first clause counting
most. -/
theorem below_iff (a b : Block) :
    a.Below b ↔
      Reader.LexBelow (fun c => c.value.length)
        (Reader.LexBelow (fun c => c.value.length)
          (Reader.LexBelow (fun c => c.value.length) fun _ _ => True)) a.clauses
          b.clauses := by
  simp only [Below, Reader.LexBelow, clauses, and_true, Nat.le_iff_lt_or_eq]

/-! ## Pairs -/

/-- A pair in front of a character that is no letter or digit is taken off
whole. -/
theorem pair_append {p r : List Char} (hp : IsPair p)
    (hr : ∀ c ∈ r.head?, c.isAlphanum = false) :
    Reader.pair (p ++ r) = some (p, r) := by
  rcases hp with ⟨source, destination, rfl, hsource, hdestination⟩
  have hdash : Char.isAlphanum '-' = false := by decide
  have htake : r.takeWhile Char.isAlphanum = [] := by
    cases r with
    | nil => rfl
    | cons c r => simp [hr c (by simp)]
  have hdrop : r.dropWhile Char.isAlphanum = r := by
    cases r with
    | nil => rfl
    | cons c r => simp [hr c (by simp)]
  simp only [Reader.pair, List.append_assoc, List.cons_append,
    List.takeWhile_append_of_pos hsource, List.dropWhile_append_of_pos hsource,
    List.takeWhile_cons, List.dropWhile_cons, hdash,
    Bool.false_eq_true, if_false, List.takeWhile_append_of_pos hdestination,
    List.dropWhile_append_of_pos hdestination, htake, hdrop, List.append_nil]

/-- What is read as a pair is two runs of letters and digits with a dash between
them. -/
theorem isPair_of_pair {s p rest : List Char}
    (hread : Reader.pair s = some (p, rest)) : IsPair p := by
  simp only [Reader.pair] at hread
  split at hread
  next back hback =>
    simp only [Option.some.injEq, Prod.mk.injEq] at hread
    refine ⟨_, _, hread.1.symm, ?_, ?_⟩
    · intro c hc
      exact List.all_eq_true.mp List.all_takeWhile c hc
    · intro c hc
      exact List.all_eq_true.mp List.all_takeWhile c hc
  next => simp at hread

/-! ## Blocks -/

/-- Neither a blank nor an opening brace can continue a pair. -/
theorem head_not_isAlphanum {lead : List Char}
    (hlead : Text.allBlank lead = true) (rest : List Char) :
    ∀ c ∈ (lead ++ '{' :: rest).head?, c.isAlphanum = false := by
  intro c hc
  cases lead with
  | nil =>
      have hbrace : '{' = c := by simpa using hc
      rw [← hbrace]
      decide
  | cons d lead =>
      have hd : d = c := by simpa using hc
      rw [← hd]
      exact Text.isAlphanum_of_isBlank
        (List.all_eq_true.mp hlead d List.mem_cons_self)

/-- Behind the head of a block the reader goes on with the clauses. -/
theorem read?_append {pair lead inner r : List Char} (hpair : IsPair pair)
    (hlead : Text.allBlank lead = true) (hinner : Text.allBlank inner = true)
    (hr : Text.StartsSolid r) :
    read? (pair ++ (lead ++ '{' :: (inner ++ r))) =
      (Reader.body r).map fun found =>
        (⟨pair, lead, inner, found.1.1, found.1.2.1, found.1.2.2.1⟩,
          found.2) := by
  have hbrace : Text.StartsSolid ('{' :: (inner ++ r)) :=
    ⟨'{', _, rfl, by decide⟩
  simp only [read?, pair_append hpair (head_not_isAlphanum hlead _),
    Text.skipBlanks_append hlead hbrace, Text.blanks_append hlead hbrace,
    Text.skipBlanks_append hinner hr, Text.blanks_append hinner hr]

/-- A block that is read follows the grammar. -/
theorem wellFormed_of_read? {s tail : List Char} {b : Block}
    (hread : read? s = some (b, tail)) : b.WellFormed := by
  simp only [read?] at hread
  split at hread
  next => simp at hread
  next pair rest hpair =>
    split at hread
    next inside hinside =>
      rcases Option.map_eq_some_iff.mp hread with ⟨found, hfound, heq⟩
      simp only [Prod.mk.injEq] at heq
      rcases heq with ⟨rfl, rfl⟩
      rcases Reader.body_maximal.sound hfound with ⟨hbuy, hsell, hcap, -⟩
      exact
        { pair := isPair_of_pair hpair
          lead_blank := Text.allBlank_blanks rest
          inner_blank := Text.allBlank_blanks inside
          buy := hbuy
          sell := hsell
          cap := hcap }
    next => simp at hread

theorem text_append (b : Block) (tail : List Char) :
    b.text ++ tail =
      b.pair ++ (b.lead ++ '{' ::
        (b.inner ++ (Reader.bodyText b.clauses ++ tail))) := by
  simp [text, head, Reader.bodyText, clauses]

theorem startsSolid_bodyText {b : Block} (h : b.WellFormed) (tail : List Char) :
    Text.StartsSolid (Reader.bodyText b.clauses ++ tail) := by
  simp only [Reader.bodyText, clauses, List.append_assoc]
  exact (Reader.startsSolid_clause h.buy).append _

/-- Blocks at the start of a text have the same head. -/
theorem head_inj {a b : Block} {tail back : List Char} (ha : a.WellFormed)
    (hb : b.WellFormed) (htext : a.text ++ tail = b.text ++ back) :
    a.pair = b.pair ∧ a.lead = b.lead ∧ a.inner = b.inner ∧
      Reader.bodyText a.clauses ++ tail =
        Reader.bodyText b.clauses ++ back := by
  rw [text_append, text_append] at htext
  have hread := pair_append ha.pair (head_not_isAlphanum ha.lead_blank
    (a.inner ++ (Reader.bodyText a.clauses ++ tail)))
  rw [htext, pair_append hb.pair (head_not_isAlphanum hb.lead_blank _)] at hread
  simp only [Option.some.injEq, Prod.mk.injEq] at hread
  rcases hread with ⟨hpair, hrest⟩
  rcases Text.blanks_append_inj hb.lead_blank ha.lead_blank
    ⟨'{', _, rfl, by decide⟩ ⟨'{', _, rfl, by decide⟩ hrest with ⟨hlead, hrest⟩
  simp only [List.cons.injEq, true_and] at hrest
  rcases Text.blanks_append_inj hb.inner_blank ha.inner_blank
    (startsSolid_bodyText hb back) (startsSolid_bodyText ha tail) hrest with
    ⟨hinner, hrest⟩
  exact ⟨hpair.symm, hlead.symm, hinner.symm, hrest.symm⟩

/-- The reader of blocks finds a block whenever the text starts with one, and it
finds the most preferred one. -/
theorem read?_maximal : Reader.Maximal read? text WellFormed Below where
  verbatim := read?_exact
  sound := fun _ _ _ hread => wellFormed_of_read? hread
  complete := by
    intro b tail h
    rcases Reader.body_maximal.complete (a := b.clauses) tail
        ⟨h.buy, h.sell, h.cap, trivial⟩ with
      ⟨found, back, hread, hbelow⟩
    have hblock := read?_append h.pair h.lead_blank h.inner_blank
      (startsSolid_bodyText h tail)
    rw [← text_append, hread] at hblock
    exact ⟨_, back, hblock, (below_iff b _).mpr hbelow⟩
  rigid := by
    intro a b tail back ha hb htext hab hba
    rcases head_inj ha hb htext with ⟨hpair, hlead, hinner, hbody⟩
    have hclauses : a.clauses = b.clauses :=
      Reader.body_maximal.rigid ⟨ha.buy, ha.sell, ha.cap, trivial⟩
        ⟨hb.buy, hb.sell, hb.cap, trivial⟩ hbody ((below_iff a b).mp hab)
          ((below_iff b a).mp hba)
    simp only [clauses, Prod.mk.injEq, and_true] at hclauses
    rcases hclauses with ⟨hbuy, hsell, hcap⟩
    cases a
    cases b
    rw [Block.mk.injEq]
    exact ⟨hpair, hlead, hinner, hbuy, hsell, hcap⟩

end Block

end RateDesk
