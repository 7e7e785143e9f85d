import RateDesk.Review
import RateDesk.Proofs.Block.Written
import RateDesk.Proofs.FieldValue.ReadBack
import RateDesk.Proofs.Sheet.Escapes

/-!
# Accepted submissions

Quotes can be written in many ways: the keywords in any letter case, any blanks
behind a keyword, and blanks or nothing between other parts.  However a list of
quotes is written, the submission is accepted and gives back these quotes.

The proof has two halves.  The values of a written quote start with a digit, so
they seal each other and the text is cut as it was put together.  The values
themselves are read back by `FieldValue.pair_text`, `FieldValue.price_text` and
`FieldValue.cap_natText`.

Main results:

- Theorem `Quote.sealed_write`: written quotes with blanks between them are
  sealed.
- Theorem `Review.book_written`: written quotes are accepted as they are.
-/

namespace RateDesk

/-! ## Written quotes -/

/-- The terms that can be kept: both prices in range, and a positive limit below
its bound. -/
structure Quote.InRange (q : Quote) : Prop where
  buy : q.buy.InRange
  sell : q.sell.InRange
  cap_pos : 0 < q.cap
  cap_lt : q.cap < capBound

/-- How a clause is written, apart from its value. -/
structure ClauseForm (k : Keyword) where
  keyword : List Char
  gap : List Char
  trail : List Char
  keyword_spelled : Text.sameLetters keyword k.letters = true
  gap_ne_nil : gap ≠ []
  gap_blank : Text.allBlank gap = true
  trail_blank : Text.allBlank trail = true

/-- How a statement is written, apart from its fields. -/
structure StatementForm where
  gap : List Char
  lead : List Char
  inner : List Char
  buy : ClauseForm .buy
  sell : ClauseForm .sell
  cap : ClauseForm .cap
  gap_blank : Text.allBlank gap = true
  lead_blank : Text.allBlank lead = true
  inner_blank : Text.allBlank inner = true

/-- The clause with the given value. -/
def ClauseForm.write {k : Keyword} (form : ClauseForm k)
    (value : List Char) : Clause :=
  ⟨form.keyword, form.gap, value, form.trail⟩

/-- The statement of a quote and the blanks before it. -/
def Quote.write (q : Quote) (form : StatementForm) : Segment where
  gap := form.gap
  block :=
    { pair := q.pair.chars
      lead := form.lead
      inner := form.inner
      buy := form.buy.write q.buy.chars
      sell := form.sell.write q.sell.chars
      cap := form.cap.write (Digits.chars (Digits.ofNat q.cap)) }

/-- Quotes written one behind the other, and a text behind the last one. -/
def Layout.write (written : List (Quote × StatementForm))
    (last : List Char) : Layout :=
  ⟨written.map fun x => x.1.write x.2, last⟩

/-! ## The characters of a written quote -/

/-- A numeral is an optional sign and digits, with at most one point among
them. -/
def IsNumeral (value : List Char) : Prop :=
  ∃ sign whole fraction, Literal.IsSign sign ∧ whole ≠ [] ∧
    value = sign ++ Literal.plain whole fraction

/-- The digits of a price are a numeral. -/
theorem Decimal.isNumeral_chars (d : Decimal) : IsNumeral d.chars := by
  rcases d.exists_plain with ⟨whole, fraction, hwhole, hchars, -⟩
  exact ⟨[], whole, fraction, Or.inl rfl, hwhole, hchars⟩

/-- The digits of a natural number are a numeral. -/
theorem Digits.isNumeral_ofNat (n : Nat) :
    IsNumeral (Digits.chars (Digits.ofNat n)) :=
  ⟨[], Digits.ofNat n, [], Or.inl rfl, Digits.ofNat_ne_nil n, rfl⟩

namespace IsNumeral

variable {value : List Char}

/-- A numeral starts with a sign or a digit, and all its other characters are
digits or a point. -/
theorem eq_cons (h : IsNumeral value) :
    ∃ c rest, value = c :: rest ∧ (c = '+' ∨ c = '-' ∨ ∃ d, c = Digit.char d) ∧
      ∀ c ∈ rest, c = '.' ∨ ∃ d, c = Digit.char d := by
  rcases h with ⟨sign, whole, fraction, hsign, hwhole, rfl⟩
  rcases Literal.plain_eq_cons hwhole fraction with ⟨d, rest, hplain, hrest⟩
  have hdigits : ∀ c ∈ Digit.char d :: rest, c = '.' ∨ ∃ d, c = Digit.char d :=
    List.forall_mem_cons.mpr ⟨Or.inr ⟨d, rfl⟩, hrest⟩
  rw [hplain]
  rcases hsign with rfl | rfl | rfl
  · exact ⟨_, rest, rfl, Or.inr (Or.inr ⟨d, rfl⟩), hrest⟩
  · exact ⟨_, _, rfl, Or.inl rfl, hdigits⟩
  · exact ⟨_, _, rfl, Or.inr (Or.inl rfl), hdigits⟩

/-- What holds of every digit, of the point and of the signs holds of every
character of a numeral. -/
theorem forall_mem (h : IsNumeral value) {p : Char → Prop} (hplus : p '+')
    (hminus : p '-') (hpoint : p '.') (hdigit : ∀ d, p (Digit.char d)) :
    ∀ c ∈ value, p c := by
  rcases h.eq_cons with ⟨first, rest, rfl, hfirst, hrest⟩
  rw [List.forall_mem_cons]
  constructor
  · rcases hfirst with rfl | rfl | ⟨d, rfl⟩
    · exact hplus
    · exact hminus
    · exact hdigit d
  · intro c hc
    rcases hrest c hc with rfl | ⟨d, rfl⟩
    · exact hpoint
    · exact hdigit d

theorem ne_nil (h : IsNumeral value) : value ≠ [] := by
  rcases h.eq_cons with ⟨first, rest, rfl, -, -⟩
  exact List.cons_ne_nil _ _

theorem solid (h : IsNumeral value) : ∀ c ∈ value, Text.isBlank c = false :=
  h.forall_mem (by decide) (by decide) (by decide) (by decide)

theorem no_escape (h : IsNumeral value) : '\\' ∉ value := by
  intro hmem
  exact h.forall_mem (p := fun c => c ≠ '\\')
    (by decide) (by decide) (by decide) (by decide) '\\' hmem rfl

/-- No keyword starts like a numeral. -/
theorem head_ne (h : IsNumeral value) (k : Keyword) :
    ∀ x ∈ value.head?, ∀ d ∈ k.letters.head?,
      Text.foldLetter x ≠ Text.foldLetter d := by
  rcases h.eq_cons with ⟨first, rest, rfl, hfirst, -⟩
  have hsign : ∀ x ∈ ['+', '-'], ∀ d ∈ k.letters.head?,
      Text.foldLetter x ≠ Text.foldLetter d := by
    cases k <;> simp [Keyword.letters] <;> decide
  have hdigit : ∀ digit : Digit, ∀ d ∈ k.letters.head?,
      Text.foldLetter digit.char ≠ Text.foldLetter d := by
    cases k <;> simp [Keyword.letters] <;> decide
  intro x hx
  have hx : first = x := by simpa using hx
  rw [← hx]
  rcases hfirst with rfl | rfl | ⟨d, rfl⟩
  · exact hsign '+' (by simp)
  · exact hsign '-' (by simp)
  · exact hdigit d

end IsNumeral

/-- A numeral makes a clause. -/
theorem ClauseForm.wellFormed_write {k : Keyword} (form : ClauseForm k)
    {value : List Char} (h : IsNumeral value) :
    (form.write value).WellFormed k where
  keyword := form.keyword_spelled
  gap_ne_nil := form.gap_ne_nil
  gap_blank := form.gap_blank
  value_ne_nil := h.ne_nil
  value_solid := h.solid
  trail_blank := form.trail_blank

theorem Letter.isAlphanum_val (letter : Letter) :
    letter.val.isAlphanum = true := by
  have hkinds :
      ((letter.val.isUpper || letter.val.isLower) || letter.val.isDigit) =
        true := by
    rw [letter.property]
    rfl
  exact hkinds

/-- The characters of a code are letters. -/
theorem CurrencyCode.isAlphanum_of_mem_chars {code : CurrencyCode} :
    ∀ c ∈ code.chars, c.isAlphanum = true := by
  simp [chars, Letter.isAlphanum_val]

/-! ## Written quotes seal each other -/

namespace StatementForm

variable (form : StatementForm) {pair buy sell cap : List Char}

/-- The block with the given fields. -/
def block (pair buy sell cap : List Char) : Block :=
  ⟨pair, form.lead, form.inner, form.buy.write buy, form.sell.write sell,
    form.cap.write cap⟩

/-- A pair and numerals make a block. -/
theorem wellFormed_block (hpair : Block.IsPair pair) (hbuy : IsNumeral buy)
    (hsell : IsNumeral sell) (hcap : IsNumeral cap) :
    (form.block pair buy sell cap).WellFormed where
  pair := hpair
  lead_blank := form.lead_blank
  inner_blank := form.inner_blank
  buy := form.buy.wellFormed_write hbuy
  sell := form.sell.wellFormed_write hsell
  cap := form.cap.wellFormed_write hcap

/-- A block of numerals is sealed by a blank behind it, unless the next
statement starts with a closing brace. -/
theorem sealed_block (hsell : IsNumeral sell) (hcap : IsNumeral cap)
    {tail : List Char} (hblank : ∀ c ∈ tail.head?, Text.isBlank c = true)
    (hnext : ∀ c ∈ (Text.skipBlanks tail).head?, c ≠ '}') :
    (form.block pair buy sell cap).Sealed tail where
  buy := Reader.sealed_clause _ (form.sell.wellFormed_write hsell)
    form.buy.trail_blank (hsell.head_ne .sell) _
  sell := Reader.sealed_clause _ (form.cap.wellFormed_write hcap)
    form.sell.trail_blank (hcap.head_ne .cap) _
  cap := Reader.sealed_close form.cap.trail_blank hblank hnext

end StatementForm

namespace Quote

variable (q : Quote) (form : StatementForm)

theorem wellFormed_write : (q.write form).block.WellFormed :=
  form.wellFormed_block
    ⟨_, _, rfl, CurrencyCode.isAlphanum_of_mem_chars,
      CurrencyCode.isAlphanum_of_mem_chars⟩
    q.buy.isNumeral_chars q.sell.isNumeral_chars (Digits.isNumeral_ofNat q.cap)

/-- A written quote is sealed by a blank behind it, unless the next statement
starts with a closing brace. -/
theorem sealed_block_write {tail : List Char}
    (hblank : ∀ c ∈ tail.head?, Text.isBlank c = true)
    (hnext : ∀ c ∈ (Text.skipBlanks tail).head?, c ≠ '}') :
    (q.write form).block.Sealed tail :=
  form.sealed_block q.sell.isNumeral_chars
    (Digits.isNumeral_ofNat q.cap) hblank hnext

/-- A written quote starts with a letter. -/
theorem exists_text_write :
    ∃ (letter : Letter) (rest : List Char),
      (q.write form).block.text = letter.val :: rest :=
  ⟨q.pair.source.first, _, rfl⟩

end Quote

section

variable {written : List (Quote × StatementForm)} {last : List Char}

/-- The text of several quotes starts with the blanks and the block of the
first. -/
theorem Layout.text_write_cons (x : Quote × StatementForm)
    (written : List (Quote × StatementForm)) (last : List Char) :
    (Layout.write (x :: written) last).text =
      x.2.gap ++
        ((x.1.write x.2).block.text ++ (Layout.write written last).text) := by
  simp [Layout.text, Layout.write, Segment.text, Quote.write]

/-- A text of blanks starts with a blank if at all, and there is no closing
brace behind it. -/
theorem Text.follows_blank (hlast : Text.allBlank last = true) :
    (∀ c ∈ last.head?, Text.isBlank c = true) ∧
      ∀ c ∈ (Text.skipBlanks last).head?, c ≠ '}' := by
  have hblank : ∀ c ∈ last, Text.isBlank c = true := List.all_eq_true.mp hlast
  constructor
  · intro c hc
    exact hblank c (List.mem_of_mem_head? hc)
  · have hnone : Text.skipBlanks last = [] := by
      rw [← List.append_nil last, Text.skipBlanks,
        List.dropWhile_append_of_pos hblank]
      rfl
    simp [hnone]

/-- Written quotes with a blank before each of them start with a blank, and no
closing brace is the first character behind it. -/
theorem Layout.follows_write (hapart : ∀ x ∈ written, x.2.gap ≠ [])
    (hlast : Text.allBlank last = true) :
    (∀ c ∈ (Layout.write written last).text.head?, Text.isBlank c = true) ∧
      ∀ c ∈ (Text.skipBlanks (Layout.write written last).text).head?,
        c ≠ '}' := by
  cases written with
  | nil =>
      have htext : (Layout.write [] last).text = last := by
        simp [Layout.text, Layout.write]
      rw [htext]
      exact Text.follows_blank hlast
  | cons x written =>
      rcases x.1.exists_text_write x.2 with ⟨letter, rest, hblock⟩
      have hsolid := Text.isBlank_of_isAlphanum letter.isAlphanum_val
      rw [Layout.text_write_cons, hblock, List.cons_append]
      constructor
      · exact Reader.head_blank_append x.2.gap_blank
          (hapart x List.mem_cons_self) _
      · rw [Text.skipBlanks_append x.2.gap_blank ⟨letter.val, _, rfl, hsolid⟩]
        intro c hc hbrace
        have hletter : letter.val = '}' := by
          rw [← hbrace]
          simpa using hc
        have hupper := letter.property
        rw [hletter] at hupper
        exact absurd hupper (by decide)

/-- Written quotes with blanks between them are sealed. -/
theorem Quote.sealed_write (hapart : ∀ x ∈ written.tail, x.2.gap ≠ [])
    (hlast : Text.allBlank last = true) :
    Segment.Sealed last (Layout.write written last).segments := by
  induction written with
  | nil => exact hlast
  | cons x written ih =>
      -- The first quote may lack a blank before it, those that follow it do
      -- not.
      rcases Layout.follows_write hapart hlast with ⟨hblank, hnext⟩
      exact ⟨x.2.gap_blank, x.1.wellFormed_write x.2,
        x.1.sealed_block_write x.2 hblank hnext,
        ih fun y hy => hapart y (List.mem_of_mem_tail hy)⟩

/-! ## Written quotes have no escapes -/

/-- There is no backslash among blanks. -/
theorem Text.no_escape_of_blank {w : List Char} (hw : Text.allBlank w = true) :
    '\\' ∉ w := by
  intro hmem
  have hblank := List.all_eq_true.mp hw '\\' hmem
  exact absurd hblank (by decide)

theorem ClauseForm.no_escape_write {k : Keyword} (form : ClauseForm k)
    {value : List Char} (h : IsNumeral value) :
    '\\' ∉ (form.write value).text := by
  have hkeyword : '\\' ∉ form.keyword := by
    -- A spelled keyword is known up to case only, and a backslash folds to
    -- itself.
    intro hmem
    have hmap := Text.sameLetters_iff.mp form.keyword_spelled
    have hfold : Text.foldLetter '\\' ∈ k.letters.map Text.foldLetter := by
      rw [← hmap]
      exact List.mem_map_of_mem hmem
    revert hfold
    cases k <;> decide
  have hgap := Text.no_escape_of_blank form.gap_blank
  have htrail := Text.no_escape_of_blank form.trail_blank
  simp [Clause.text, ClauseForm.write, hkeyword, hgap, htrail, h.no_escape]

/-- A block of numerals has no escapes if its pair has none. -/
theorem StatementForm.no_escape_block (form : StatementForm)
    {pair buy sell cap : List Char} (hpair : '\\' ∉ pair) (hbuy : IsNumeral buy)
    (hsell : IsNumeral sell) (hcap : IsNumeral cap) :
    '\\' ∉ (form.block pair buy sell cap).text := by
  have hbuy := form.buy.no_escape_write hbuy
  have hsell := form.sell.no_escape_write hsell
  have hcap := form.cap.no_escape_write hcap
  have hlead := Text.no_escape_of_blank form.lead_blank
  have hinner := Text.no_escape_of_blank form.inner_blank
  simp [block, Block.text, Block.head, hpair, hbuy, hsell, hcap, hlead, hinner]

/-- A written quote holds no backslash. -/
theorem Quote.no_escape_write (q : Quote) (form : StatementForm) :
    '\\' ∉ (q.write form).text := by
  have hcode : ∀ code : CurrencyCode, '\\' ∉ code.chars := by
    intro code hmem
    have halnum := CurrencyCode.isAlphanum_of_mem_chars '\\' hmem
    exact absurd halnum (by decide)
  have hpair : '\\' ∉ q.pair.chars := by simp [CurrencyPair.chars, hcode]
  have hgap := Text.no_escape_of_blank form.gap_blank
  have hblock := form.no_escape_block hpair q.buy.isNumeral_chars
    q.sell.isNumeral_chars (Digits.isNumeral_ofNat q.cap)
  rw [Segment.text, List.mem_append, not_or]
  exact ⟨hgap, hblock⟩

/-- A text without backslashes is the sheet it stands for. -/
theorem Sheet.unescape_of_not_mem {s : List Char} (h : '\\' ∉ s) :
    Sheet.unescape s = s := by
  apply Sheet.unescape_of_no_escape
  intro hfeed
  exact h (hfeed.subset List.mem_cons_self)

/-- In written quotes there is no line feed to unescape. -/
theorem Layout.unescape_text_write (hlast : Text.allBlank last = true) :
    Sheet.unescape (Layout.write written last).text =
      (Layout.write written last).text := by
  apply Sheet.unescape_of_not_mem
  have hrest := Text.no_escape_of_blank hlast
  simp only [Layout.text, Layout.write, List.mem_append, List.mem_flatMap,
    List.mem_map, not_or]
  refine ⟨?_, hrest⟩
  rintro ⟨g, ⟨x, -, rfl⟩, hmem⟩
  exact x.1.no_escape_write x.2 hmem

/-! ## Written quotes are read back -/

/-- A quote in range is read back from its written form. -/
theorem Statement.quote?_write {q : Quote} (h : q.InRange)
    (form : StatementForm) (start : Nat) :
    Statement.quote? ⟨start, (q.write form).block⟩ = some q := by
  have hpair := FieldValue.pair_text q.pair
  have hbuy := FieldValue.price_text h.buy
  have hsell := FieldValue.price_text h.sell
  have hcap := FieldValue.cap_natText h.cap_pos h.cap_lt
  simp only [CurrencyPair.text, Decimal.text, natText] at hpair hbuy hsell hcap
  simp only [Statement.quote?, Statement.pair, Statement.buy, Statement.sell,
    Statement.cap, Statement.valueAfter, Quote.write, ClauseForm.write, hpair,
    hbuy, hsell, hcap]

/-- The quotes read from a layout are those that were written into it, in
order. -/
theorem Segment.map_quote?_statements (hrange : ∀ x ∈ written, x.1.InRange)
    (offset : Nat) :
    (Segment.statements offset (Layout.write written last).segments).map
      Statement.quote? =
      (written.map Prod.fst).map some := by
  induction written generalizing offset with
  | nil => rfl
  | cons x written ih =>
      rcases List.forall_mem_cons.mp hrange with ⟨hx, hrest⟩
      have hfirst := Statement.quote?_write hx x.2
      simp only [Layout.write, List.map_cons, Segment.statements, hfirst]
      rw [← ih hrest]
      rfl

end

/-- No blank where none is needed. -/
def StatementForm.touching : StatementForm where
  gap := []
  lead := []
  inner := []
  buy := ⟨"buy".toList, [' '], [], by decide, by decide, by decide, by decide⟩
  sell := ⟨"Sell".toList, [' '], [], by decide, by decide, by decide, by decide⟩
  cap := ⟨"cAP".toList, [' '], [], by decide, by decide, by decide, by decide⟩
  gap_blank := rfl
  lead_blank := rfl
  inner_blank := rfl

/-- Several kinds of blanks, and a keyword that starts with a long s. -/
def StatementForm.spaced : StatementForm where
  gap := ['\n']
  lead := [' ']
  inner := ['\u3000']
  buy := ⟨"BUY".toList, ['\t'], [], by decide, by decide, by decide, by decide⟩
  sell :=
    ⟨"ſELL".toList, [' '], [' '], by decide, by decide, by decide, by decide⟩
  cap :=
    ⟨"CAP".toList, [' ', ' '], [], by decide, by decide, by decide, by decide⟩
  gap_blank := by decide
  lead_blank := by decide
  inner_blank := by decide

namespace Review

/-- A submission all of whose statements are quotes is accepted with these
quotes. -/
theorem outcome_of_quotes {r : Review} {quotes : List Quote}
    (h : r.statements.map Statement.quote? = quotes.map some) :
    r.outcome = .ok quotes := by
  have hrejections : r.rejections = [] := by
    rw [rejections, List.flatMap_eq_nil_iff]
    intro s hs
    have hmem : s.quote? ∈ quotes.map some := by
      rw [← h]
      exact List.mem_map_of_mem hs
    rcases List.mem_map.mp hmem with ⟨q, -, hq⟩
    have hnone : s.failures = [] := by
      rw [← s.isSome_quote?_iff, ← hq]
      rfl
    rw [Statement.rejections, hnone]
    rfl
  have hempty : r.diagnostics.isEmpty = true := by
    rw [diagnostics, hrejections]
    rfl
  have hquotes : r.quotes = quotes := by
    have hmap : r.quotes =
        (r.statements.map Statement.quote?).filterMap id := by
      rw [Review.quotes, List.filterMap_map]
      rfl
    rw [hmap, h, List.filterMap_map]
    simp
  simp [outcome, hempty, hquotes]

/-- However quotes in range are written, with at least one blank between any two
of them, the submission is accepted and its entries are these quotes in
order. -/
theorem book_written (ids : IdSource) (written : List (Quote × StatementForm))
    (last : List Char) (hrange : ∀ x ∈ written, x.1.InRange)
    (hapart : ∀ x ∈ written.tail, x.2.gap ≠ [])
    (hlast : Text.allBlank last = true) :
    ∃ entries,
      ((ofRaw (String.ofList (Layout.write written last).text)).book ids).1 =
        .ok entries ∧
        entries.map Entry.quote = written.map Prod.fst := by
  let r := ofRaw (String.ofList (Layout.write written last).text)
  have hlayout : Layout.read
      (Sheet.ofRaw (String.ofList (Layout.write written last).text)).chars =
      Layout.write written last := by
    rw [Sheet.ofRaw, String.toList_ofList, Layout.unescape_text_write hlast]
    exact Layout.read_text (Quote.sealed_write hapart hlast)
  have hstatements : r.statements = (Layout.write written last).statements :=
    congrArg Layout.statements hlayout
  have houtcome : r.outcome = .ok (written.map Prod.fst) := by
    apply outcome_of_quotes
    rw [hstatements]
    exact Segment.map_quote?_statements hrange 0
  refine ⟨Entry.label ids (written.map Prod.fst), ?_,
    Entry.map_quote_label ids _⟩
  rw [book_of_ok ids houtcome]

/-- Values touch the next keyword and the closing brace, and the largest price
and limit stand in the second statement. -/
theorem book_written_touching :
    ∃ entries,
      ((ofRaw ("USD-GBP\x7bbuy 1.50Sell 2cAP 3\x7d\nEUR-JPY \x7b\u3000" ++
          "BUY\t7.9228162514264337593543950335ſELL 0.01 CAP  18446744073709551615\x7d")).book
        .counting).1 = .ok entries ∧
      entries.map (fun e =>
          (e.quote.pair.text, e.quote.buy, e.quote.sell, e.quote.cap)) =
        [("USD-GBP", ⟨150, 2⟩, ⟨2, 0⟩, 3),
          ("EUR-JPY", ⟨Decimal.mantissaBound - 1, 28⟩, ⟨1, 2⟩,
            capBound - 1)] := by
  let usd : CurrencyCode :=
    ⟨⟨'U', by decide⟩, ⟨'S', by decide⟩, ⟨'D', by decide⟩⟩
  let gbp : CurrencyCode :=
    ⟨⟨'G', by decide⟩, ⟨'B', by decide⟩, ⟨'P', by decide⟩⟩
  let eur : CurrencyCode :=
    ⟨⟨'E', by decide⟩, ⟨'U', by decide⟩, ⟨'R', by decide⟩⟩
  let jpy : CurrencyCode :=
    ⟨⟨'J', by decide⟩, ⟨'P', by decide⟩, ⟨'Y', by decide⟩⟩
  let written : List (Quote × StatementForm) :=
    [(⟨⟨usd, gbp⟩, ⟨150, 2⟩, ⟨2, 0⟩, 3⟩, .touching),
      (⟨⟨eur, jpy⟩, ⟨Decimal.mantissaBound - 1, 28⟩, ⟨1, 2⟩, capBound - 1⟩,
        .spaced)]
  have hrange : ∀ x ∈ written, x.1.InRange := by
    intro x hx
    simp only [written, List.mem_cons, List.not_mem_nil, or_false] at hx
    rcases hx with rfl | rfl <;>
      exact ⟨⟨by decide, by decide, by decide⟩,
        ⟨by decide, by decide, by decide⟩, by decide, by decide⟩
  have hapart : ∀ x ∈ written.tail, x.2.gap ≠ [] := by
    intro x hx
    simp only [written, List.tail_cons, List.mem_cons, List.not_mem_nil,
      or_false] at hx
    subst hx
    exact List.cons_ne_nil _ _
  rcases book_written .counting written [] hrange hapart rfl with
    ⟨entries, hbook, hquotes⟩
  refine ⟨entries, ?_, ?_⟩
  · have htext : String.ofList (Layout.write written []).text =
        "USD-GBP\x7bbuy 1.50Sell 2cAP 3\x7d\nEUR-JPY \x7b\u3000" ++
          "BUY\t7.9228162514264337593543950335ſELL 0.01 CAP  18446744073709551615\x7d" := by
      decide +kernel
    rw [← htext]
    exact hbook
  · have hterms :=
      congrArg (List.map fun q => (q.pair.text, q.buy, q.sell, q.cap)) hquotes
    rw [List.map_map] at hterms
    refine hterms.trans ?_
    decide +kernel

end Review

end RateDesk
