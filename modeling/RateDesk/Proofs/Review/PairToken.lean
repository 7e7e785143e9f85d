import RateDesk.Proofs.FieldValue.Accepted
import RateDesk.Proofs.FieldValue.ReadBack
import RateDesk.Proofs.Review.Acceptance

/-!
# Pairs at the end of a longer token

A pair is found by its shape, and nothing is asked of the text before it.  Where
more than two runs of letters and digits are joined by dashes, the statement
therefore starts at the last run but one: the last two runs are the pair, and
the runs before them are skipped as text between statements.

Main results:

- Theorem `Block.read?_of_two_dashes`: no block starts at a run that two dashes
  follow.
- Theorem `Segment.first?_dashed`: the first block behind joined runs starts at
  the last run but one.
- Theorem `Review.pair_of_last_runs`: such a statement is rejected for its pair
  exactly when its last two runs are no currency codes.
-/

namespace RateDesk

/-! ## Where the block starts -/

/-- No block starts at a run that two dashes follow. -/
theorem Block.read?_of_two_dashes {source destination : List Char}
    (hsource : ∀ c ∈ source, c.isAlphanum = true)
    (hdestination : ∀ c ∈ destination, c.isAlphanum = true) (rest : List Char) :
    Block.read? (source ++ '-' :: (destination ++ '-' :: rest)) = none := by
  have hpair : Block.IsPair (source ++ '-' :: destination) :=
    ⟨source, destination, rfl, hsource, hdestination⟩
  have hread : Reader.pair (source ++ '-' :: (destination ++ '-' :: rest)) =
      some (source ++ '-' :: destination, '-' :: rest) := by
    have happend := Block.pair_append (r := '-' :: rest) hpair (by simp)
    simpa using happend
  have hskip : Text.skipBlanks ('-' :: rest) = '-' :: rest := rfl
  simp only [Block.read?, hread, hskip]
  split
  next heq => cases heq
  next => rfl

namespace Segment

/-- Text at none of whose characters a block starts belongs to the gap. -/
theorem first?_append {front s tail : List Char} {g : Segment}
    (hskip : ∀ c back, c :: back <:+ front →
      Block.read? (c :: back ++ s) = none)
    (hfirst : first? s = some (g, tail)) :
    first? (front ++ s) = some (⟨front ++ g.gap, g.block⟩, tail) := by
  induction front with
  | nil => exact hfirst
  | cons c front ih =>
      have hnone := hskip c front (List.suffix_refl _)
      have hrest := ih fun d back hsuffix =>
        hskip d back (hsuffix.trans (List.suffix_cons c front))
      rw [List.cons_append] at hnone ⊢
      simp only [first?, hnone, hrest]
      rfl

/-- The text starts with a run of letters and digits and a dash. -/
def StartsDashed (s : List Char) : Prop :=
  ∃ run rest, s = run ++ '-' :: rest ∧ ∀ c ∈ run, c.isAlphanum = true

/-- A run and a dash before joined runs belong to the gap. -/
theorem first?_run {run s tail : List Char} {g : Segment}
    (hrun : ∀ c ∈ run, c.isAlphanum = true) (hs : StartsDashed s)
    (hfirst : first? s = some (g, tail)) :
    first? (run ++ '-' :: s) = some (⟨run ++ '-' :: g.gap, g.block⟩, tail) := by
  rcases hs with ⟨destination, rest, rfl, hdestination⟩
  have hskip : ∀ c back, c :: back <:+ run ++ ['-'] →
      Block.read? (c :: back ++ (destination ++ '-' :: rest)) = none := by
    intro c back hsuffix
    rcases List.suffix_concat_iff.mp hsuffix with
      hnil | ⟨shorter, hshorter, hrest⟩
    · cases hnil
    · rw [hshorter, List.append_assoc]
      exact Block.read?_of_two_dashes
        (fun x hx => hrun x (hrest.subset hx)) hdestination rest
  have hfront := first?_append hskip hfirst
  rw [List.append_assoc, List.append_assoc] at hfront
  exact hfront

/-- Runs of letters and digits, each with a dash behind it. -/
def dashed (runs : List (List Char)) : List Char :=
  runs.flatMap (· ++ ['-'])

theorem startsDashed_dashed {runs : List (List Char)} {s : List Char}
    (hruns : ∀ run ∈ runs, ∀ c ∈ run, c.isAlphanum = true)
    (hs : StartsDashed s) : StartsDashed (dashed runs ++ s) := by
  cases runs with
  | nil => exact hs
  | cons run runs =>
      exact ⟨run, dashed runs ++ s,
        by simp [dashed], hruns run List.mem_cons_self⟩

/-- The first block behind joined runs starts at the last run but one. -/
theorem first?_dashed {runs : List (List Char)} {s tail : List Char}
    {g : Segment} (hruns : ∀ run ∈ runs, ∀ c ∈ run, c.isAlphanum = true)
    (hs : StartsDashed s) (hfirst : first? s = some (g, tail)) :
    first? (dashed runs ++ s) =
      some (⟨dashed runs ++ g.gap, g.block⟩, tail) := by
  induction runs with
  | nil => exact hfirst
  | cons run runs ih =>
      have hbehind : ∀ other ∈ runs, ∀ c ∈ other, c.isAlphanum = true :=
        fun other hother => hruns other (List.mem_cons_of_mem run hother)
      have hrun := first?_run (hruns run List.mem_cons_self)
        (startsDashed_dashed hbehind hs) (ih hbehind)
      simpa [dashed] using hrun

end Segment

/-! ## Statements with a long token -/

namespace FieldValue

/-- A positive literal is a numeral. -/
theorem isNumeral_of_positive {raw : String} {l : Literal}
    (h : positive raw = .ok l) : IsNumeral raw.toList := by
  rcases Literal.eq_append_of_read? (read?_of_positive h).1 with
    ⟨hwhole, sign, hsign, hraw⟩
  exact ⟨sign, l.whole, l.fraction, hsign, hwhole, hraw⟩

theorem isNumeral_of_price {raw : String} {d : Decimal}
    (h : price raw = .ok d) : IsNumeral raw.toList := by
  rcases (positive_of_price h).1 with ⟨l, hl⟩
  exact isNumeral_of_positive hl

theorem isNumeral_of_cap {raw : String} {n : Nat} (h : cap raw = .ok n) :
    IsNumeral raw.toList := by
  rcases positive_of_cap h with ⟨l, hl, -⟩
  exact isNumeral_of_positive hl

/-- A run of letters and digits, a dash and another run are a pair exactly when
both runs are codes. -/
theorem pair_eq_ok_iff {source destination : List Char} {p : CurrencyPair}
    (hsource : ∀ c ∈ source, c.isAlphanum = true) :
    pair (String.ofList (source ++ '-' :: destination)) = .ok p ↔
      source = p.source.chars ∧ destination = p.destination.chars := by
  constructor
  · intro h
    have hchars : source ++ '-' :: destination =
        p.source.chars ++ '-' :: p.destination.chars :=
      String.ofList_injective (eq_text_of_pair h)
    rcases Text.run_append_inj hsource CurrencyCode.isAlphanum_of_mem_chars
      (by simp) (by simp) hchars with ⟨hfirst, hrest⟩
    exact ⟨hfirst, (List.cons.inj hrest).2⟩
  · rintro ⟨rfl, rfl⟩
    exact pair_text p

end FieldValue

/-- Joined runs are all but the last two with a dash behind each, and then these
two. -/
theorem intercalate_dashed (runs : List (List Char))
    (source destination : List Char) :
    ['-'].intercalate (runs ++ [source, destination]) =
      Segment.dashed runs ++ (source ++ '-' :: destination) := by
  induction runs with
  | nil => simp [Segment.dashed]
  | cons run runs ih =>
      rw [List.cons_append, List.intercalate_cons_of_ne_nil (by simp), ih]
      simp [Segment.dashed]

/-- A statement with valid numbers can be rejected for its pair only. -/
theorem Statement.rejectedKinds_of_bad_pair (s : Statement)
    {buy sell : Decimal} {cap : Nat}
    (hpair : ∀ p, FieldValue.pair s.pair.text ≠ .ok p)
    (hbuy : FieldValue.price s.buy.text = .ok buy)
    (hsell : FieldValue.price s.sell.text = .ok sell)
    (hcap : FieldValue.cap s.cap.text = .ok cap) :
    s.rejectedKinds = [.currencyPair] := by
  have hbad : (FieldValue.pair s.pair.text).isOk = false := by
    cases hvalue : FieldValue.pair s.pair.text with
    | error e => rfl
    | ok p => exact absurd hvalue (hpair p)
  simp only [rejectedKinds, FieldKind.all, FieldKind.accepts, field,
    List.filter, hbad, hbuy, hsell, hcap]
  rfl

namespace StatementForm

/-- A statement whose pair is written as runs joined by dashes, with blanks
before and behind it. -/
def writeRuns (form : StatementForm) (runs : List (List Char))
    (buy sell cap : String) (last : List Char) : String :=
  String.ofList (form.gap ++
    ((form.block (['-'].intercalate runs) buy.toList sell.toList
      cap.toList).text ++ last))

theorem text_block_append (form : StatementForm)
    (front pair buy sell cap : List Char) :
    (form.block (front ++ pair) buy sell cap).text =
      front ++ (form.block pair buy sell cap).text := by
  simp [block, Block.text, Block.head]

/-- A block whose pair starts with a run and a dash does so too. -/
theorem startsDashed_block (form : StatementForm) {source : List Char}
    (hsource : ∀ c ∈ source, c.isAlphanum = true)
    (destination buy sell cap rest : List Char) :
    Segment.StartsDashed
      ((form.block (source ++ '-' :: destination) buy sell cap).text ++
        rest) := by
  refine ⟨source, (form.block destination buy sell cap).text ++ rest,
    ?_, hsource⟩
  rw [text_block_append, ← List.singleton_append, text_block_append]
  simp

end StatementForm

section

variable {form : StatementForm} {earlier : List (List Char)}
  {source destination : List Char} {buy sell cap : String} {last : List Char}

/-- Such a statement has no escapes. -/
theorem Sheet.chars_writeRuns
    (hruns : ∀ run ∈ earlier ++ [source, destination], ∀ c ∈ run,
      c.isAlphanum = true)
    (hbuy : IsNumeral buy.toList) (hsell : IsNumeral sell.toList)
    (hcap : IsNumeral cap.toList) (hlast : Text.allBlank last = true) :
    (Sheet.ofRaw (form.writeRuns (earlier ++ [source, destination])
      buy sell cap last)).chars =
      form.gap ++ ((form.block
        (Segment.dashed earlier ++ (source ++ '-' :: destination))
        buy.toList sell.toList cap.toList).text ++ last) := by
  have hrun : ∀ run ∈ earlier ++ [source, destination], '\\' ∉ run := by
    intro run hrun hmem
    exact absurd (hruns run hrun '\\' hmem) (by decide)
  have htoken : '\\' ∉
      Segment.dashed earlier ++ (source ++ '-' :: destination) := by
    have hearlier : ∀ run ∈ earlier, '\\' ∉ run :=
      fun run hmem => hrun run (List.mem_append_left _ hmem)
    simpa [Segment.dashed, hrun source (by simp),
      hrun destination (by simp)] using hearlier
  rw [Sheet.ofRaw, StatementForm.writeRuns, String.toList_ofList,
    intercalate_dashed]
  apply Sheet.unescape_of_not_mem
  simp only [List.mem_append, not_or]
  exact ⟨Text.no_escape_of_blank form.gap_blank,
    form.no_escape_block htoken hbuy hsell hcap, Text.no_escape_of_blank hlast⟩

/-- A statement with a long token has the last two runs as its pair, and the
runs before them stand in the gap. -/
theorem Layout.read_writeRuns
    (hruns : ∀ run ∈ earlier ++ [source, destination], ∀ c ∈ run,
      c.isAlphanum = true)
    (hbuy : IsNumeral buy.toList) (hsell : IsNumeral sell.toList)
    (hcap : IsNumeral cap.toList) (hlast : Text.allBlank last = true) :
    Layout.read (Sheet.ofRaw (form.writeRuns (earlier ++ [source, destination])
      buy sell cap last)).chars =
      ⟨[⟨form.gap ++ Segment.dashed earlier,
        form.block (source ++ '-' :: destination)
          buy.toList sell.toList cap.toList⟩], last⟩ := by
  let block :=
    form.block (source ++ '-' :: destination) buy.toList sell.toList cap.toList
  have hearlier : ∀ run ∈ earlier, ∀ c ∈ run, c.isAlphanum = true :=
    fun run hrun => hruns run (List.mem_append_left _ hrun)
  have hsource : ∀ c ∈ source, c.isAlphanum = true := hruns source (by simp)
  have hdestination : ∀ c ∈ destination, c.isAlphanum = true :=
    hruns destination (by simp)
  rcases Text.follows_blank hlast with ⟨hblank, hnext⟩
  have hread : Block.read? (block.text ++ last) = some (block, last) :=
    Block.read?_text
      (form.wellFormed_block
        ⟨source, destination, rfl, hsource, hdestination⟩ hbuy hsell hcap)
      (form.sealed_block hsell hcap hblank hnext)
  have hdashed := Segment.first?_dashed hearlier
    (form.startsDashed_block hsource ..) (Segment.first?_block hread)
  have hfirst := Segment.first?_inert (Text.inert_of_blank form.gap_blank)
    (Segment.dashed earlier ++ (block.text ++ last))
  rw [hdashed] at hfirst
  rw [Sheet.chars_writeRuns hruns hbuy hsell hcap hlast,
    StatementForm.text_block_append, List.append_assoc,
    Layout.read_of_some hfirst,
    Layout.read_of_none
      (Segment.first?_of_no_dash (Text.inert_of_blank hlast).no_dash),
    List.append_nil]

namespace Review

/-- The statement of such a text is the one with the last two runs. -/
theorem statements_writeRuns
    (hruns : ∀ run ∈ earlier ++ [source, destination], ∀ c ∈ run,
      c.isAlphanum = true)
    (hbuy : IsNumeral buy.toList) (hsell : IsNumeral sell.toList)
    (hcap : IsNumeral cap.toList) (hlast : Text.allBlank last = true) :
    ∃ s : Statement,
      (ofRaw (form.writeRuns (earlier ++ [source, destination])
        buy sell cap last)).statements = [s] ∧
      s.pair.text = String.ofList (source ++ '-' :: destination) ∧
      s.buy.text = buy ∧ s.sell.text = sell ∧ s.cap.text = cap := by
  refine ⟨_, congrArg Layout.statements
    (Layout.read_writeRuns hruns hbuy hsell hcap hlast), rfl, ?_, ?_, ?_⟩
  · exact String.ofList_toList
  · exact String.ofList_toList
  · exact String.ofList_toList

/-- A single statement that spells a quote gives one entry. -/
theorem book_of_spells {raw : String} {s : Statement} {q : Quote}
    (hs : (ofRaw raw).statements = [s]) (hq : s.Spells q) (ids : IdSource) :
    ∃ e, ((ofRaw raw).book ids).1 = .ok [e] ∧ e.quote = q := by
  refine ⟨⟨ids.supply ids.used, q⟩, ?_, rfl⟩
  rw [book_eq_ok_iff, ← statements_ofRaw, hs]
  exact ⟨.cons hq .nil, rfl⟩

/-- A single statement of which only the pair is not accepted has one
diagnostic. -/
theorem book_of_bad_pair {raw : String} {s : Statement}
    (hs : (ofRaw raw).statements = [s])
    (hkinds : s.rejectedKinds = [.currencyPair]) (ids : IdSource) :
    ∃ found, ((ofRaw raw).book ids).1 = .error found ∧
      found.toList.map (fun d => (d.kind, d.raw)) =
        [(.currencyPair, s.pair.text)] := by
  have hlist : (ofRaw raw).diagnostics.toList =
      [Diagnostic.locate (ofRaw raw).sheet .currencyPair s.pair] := by
    simp [toList_diagnostics, located, hs, hkinds, Statement.field]
  refine ⟨(ofRaw raw).diagnostics, ?_, ?_⟩
  · rw [book_eq_error_iff, hlist]
    exact ⟨rfl, List.cons_ne_nil _ _⟩
  · rw [hlist]
    rfl

/-- A statement with a long token is rejected for its pair exactly when its last
two runs are no currency codes, and the diagnostic then shows these two runs
only.  If they are codes, the statement is accepted with them as its pair,
whatever the runs before them are. -/
theorem pair_of_last_runs (ids : IdSource) (form : StatementForm)
    (earlier : List (List Char)) (source destination : List Char)
    (buy sell cap : String) (last : List Char)
    (buyPrice sellPrice : Decimal) (limit : Nat)
    (hruns : ∀ run ∈ earlier ++ [source, destination], ∀ c ∈ run,
      c.isAlphanum = true)
    (hbuy : FieldValue.price buy = .ok buyPrice)
    (hsell : FieldValue.price sell = .ok sellPrice)
    (hcap : FieldValue.cap cap = .ok limit)
    (hlast : Text.allBlank last = true) :
    let outcome := ((ofRaw (form.writeRuns (earlier ++ [source, destination])
      buy sell cap last)).book ids).1
    ((∃ found, outcome = .error found ∧
        ∃ d ∈ found.toList, d.kind = .currencyPair) ↔
      ¬∃ p : CurrencyPair, source = p.source.chars ∧
        destination = p.destination.chars) ∧
    (∀ found, outcome = .error found →
      found.toList.map (fun d => (d.kind, d.raw)) =
        [(.currencyPair, String.ofList (source ++ '-' :: destination))]) ∧
    (∀ p : CurrencyPair, source = p.source.chars →
      destination = p.destination.chars →
      ∃ e, outcome = .ok [e] ∧ e.quote = ⟨p, buyPrice, sellPrice, limit⟩) := by
  intro outcome
  rcases statements_writeRuns hruns (FieldValue.isNumeral_of_price hbuy)
    (FieldValue.isNumeral_of_price hsell)
    (FieldValue.isNumeral_of_cap hcap) hlast with
    ⟨s, hs, hpair, rfl, rfl, rfl⟩
  have hcodes : ∀ p : CurrencyPair, FieldValue.pair s.pair.text = .ok p ↔
      source = p.source.chars ∧ destination = p.destination.chars := by
    intro p
    rw [hpair]
    exact FieldValue.pair_eq_ok_iff (hruns source (by simp))
  have haccept : ∀ p : CurrencyPair, source = p.source.chars →
      destination = p.destination.chars →
      ∃ e, outcome = .ok [e] ∧ e.quote = ⟨p, buyPrice, sellPrice, limit⟩ := by
    intro p hsource hdestination
    exact book_of_spells hs
      ⟨(hcodes p).mpr ⟨hsource, hdestination⟩, hbuy, hsell, hcap⟩ ids
  have hreject : (¬∃ p : CurrencyPair, source = p.source.chars ∧
      destination = p.destination.chars) → ∃ found, outcome = .error found ∧
        found.toList.map (fun d => (d.kind, d.raw)) =
          [(.currencyPair, String.ofList (source ++ '-' :: destination))] := by
    intro hnone
    have hkinds : s.rejectedKinds = [.currencyPair] :=
      s.rejectedKinds_of_bad_pair
        (fun p hp => hnone ⟨p, (hcodes p).mp hp⟩) hbuy hsell hcap
    rw [← hpair]
    exact book_of_bad_pair hs hkinds ids
  have hnone : ∀ found, outcome = .error found →
      ¬∃ p : CurrencyPair, source = p.source.chars ∧
        destination = p.destination.chars := by
    rintro found herror ⟨p, hsource, hdestination⟩
    rcases haccept p hsource hdestination with ⟨e, hok, -⟩
    rw [herror] at hok
    cases hok
  refine ⟨⟨?_, ?_⟩, ?_, haccept⟩
  · rintro ⟨found, herror, -⟩
    exact hnone found herror
  · intro hcodes
    rcases hreject hcodes with ⟨found, herror, hlist⟩
    have hmem :
        (FieldKind.currencyPair, String.ofList (source ++ '-' :: destination)) ∈
        found.toList.map fun d => (d.kind, d.raw) := by simp [hlist]
    rcases List.mem_map.mp hmem with ⟨d, hd, hkind⟩
    exact ⟨found, herror, d, hd, congrArg Prod.fst hkind⟩
  · intro found herror
    rcases hreject (hnone found herror) with ⟨other, hother, hlist⟩
    rw [herror] at hother
    cases hother
    exact hlist

/-- The last run is no code, and one of the runs before is empty. -/
theorem pair_of_last_runs_small_letters :
    ∃ found,
      ((ofRaw "EUR--USD-gbp\x7bbuy 1Sell 2.5cAP 3\x7d\n").book .counting).1 =
        .error found ∧
      found.toList.map (fun d => (d.kind, d.raw)) =
        [(.currencyPair, "USD-gbp")] := by
  let runs := ["EUR".toList, [], "USD".toList, "gbp".toList]
  have hraw : StatementForm.touching.writeRuns runs "1" "2.5" "3" ['\n'] =
      "EUR--USD-gbp\x7bbuy 1Sell 2.5cAP 3\x7d\n" := by decide +kernel
  have hbuy : FieldValue.price "1" = .ok ⟨1, 0⟩ := by decide +kernel
  have hsell : FieldValue.price "2.5" = .ok ⟨25, 1⟩ := by decide +kernel
  have hcap : FieldValue.cap "3" = .ok 3 := by decide +kernel
  have hall : (runs.all fun run => run.all Char.isAlphanum) = true := by decide
  have hruns : ∀ run ∈ runs, ∀ c ∈ run, c.isAlphanum = true := by
    intro run hrun
    exact List.all_eq_true.mp (List.all_eq_true.mp hall run hrun)
  have hpair := pair_of_last_runs .counting .touching
    ["EUR".toList, []] "USD".toList "gbp".toList "1" "2.5" "3" ['\n']
    _ _ _ hruns hbuy hsell hcap (by decide)
  have hnone : ¬∃ p : CurrencyPair, "USD".toList = p.source.chars ∧
      "gbp".toList = p.destination.chars := by
    rintro ⟨p, -, hgbp⟩
    have hletter := p.destination.first.property
    have hfirst : 'g' = p.destination.first.val := (List.cons.inj hgbp).1
    rw [← hfirst] at hletter
    exact absurd hletter (by decide)
  rcases hpair.1.mpr hnone with ⟨found, herror, -⟩
  have hlist := hpair.2.1 found herror
  rw [← hraw]
  exact ⟨found, herror, hlist⟩

/-- A token of three codes is not rejected: the first code is skipped. -/
theorem three_codes_accepted :
    ∃ entries,
      ((ofRaw "EUR-USD-GBP \x7b BUY 1 SELL 2 CAP 3 \x7d").book .counting).1 =
        .ok entries ∧
      entries.map (fun e =>
          (e.quote.pair.text, e.quote.buy, e.quote.sell, e.quote.cap)) =
        [("USD-GBP", ⟨1, 0⟩, ⟨2, 0⟩, 3)] := by
  let raw := "EUR-USD-GBP \x7b BUY 1 SELL 2 CAP 3 \x7d"
  have hquotes : (ofRaw raw).statements.map Statement.quote? =
      (ofRaw raw).quotes.map some := by
    decide +kernel
  refine ⟨_,
    congrArg Prod.fst (book_of_ok .counting (outcome_of_quotes hquotes)), ?_⟩
  decide +kernel

end Review

end

end RateDesk
