import Mathlib.Data.List.Forall2
import RateDesk.Proofs.Review.Rejection
import RateDesk.Proofs.Review.RoundTrip

/-!
# Whole submissions

A submission is accepted if every field of every statement is, and then each
statement gives one entry: its terms are the values of the statement's own
fields, and its identifier is the next one of the source.  One field that is not
accepted discards everything.  Which of the two happens, and everything but the
identifiers, does not depend on the source.

Main results:

- Theorem `Statement.exists_spells_iff`: a statement spells a quote exactly when
  all its fields are accepted.
- Theorem `Review.book_eq_ok_iff`: the entries of an accepted submission.
- Theorem `Review.accepted_whole`: which submissions are accepted, with which
  entries, and what does not depend on identifiers.
-/

namespace RateDesk

namespace Statement

/-- The terms are the values of the fields of the statement, each read from its
own text. -/
structure Spells (s : Statement) (q : Quote) : Prop where
  pair : FieldValue.pair s.pair.text = .ok q.pair
  buy : FieldValue.price s.buy.text = .ok q.buy
  sell : FieldValue.price s.sell.text = .ok q.sell
  cap : FieldValue.cap s.cap.text = .ok q.cap

theorem quote?_eq_some_iff {s : Statement} {q : Quote} :
    s.quote? = some q ↔ s.Spells q := by
  constructor
  · intro h
    unfold quote? at h
    split at h
    next pair buy sell cap hpair hbuy hsell hcap =>
      cases h
      exact ⟨hpair, hbuy, hsell, hcap⟩
    next => cases h
  · intro h
    simp only [quote?, h.pair, h.buy, h.sell, h.cap]

/-- A statement spells a quote exactly when all its fields are accepted. -/
theorem exists_spells_iff {s : Statement} :
    (∃ q, s.Spells q) ↔ ∀ kind : FieldKind,
      kind.accepts (s.field kind).text = true := by
  constructor
  · rintro ⟨q, h⟩ kind
    cases kind with
    | currencyPair => simp only [FieldKind.accepts, field, h.pair]; rfl
    | buy => simp only [FieldKind.accepts, field, h.buy]; rfl
    | sell => simp only [FieldKind.accepts, field, h.sell]; rfl
    | cap => simp only [FieldKind.accepts, field, h.cap]; rfl
  · intro h
    have hvalue : ∀ {α : Type} {value : Except FieldError α},
        value.isOk = true →
        ∃ a, value = .ok a := by
      intro α value hok
      cases value with
      | error e => cases hok
      | ok a => exact ⟨a, rfl⟩
    rcases hvalue (h .currencyPair) with ⟨pair, hpair⟩
    rcases hvalue (h .buy) with ⟨buy, hbuy⟩
    rcases hvalue (h .sell) with ⟨sell, hsell⟩
    rcases hvalue (h .cap) with ⟨cap, hcap⟩
    exact ⟨⟨pair, buy, sell, cap⟩, hpair, hbuy, hsell, hcap⟩

end Statement

namespace Entry

theorem map_id_label (ids : IdSource) (quotes : List Quote) :
    (label ids quotes).map Entry.id = ids.next quotes.length := by
  have hlength : (ids.next quotes.length).length ≤ quotes.length := by simp
  rw [label, ← List.map_uncurry_zip_eq_zipWith, List.map_map]
  exact List.map_fst_zip hlength

/-- Entries are known from their identifiers and their quotes. -/
theorem eq_label_iff {ids : IdSource} {quotes : List Quote}
    {entries : List Entry} :
    entries = label ids quotes ↔
      entries.map Entry.quote = quotes ∧
      entries.map Entry.id = ids.next entries.length := by
  constructor
  · rintro rfl
    rw [length_label]
    exact ⟨map_quote_label ids quotes, map_id_label ids quotes⟩
  · rintro ⟨rfl, hids⟩
    rw [label, List.length_map, ← hids, List.zipWith_map, List.zipWith_self,
      List.map_id'']
    intro e
    rfl

end Entry

namespace Review

/-- All statements are read as quotes exactly when each spells its quote. -/
theorem map_quote?_eq_iff {statements : List Statement} {quotes : List Quote} :
    statements.map Statement.quote? = quotes.map some ↔
      List.Forall₂ Statement.Spells statements quotes := by
  rw [← List.forall₂_eq_eq_eq]
  simp only [List.forall₂_map_left_iff, List.forall₂_map_right_iff,
    Statement.quote?_eq_some_iff]

/-- Statements all of whose fields are accepted spell quotes. -/
theorem exists_quotes {statements : List Statement}
    (h : ∀ s ∈ statements, ∀ kind : FieldKind,
      kind.accepts (s.field kind).text = true) :
    ∃ quotes, List.Forall₂ Statement.Spells statements quotes := by
  induction statements with
  | nil => exact ⟨[], .nil⟩
  | cons s statements ih =>
      rcases Statement.exists_spells_iff.mpr (h s List.mem_cons_self) with
        ⟨q, hq⟩
      rcases ih fun t ht => h t (List.mem_cons_of_mem s ht) with
        ⟨quotes, hquotes⟩
      exact ⟨q :: quotes, .cons hq hquotes⟩

/-- A submission that is accepted has no field that is not. -/
theorem accepts_of_book {raw : String} {ids : IdSource} {entries : List Entry}
    (h : ((ofRaw raw).book ids).1 = .ok entries) :
    ∀ s ∈ scan (Sheet.ofRaw raw).text, ∀ kind : FieldKind,
      kind.accepts (s.field kind).text = true := by
  rw [← statements_ofRaw, ← located_eq_nil_iff]
  by_contra hsome
  have herror : ((ofRaw raw).book ids).1 = .error (ofRaw raw).diagnostics := by
    rw [book_eq_error_iff, toList_diagnostics]
    exact ⟨rfl, hsome⟩
  rw [h] at herror
  cases herror

/-- A text is accepted with some quotes exactly when its statements spell them,
in order. -/
theorem outcome_eq_ok_iff {raw : String} {quotes : List Quote} :
    (ofRaw raw).outcome = .ok quotes ↔
      List.Forall₂ Statement.Spells (scan (Sheet.ofRaw raw).text) quotes := by
  constructor
  · intro h
    have hbook := congrArg Prod.fst (book_of_ok .counting h)
    rcases exists_quotes (accepts_of_book hbook) with ⟨found, hfound⟩
    rw [← statements_ofRaw] at hfound
    rw [outcome_of_quotes (map_quote?_eq_iff.mpr hfound)] at h
    cases h
    rw [← statements_ofRaw]
    exact hfound
  · intro h
    rw [← statements_ofRaw] at h
    exact outcome_of_quotes (map_quote?_eq_iff.mpr h)

/-- A submission is accepted with the entries that its statements spell, under
the identifiers that come next. -/
theorem book_eq_ok_iff {raw : String} {ids : IdSource} {entries : List Entry} :
    ((ofRaw raw).book ids).1 = .ok entries ↔
      List.Forall₂ (fun s e => s.Spells e.quote)
        (scan (Sheet.ofRaw raw).text) entries ∧
        entries.map Entry.id = ids.next entries.length := by
  rw [← List.forall₂_map_right_iff, ← outcome_eq_ok_iff]
  cases houtcome : (ofRaw raw).outcome with
  | error found => simp [book_of_error ids houtcome]
  | ok quotes =>
      rw [book_of_ok ids houtcome, Except.ok.injEq, Except.ok.injEq, eq_comm,
        Entry.eq_label_iff, eq_comm]

/-- A submission is accepted exactly when every field of every statement is. -/
theorem exists_book_eq_ok_iff {raw : String} {ids : IdSource} :
    (∃ entries, ((ofRaw raw).book ids).1 = .ok entries) ↔
      ∀ s ∈ scan (Sheet.ofRaw raw).text, ∀ kind : FieldKind,
        kind.accepts (s.field kind).text = true := by
  constructor
  · rintro ⟨entries, h⟩
    exact accepts_of_book h
  · intro h
    rcases exists_quotes h with ⟨quotes, hquotes⟩
    refine ⟨Entry.label ids quotes, ?_⟩
    rw [book_of_ok ids (outcome_eq_ok_iff.mpr hquotes)]

/-- A booked quote was spelled by some statement. -/
theorem spells_of_mem {raw : String} {ids : IdSource} {entries : List Entry}
    (h : ((ofRaw raw).book ids).1 = .ok entries) {e : Entry}
    (he : e ∈ entries) : ∃ s : Statement, s.Spells e.quote := by
  have hspells := (book_eq_ok_iff.mp h).1
  rcases List.mem_iff_get.mp he with ⟨⟨i, hi⟩, rfl⟩
  have hs : i < (scan (Sheet.ofRaw raw).text).length := by
    rw [hspells.length_eq]
    exact hi
  exact ⟨_, hspells.get hs hi⟩

/-- Everything about a submission but the identifiers of its entries. -/
theorem book_map_quote (r : Review) (ids : IdSource) :
    (r.book ids).1.map (List.map Entry.quote) = r.outcome := by
  cases houtcome : r.outcome with
  | error found =>
      rw [book_of_error ids houtcome]
      rfl
  | ok quotes =>
      rw [book_of_ok ids houtcome, Except.map, Entry.map_quote_label]

/-- A submission is accepted exactly when every field of every statement is.
There is then one entry for each statement, in text order, with the values of
the statement's own fields and the next identifier.  Two sources of identifiers
give the same diagnostics, or the same entries up to their identifiers. -/
theorem accepted_whole (raw : String) (ids : IdSource) :
    ((∃ entries, ((ofRaw raw).book ids).1 = .ok entries) ↔
      ∀ s ∈ scan (Sheet.ofRaw raw).text, ∀ kind : FieldKind,
        kind.accepts (s.field kind).text = true) ∧
    (∀ entries, ((ofRaw raw).book ids).1 = .ok entries →
      List.Forall₂ (fun s e => s.Spells e.quote)
        (scan (Sheet.ofRaw raw).text) entries ∧
      entries.map Entry.id = (List.range entries.length).map fun i =>
        ids.supply (ids.used + i)) ∧
    (∀ other : IdSource, ((ofRaw raw).book ids).1.map (List.map Entry.quote) =
      ((ofRaw raw).book other).1.map (List.map Entry.quote)) := by
  refine ⟨exists_book_eq_ok_iff, fun entries h => book_eq_ok_iff.mp h, ?_⟩
  intro other
  rw [book_map_quote, book_map_quote]

/-- Two statements with different values in every field. -/
theorem accepted_whole_two_statements :
    ∃ entries,
      ((ofRaw
        "USD-GBP \x7bBUY 1.5 SELL 2 CAP 3\x7d EUR-JPY \x7bBUY 4 SELL 5 CAP 6\x7d").book
        .counting).1 = .ok entries ∧
      entries.map (fun e =>
          (e.id.toNat, e.quote.pair.text, e.quote.buy, e.quote.sell,
            e.quote.cap)) =
        [(1, "USD-GBP", ⟨15, 1⟩, ⟨2, 0⟩, 3),
          (2, "EUR-JPY", ⟨4, 0⟩, ⟨5, 0⟩, 6)] := by
  let raw :=
    "USD-GBP \x7bBUY 1.5 SELL 2 CAP 3\x7d EUR-JPY \x7bBUY 4 SELL 5 CAP 6\x7d"
  have hwhole := accepted_whole raw .counting
  have hfields : ∀ s ∈ scan (Sheet.ofRaw raw).text, ∀ kind ∈ FieldKind.all,
      kind.accepts (s.field kind).text = true := by decide +kernel
  rcases hwhole.1.mpr fun s hs kind =>
    hfields s hs kind (by cases kind <;> decide) with
    ⟨entries, hentries⟩
  refine ⟨entries, hentries, ?_⟩
  have hquotes : (ofRaw raw).statements.map Statement.quote? =
      (ofRaw raw).quotes.map some := by
    decide +kernel
  rw [book_of_ok .counting (outcome_of_quotes hquotes)] at hentries
  cases hentries
  decide +kernel

end Review

end RateDesk
