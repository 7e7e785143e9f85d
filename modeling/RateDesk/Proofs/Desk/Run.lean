import RateDesk.Desk
import RateDesk.Proofs.FieldValue.Accepted
import RateDesk.Proofs.Ledger.Arrival
import RateDesk.Proofs.Review.Acceptance

/-!
# Runs of a desk

A desk with its ledger in memory takes submissions one after the other.  This
module says what one submission does to it, and from that what holds along every
run: entries are only ever added, an entry that was given back is found under
its identifier from then on, and everything that is kept makes sense as a quote.

Identifiers come from a source in order, one for each entry of an accepted
submission, so those of a submission start behind the ones that the submissions
before it have drawn.  Identifiers may repeat.  An entry under an identifier
that is taken is not kept, and then the submission is answered with the number
of entries that were.

Main results:

- Theorem `Desk.ids_after`: how many identifiers a run has drawn.
- Theorem `Desk.InMemory.step_process`: what one submission does.
- Theorem `Desk.kept_prefix_after`: entries are only added.
- Theorem `Desk.run_in_memory`: the answers along a run, and what is kept after
  it.
-/

namespace RateDesk

/-- Terms that make sense: codes of three capital letters, and prices and a
limit above zero. -/
structure Quote.Sound (q : Quote) : Prop where
  codes : ∀ code ∈ [q.pair.source, q.pair.destination],
    code.text.length = 3 ∧ ∀ c ∈ code.text.toList, c.isUpper = true
  buy_pos : 0 < q.buy.value
  sell_pos : 0 < q.sell.value
  cap_pos : 0 < q.cap

/-- The text of a code is three capital letters. -/
theorem CurrencyCode.text_capitals (code : CurrencyCode) :
    code.text.length = 3 ∧ ∀ c ∈ code.text.toList, c.isUpper = true := by
  constructor
  · rw [← String.length_toList, text, String.toList_ofList]
    rfl
  · rw [text, String.toList_ofList]
    simp [chars, code.first.property, code.second.property, code.third.property]

theorem Statement.Spells.sound {s : Statement} {q : Quote}
    (h : s.Spells q) : q.Sound where
  codes := fun code _ => code.text_capitals
  buy_pos := FieldValue.price_pos h.buy
  sell_pos := FieldValue.price_pos h.sell
  cap_pos := FieldValue.cap_pos h.cap

namespace Review

/-- The number of entries of a submission; a rejected one has none. -/
def entryCount (r : Review) : Nat :=
  match r.outcome with
  | .error _ => 0
  | .ok quotes => quotes.length

/-- A rejected submission has no entries. -/
theorem entryCount_of_error {r : Review} {found : Diagnostics}
    (h : r.outcome = .error found) : r.entryCount = 0 := by
  rw [entryCount, h]

/-- An accepted submission has an entry for each quote. -/
theorem entryCount_of_ok {r : Review} {quotes : List Quote}
    (h : r.outcome = .ok quotes) : r.entryCount = quotes.length := by
  rw [entryCount, h]

end Review

namespace Desk

/-- The entries that a desk keeps, in order of arrival. -/
def kept (d : Desk) : List Entry :=
  d.store.ledger.toList

/-- The desk after it has handled submissions. -/
def after (d : Desk) (raws : List String) : Desk :=
  raws.foldl (fun d raw => (d.process raw).desk) d

/-- The number of identifiers that submissions draw. -/
def drawn (raws : List String) : Nat :=
  (raws.map fun raw => (Review.ofRaw raw).entryCount).sum

/-- What a submission does to a desk that has drawn `n` identifiers of a
source. -/
inductive Step (ids : IdSource) (n : Nat) (d : Desk) (raw : String)
    (answer : Handled) : Prop
  /-- If the review rejects it, nothing is kept and nothing drawn. -/
  | rejected {found : Diagnostics}
      (book : ((Review.ofRaw raw).book d.ids).1 = .error found)
      (result : answer.result = .error (.invalid found))
      (source : answer.desk.ids = { ids with used := ids.used + n })
      (kept : answer.desk.kept = d.kept)
  /-- Otherwise its entries have the identifiers of the source behind those
  already drawn, and these are drawn now.  The entries under new identifiers are
  kept behind the others, and the submitter gets the entries back if all of them
  were new. -/
  | accepted {entries : List Entry}
      (book : ((Review.ofRaw raw).book d.ids).1 = .ok entries)
      (identifiers : entries.map Entry.id =
        (List.range entries.length).map fun i => ids.supply (ids.used + n + i))
      (source : answer.desk.ids =
        { ids with used := ids.used + (n + entries.length) })
      (kept : answer.desk.kept = d.kept ++ Entry.newcomers d.kept entries)
      (result : answer.result =
        if (Entry.newcomers d.kept entries).length = entries.length then
          .ok entries
        else
          .error (.countMismatch entries.length
            (Entry.newcomers d.kept entries).length))

/-- The desk keeps sound entries in a consistent ledger in memory. -/
structure InMemory (d : Desk) : Prop where
  store_eq : d.store = .memory d.store.ledger
  consistent : d.store.ledger.Consistent
  sound : ∀ e ∈ d.kept, e.quote.Sound

theorem inMemory_fresh (ids : IdSource) : (fresh ids).InMemory where
  store_eq := rfl
  consistent := Ledger.consistent_empty
  sound := by
    intro e he
    rw [kept, fresh, Store.ledger, Ledger.toList_empty] at he
    cases he

/-! ## One submission -/

/-- Filing entries leaves all but the store as it is. -/
theorem file_desk {d : Desk} {l : Ledger} (h : d.store = .memory l)
    (entries : List Entry) :
    (d.file entries).desk =
      { d with store := .memory (l.deposit entries).ledger } := by
  simp only [file, h, Store.deposit]
  split <;> rfl

/-- Filing succeeds if all entries are stored; otherwise the answer tells both
numbers. -/
theorem file_result {d : Desk} {l : Ledger} (h : d.store = .memory l)
    (entries : List Entry) :
    (d.file entries).result =
      if (l.deposit entries).stored = entries.length then .ok entries
      else
        .error (.countMismatch entries.length (l.deposit entries).stored) := by
  simp only [file, h, Store.deposit]
  split <;> rfl

/-- A rejected submission leaves the desk as it was. -/
theorem process_of_error {d : Desk} {raw : String} {found : Diagnostics}
    (h : (Review.ofRaw raw).outcome = .error found) :
    (d.process raw).result = .error (.invalid found) ∧
      (d.process raw).desk = d := by
  rw [process, Review.book_of_error d.ids h]
  exact ⟨rfl, rfl⟩

/-- The entries of an accepted submission are handed to the store. -/
theorem process_of_ok {d : Desk} {raw : String} {quotes : List Quote}
    (h : (Review.ofRaw raw).outcome = .ok quotes) :
    (d.process raw).result = (file { d with ids := d.ids.advance quotes.length }
      (Entry.label d.ids quotes)).result ∧
    (d.process raw).desk = (file { d with ids := d.ids.advance quotes.length }
      (Entry.label d.ids quotes)).desk := by
  rw [process, Review.book_of_ok d.ids h]
  exact ⟨rfl, rfl⟩

/-- Handing entries to the store draws no identifier. -/
theorem ids_file (d : Desk) (entries : List Entry) :
    (d.file entries).desk.ids = d.ids := by
  simp only [file]
  split
  next => rfl
  next => split <;> rfl

/-- A submission draws one identifier for each of its entries. -/
theorem ids_process (d : Desk) (raw : String) :
    (d.process raw).desk.ids =
      { d.ids with used := d.ids.used + (Review.ofRaw raw).entryCount } := by
  cases houtcome : (Review.ofRaw raw).outcome with
  | error found =>
      rw [(process_of_error houtcome).2, Review.entryCount_of_error houtcome]
      rfl
  | ok quotes =>
      rw [(process_of_ok houtcome).2, ids_file,
        Review.entryCount_of_ok houtcome]
      rfl

namespace InMemory

variable {d : Desk}

/-- The ledger has nothing to do with the source. -/
theorem inMemory_advance (h : d.InMemory) (n : Nat) :
    InMemory { d with ids := d.ids.advance n } where
  store_eq := h.store_eq
  consistent := h.consistent
  sound := h.sound

/-- Handing a batch to a ledger in memory keeps its new entries. -/
theorem kept_file (h : d.InMemory) (entries : List Entry) :
    (d.file entries).desk.kept = d.kept ++ Entry.newcomers d.kept entries := by
  rw [kept, file_desk h.store_eq]
  exact (h.consistent.deposit entries).2.1

/-- A desk stays in memory when sound entries are filed. -/
theorem inMemory_file (h : d.InMemory) {entries : List Entry}
    (hsound : ∀ e ∈ entries, e.quote.Sound) :
    (d.file entries).desk.InMemory where
  store_eq := by
    rw [file_desk h.store_eq]
    rfl
  consistent := by
    rw [file_desk h.store_eq]
    exact (h.consistent.deposit entries).1
  sound := by
    intro e he
    rw [h.kept_file, List.mem_append] at he
    rcases he with hold | hnew
    · exact h.sound e hold
    · exact hsound e ((Entry.newcomers_sublist d.kept entries).subset hnew)

/-- Filing succeeds if all entries are newcomers; otherwise the answer tells
both numbers. -/
theorem result_file (h : d.InMemory) (entries : List Entry) :
    (d.file entries).result =
      if (Entry.newcomers d.kept entries).length = entries.length then
        .ok entries
      else
        .error (.countMismatch entries.length
          (Entry.newcomers d.kept entries).length) := by
  rw [file_result h.store_eq, (h.consistent.deposit entries).2.2]
  rfl

/-- A desk with its ledger in memory stays one. -/
theorem inMemory_process (h : d.InMemory) (raw : String) :
    (d.process raw).desk.InMemory := by
  cases houtcome : (Review.ofRaw raw).outcome with
  | error found =>
      rw [(process_of_error houtcome).2]
      exact h
  | ok quotes =>
      have hbook := congrArg Prod.fst (Review.book_of_ok d.ids houtcome)
      rw [(process_of_ok houtcome).2]
      apply (h.inMemory_advance quotes.length).inMemory_file
      intro e he
      rcases Review.spells_of_mem hbook he with ⟨s, hs⟩
      exact hs.sound

/-- One submission to a desk with its ledger in memory. -/
theorem step_process (h : d.InMemory) {ids : IdSource} {n : Nat}
    (hids : d.ids = { ids with used := ids.used + n }) (raw : String) :
    d.Step ids n raw (d.process raw) := by
  have hsource : (d.process raw).desk.ids =
      { ids with used := ids.used + (n + (Review.ofRaw raw).entryCount) } := by
    rw [ids_process, hids]
    exact congrArg (IdSource.mk ids.supply) (Nat.add_assoc _ _ _)
  cases houtcome : (Review.ofRaw raw).outcome with
  | error found =>
      have hbook := congrArg Prod.fst (Review.book_of_error d.ids houtcome)
      rcases process_of_error (d := d) houtcome with ⟨hresult, hdesk⟩
      rw [Review.entryCount_of_error houtcome] at hsource
      exact .rejected hbook hresult hsource (congrArg kept hdesk)
  | ok quotes =>
      have hbook := congrArg Prod.fst (Review.book_of_ok d.ids houtcome)
      have hlength := Entry.length_label d.ids quotes
      have hnext := h.inMemory_advance quotes.length
      rcases process_of_ok (d := d) houtcome with ⟨hresult, hdesk⟩
      rw [Review.entryCount_of_ok houtcome, ← hlength] at hsource
      refine .accepted hbook ?_ hsource ?_ ?_
      · simp only [Entry.map_id_label, Entry.length_label, hids, IdSource.next]
      · rw [hdesk]
        exact hnext.kept_file _
      · rw [hresult]
        exact hnext.result_file _

end InMemory

/-! ## What a step tells -/

namespace Step

variable {ids : IdSource} {n : Nat} {d : Desk} {raw : String} {answer : Handled}

/-- A submission takes away no entry. -/
theorem kept_prefix (h : d.Step ids n raw answer) :
    d.kept <+: answer.desk.kept := by
  cases h with
  | rejected _ _ _ hkept =>
      exact ⟨[], by rw [List.append_nil, hkept]⟩
  | accepted _ _ _ hkept _ =>
      rw [hkept]
      exact List.prefix_append _ _

/-- Entries that are given back were all new, and are kept behind the others. -/
theorem kept_of_ok {entries : List Entry} (h : d.Step ids n raw answer)
    (hresult : answer.result = .ok entries) :
    answer.desk.kept = d.kept ++ entries := by
  cases h with
  | rejected _ hanswer _ _ =>
      rw [hanswer] at hresult
      cases hresult
  | @accepted booked _ _ _ hkept hanswer =>
      rw [hanswer] at hresult
      by_cases hall : (Entry.newcomers d.kept booked).length = booked.length
      · rw [if_pos hall] at hresult
        cases hresult
        rw [hkept, (Entry.newcomers_sublist d.kept entries).eq_of_length hall]
      · rw [if_neg hall] at hresult
        cases hresult

/-- A ledger in memory does not fail. -/
theorem result_ne_store (h : d.Step ids n raw answer) (error : StoreError) :
    answer.result ≠ .error (.store error) := by
  cases h with
  | rejected _ hanswer _ _ =>
      rw [hanswer]
      simp
  | accepted _ _ _ _ hanswer =>
      rw [hanswer]
      split <;> simp

/-- A submission with diagnostics is not booked. -/
theorem kept_of_rejected {found : Diagnostics} (h : d.Step ids n raw answer)
    (houtcome : (Review.ofRaw raw).outcome = .error found) :
    answer.desk.kept = d.kept := by
  cases h with
  | rejected _ _ _ hkept => exact hkept
  | accepted hbook _ _ _ _ =>
      rw [Review.book_of_error d.ids houtcome] at hbook
      cases hbook

/-- A submission without diagnostics is booked. -/
theorem exists_entries {quotes : List Quote} (h : d.Step ids n raw answer)
    (houtcome : (Review.ofRaw raw).outcome = .ok quotes) :
    ∃ entries : List Entry, entries.length = quotes.length ∧
      (entries.map Entry.id = (List.range entries.length).map
        fun i => ids.supply (ids.used + n + i)) ∧
      answer.desk.kept = d.kept ++ Entry.newcomers d.kept entries ∧
      answer.result =
        if (Entry.newcomers d.kept entries).length = entries.length then
          .ok entries
        else
          .error (.countMismatch entries.length
            (Entry.newcomers d.kept entries).length) := by
  cases h with
  | rejected hbook _ _ _ =>
      rw [Review.book_of_ok d.ids houtcome] at hbook
      cases hbook
  | accepted hbook hids _ hkept hresult =>
      rw [Review.book_of_ok d.ids houtcome] at hbook
      cases hbook
      exact ⟨_, Entry.length_label d.ids quotes, hids, hkept, hresult⟩

end Step

/-! ## Runs -/

/-- A run has drawn one identifier for each entry of its accepted
submissions. -/
theorem ids_after (d : Desk) (raws : List String) :
    (d.after raws).ids = { d.ids with used := d.ids.used + drawn raws } := by
  induction raws generalizing d with
  | nil => rfl
  | cons raw raws ih =>
      have hrest := ih (d.process raw).desk
      rw [ids_process, Nat.add_assoc] at hrest
      exact hrest

theorem inMemory_after {d : Desk} (h : d.InMemory) (raws : List String) :
    (d.after raws).InMemory := by
  induction raws generalizing d with
  | nil => exact h
  | cons raw raws ih => exact ih (h.inMemory_process raw)

/-- Entries are only added. -/
theorem kept_prefix_after {d : Desk} (h : d.InMemory) (raws : List String) :
    d.kept <+: (d.after raws).kept := by
  induction raws generalizing d with
  | nil => exact List.prefix_refl _
  | cons raw raws ih =>
      have hids : d.ids = { d.ids with used := d.ids.used + 0 } := rfl
      have hstep := h.step_process hids raw
      exact hstep.kept_prefix.trans (ih (h.inMemory_process raw))

/-- Submissions are handled one after the other. -/
theorem after_append (d : Desk) (before later : List String) :
    d.after (before ++ later) = (d.after before).after later :=
  List.foldl_append

/-- Each submission of a run is handled by the desk after those before it. -/
theorem getElem?_processAll (d : Desk) (before : List String) (raw : String)
    (later : List String) :
    (d.processAll (before ++ raw :: later))[before.length]? =
      some ((d.after before).process raw) := by
  induction before generalizing d with
  | nil => rfl
  | cons first before ih =>
      rw [List.cons_append, processAll, List.length_cons,
        List.getElem?_cons_succ]
      exact ih _

/-- Along every run from an empty ledger, a desk has drawn one identifier for
each entry of the submissions accepted so far.  Each submission is either
rejected and changes nothing, or booked under the identifiers that follow, as
`Step` says; the store never fails.  An entry that is given back is found under
its identifier after all later submissions, and what is kept makes sense. -/
theorem run_in_memory (ids : IdSource) (before : List String) (raw : String)
    (later : List String) :
    let d := (fresh ids).after before
    let answer := d.process raw
    let final := (fresh ids).after (before ++ raw :: later)
    ((fresh ids).processAll (before ++ raw :: later))[before.length]? =
      some answer ∧
    d.ids = { ids with used := ids.used + drawn before } ∧
    d.Step ids (drawn before) raw answer ∧
    (∀ error, answer.result ≠ .error (.store error)) ∧
    (∀ entries, answer.result = .ok entries →
      ∀ e ∈ entries, final.store.ledger.get? e.id = some e) ∧
    (∀ e ∈ final.kept, e.quote.Sound) := by
  intro d answer final
  have hids : d.ids = { ids with used := ids.used + drawn before } :=
    ids_after (fresh ids) before
  have hbefore : d.InMemory := inMemory_after (inMemory_fresh ids) before
  have hnext : answer.desk.InMemory := hbefore.inMemory_process raw
  have hstep := hbefore.step_process hids raw
  have hlater : final = answer.desk.after later := after_append _ before _
  have hfinal : final.InMemory := by
    rw [hlater]
    exact inMemory_after hnext later
  refine ⟨getElem?_processAll _ before raw later, hids, hstep,
    hstep.result_ne_store, ?_, hfinal.sound⟩
  intro entries hresult e he
  rw [hfinal.consistent.get?_eq_some_iff]
  have hkept : e ∈ answer.desk.kept := by
    rw [hstep.kept_of_ok hresult]
    exact List.mem_append_right _ he
  have hbegin : answer.desk.kept <+: final.kept := by
    rw [hlater]
    exact kept_prefix_after hnext later
  exact ⟨hbegin.subset hkept, rfl⟩

/-- Two identifiers take turns.  A rejected submission stands between two
accepted ones and draws none.  The second accepted submission has one entry
under the other identifier, which is kept, and one under the identifier of the
first entry, which is not; that first entry is still found. -/
theorem run_in_memory_partly_new :
    let ids := IdSource.cycle [.ofNat 7, .ofNat 9]
    let good := "USD-GBP \x7bBUY 1 SELL 2 CAP 3\x7d"
    let bad := "USD-GBP \x7bBUY x SELL 2 CAP 3\x7d"
    let two :=
      "EUR-JPY \x7bBUY 4 SELL 5 CAP 6\x7d EUR-CHF \x7bBUY 7 SELL 8 CAP 9\x7d"
    ∃ first second : Entry, first.id = .ofNat 7 ∧ second.id = .ofNat 9 ∧
      ((fresh ids).process good).result = .ok [first] ∧
      (((fresh ids).after [good, bad]).process two).result =
        .error (.countMismatch 2 1) ∧
      ((fresh ids).after [good, bad, two]).kept = [first, second] ∧
      ((fresh ids).after [good, bad, two]).store.ledger.get? (.ofNat 7) =
        some first := by
  intro ids good bad two
  -- What the reviews of the three submissions give, whatever the source.
  have hgood : (Review.ofRaw good).outcome = .ok (Review.ofRaw good).quotes :=
    Review.outcome_of_quotes (by decide +kernel)
  have hbad : (Review.ofRaw bad).outcome =
      .error (Review.ofRaw bad).diagnostics := by
    apply Review.outcome_of_diagnostics
    rw [Review.toList_diagnostics]
    decide +kernel
  have htwo : (Review.ofRaw two).outcome = .ok (Review.ofRaw two).quotes :=
    Review.outcome_of_quotes (by decide +kernel)
  have hone : (Review.ofRaw good).quotes.length = 1 := by decide +kernel
  have hpair : (Review.ofRaw two).quotes.length = 2 := by decide +kernel
  have hdrawn : drawn [good, bad] = 1 := by
    simp [drawn, Review.entryCount_of_ok hgood,
      Review.entryCount_of_error hbad, hone]
  have hapart : EntryId.ofNat 9 ≠ EntryId.ofNat 7 := by decide +kernel
  have hstart := run_in_memory ids [] good [bad, two]
  have hmiddle := run_in_memory ids [good] bad [two]
  have hend := run_in_memory ids [good, bad] two []
  rw [hdrawn] at hend
  rcases hstart.2.2.1.exists_entries hgood with
    ⟨entries, hlength, hids, hkept, hresult⟩
  rw [hone, List.length_eq_one_iff] at hlength
  rcases hlength with ⟨first, rfl⟩
  have hfirst : first.id = .ofNat 7 := (List.cons.inj hids).1
  rcases hend.2.2.1.exists_entries htwo with
    ⟨later, hlength', hids', hkept', hresult'⟩
  rw [hpair, List.length_eq_two] at hlength'
  rcases hlength' with ⟨second, third, rfl⟩
  have hsecond : second.id = .ofNat 9 := (List.cons.inj hids').1
  have hplace : third.id = ids.supply 2 :=
    (List.cons.inj (List.cons.inj hids').2).1
  have hthird : third.id = .ofNat 7 := hplace
  -- The ledger holds the first entry, then also the second.
  have hfresh : ((fresh ids).after []).kept = [] := Ledger.toList_empty
  rw [hfresh] at hkept hresult
  have hbefore : ((fresh ids).after [good, bad]).kept = [first] :=
    (hmiddle.2.2.1.kept_of_rejected hbad).trans hkept
  have hnew : Entry.newcomers [first] [second, third] = [second] := by
    simp [Entry.newcomers, hfirst, hsecond, hthird, hapart]
  rw [hbefore, hnew] at hkept' hresult'
  have hback : ((fresh ids).process good).result = .ok [first] := hresult
  have hfound := hstart.2.2.2.2.1 [first] hback first List.mem_cons_self
  rw [hfirst] at hfound
  exact ⟨first, second, hfirst, hsecond, hback, hresult', hkept', hfound⟩

end Desk

end RateDesk
