import RateDesk.Proofs.Review.Acceptance
import RateDesk.Proofs.Sheet.Escapes

/-!
# Statements on their own

A statement that a scan finds can be cut out of its text.  What stands around it
then no longer competes with it, and nothing new can: every occurrence in the
slice is one in the whole text.  The slice therefore has this statement and no
other, and a submission is the sum of its statements handed in one at a time.

Main results:

- Theorem `Statement.OccursIn.embed`: an occurrence in a part of a text is one
  in the text.
- Theorem `scan_slice`: a statement cut out of its text is found alone.
- Theorem `Review.bookAll_slices`: the slices of an accepted submission, handed
  in one after the other, give its entries.
- Theorem `Review.statements_self_contained`: both, for every text and every
  submission.
-/

namespace RateDesk

/-! ## Slices of a text -/

/-- An occurrence in a part of a text is one in the text, further right. -/
theorem Statement.OccursIn.embed {t : Statement} {middle : List Char}
    (h : t.OccursIn middle) (front back : List Char) :
    (t.shift (Text.byteSize front)).OccursIn (front ++ (middle ++ back)) := by
  rcases h.placed with ⟨before, after, hmiddle, hbefore⟩
  refine ⟨h.wellFormed, front ++ before, after ++ back, ?_, ?_⟩
  · simp [hmiddle]
  · rw [Text.byteSize_append, hbefore, shift_start]

theorem Statement.OccursIn.stop_le {t : Statement} {text : List Char}
    (h : t.OccursIn text) : t.stop ≤ Text.byteSize text := by
  rcases h.placed with ⟨before, after, htext, hbefore⟩
  rw [htext, Text.byteSize_append, Text.byteSize_append, stop, hbefore]
  omega

/-- No occurrence that starts with a selected statement has longer values. -/
theorem Selection.longest {text : List Char} {offset : Nat}
    {found : List Statement} (h : Selection text offset found) {s : Statement}
    (hs : s ∈ found) {t : Statement} (ht : t.OccursIn text)
    (hstart : t.start = s.start) : t.block.Below s.block := by
  induction h with
  | done _ => cases hs
  | step first _ ih =>
      rcases List.mem_cons.mp hs with rfl | hs
      · exact first.longest t ht hstart
      · exact ih hs

namespace Statement

/-- The same statement at the start of a text. -/
def alone (s : Statement) : Statement :=
  ⟨0, s.block⟩

theorem shift_alone (s : Statement) : s.alone.shift s.start = s := rfl

/-- Where a statement has the longest values that are possible, it is all that
its own text has. -/
theorem selection_alone {s : Statement} {text : List Char}
    (hs : s.OccursIn text)
    (hlongest : ∀ t : Statement, t.OccursIn text → t.start = s.start →
      t.block.Below s.block) :
    Selection s.block.text 0 [s.alone] := by
  have hoccurs : s.alone.OccursIn s.block.text :=
    ⟨hs.wellFormed, [], [], (List.append_nil _).symm, rfl⟩
  refine .step ⟨hoccurs, Nat.zero_le _, fun _ _ _ => Nat.zero_le _, ?_⟩
    (.done ?_)
  · -- A rival in the slice is a rival in the text.
    intro t ht hstart
    rcases hs.placed with ⟨before, after, htext, hbefore⟩
    have hrival := ht.embed before after
    rw [← htext] at hrival
    apply hlongest _ hrival
    rw [shift_start, hbefore, hstart]
    rfl
  · intro t ht hle
    have hinside := ht.stop_le
    have hpos := t.start_lt_stop
    have hwhole : s.alone.stop = Text.byteSize s.block.text := Nat.zero_add _
    omega

/-- A statement further right has the same fields further right. -/
theorem field_shift (s : Statement) (distance : Nat) (kind : FieldKind) :
    (s.shift distance).field kind =
      ⟨(s.field kind).text, distance + (s.field kind).offset⟩ := by
  cases kind with
  | currencyPair => rfl
  | buy => exact congrArg (Field.mk _) (Nat.add_assoc ..)
  | sell => exact congrArg (Field.mk _) (Nat.add_assoc ..)
  | cap => exact congrArg (Field.mk _) (Nat.add_assoc ..)

theorem text_field_alone (s : Statement) (kind : FieldKind) :
    (s.alone.field kind).text = (s.field kind).text :=
  (congrArg Field.text (s.alone.field_shift s.start kind)).symm

theorem stop_shift (s : Statement) (distance : Nat) :
    (s.shift distance).stop = distance + s.stop :=
  Nat.add_assoc ..

/-- A statement spells the same quote on its own. -/
theorem spells_alone {s : Statement} {q : Quote} :
    s.alone.Spells q ↔ s.Spells q := by
  constructor
  · intro h
    exact ⟨h.pair, h.buy, h.sell, h.cap⟩
  · intro h
    exact ⟨h.pair, h.buy, h.sell, h.cap⟩

/-- The part of a text between the ends of a statement. -/
def slice (s : Statement) (text : String) : String :=
  String.ofList ((Text.slice? s.start s.stop text.toList).getD [])

end Statement

section

variable {text : String} {s : Statement}

/-- The slice of a statement that is found is the text of its block. -/
theorem slice_of_mem_scan (hs : s ∈ scan text) :
    s.slice text = String.ofList s.block.text := by
  rw [Statement.slice, ((selection_scan text).occurs s hs).1.slice?_block]
  rfl

/-- A statement cut out of its text is found alone. -/
theorem scan_slice (hs : s ∈ scan text) : scan (s.slice text) = [s.alone] := by
  have hselection := selection_scan (s.slice text)
  rw [slice_of_mem_scan hs, String.toList_ofList] at hselection
  have halone := Statement.selection_alone ((selection_scan text).occurs s hs).1
    fun t ht hstart => (selection_scan text).longest hs ht hstart
  rw [slice_of_mem_scan hs]
  exact hselection.unique halone

end

/-! ## Slices of a submission -/

/-- Identifiers drawn in two parts are those drawn in one. -/
theorem IdSource.next_add (ids : IdSource) (m n : Nat) :
    ids.next (m + n) = ids.next m ++ (ids.advance m).next n := by
  simp [next, List.range_add, Nat.add_assoc]

/-- Two lists of quotes get the same identifiers together as one after the
other. -/
theorem Entry.label_append (ids : IdSource) (front back : List Quote) :
    label ids (front ++ back) =
      label ids front ++ label (ids.advance front.length) back := by
  rw [label, List.length_append, IdSource.next_add,
    List.zipWith_append (by simp)]
  rfl

namespace Review

/-- The parts of a sheet at which its statements stand. -/
def slices (raw : String) : List String :=
  (scan (Sheet.ofRaw raw).text).map (·.slice (Sheet.ofRaw raw).text)

/-- The outcomes of submissions that draw on one source, one after the other. -/
def bookAll (ids : IdSource) :
    List String → List (Except Diagnostics (List Entry))
  | [] => []
  | raw :: rest =>
      ((ofRaw raw).book ids).1 :: bookAll ((ofRaw raw).book ids).2 rest

section

variable {raw : String} {s : Statement}

/-- The statements of a slice of a sheet. -/
theorem scan_ofRaw_slice (hs : s ∈ scan (Sheet.ofRaw raw).text) :
    scan (Sheet.ofRaw (s.slice (Sheet.ofRaw raw).text)).text = [s.alone] := by
  have hoccurs := ((selection_scan _).occurs s hs).1
  rcases hoccurs.placed with ⟨before, after, htext, -⟩
  have hinfix : s.block.text <:+: (Sheet.ofRaw raw).chars := by
    rw [Sheet.text, String.toList_ofList] at htext
    exact ⟨before, after, by rw [htext, List.append_assoc]⟩
  have hsheet : (Sheet.ofRaw (s.slice (Sheet.ofRaw raw).text)).text =
      s.slice (Sheet.ofRaw raw).text := by
    rw [slice_of_mem_scan hs, Sheet.ofRaw_ofList hinfix]
    rfl
  rw [hsheet, scan_slice hs]

/-- The slice of an accepted statement is booked as one entry, under the next
identifier. -/
theorem book_slice (hs : s ∈ scan (Sheet.ofRaw raw).text) {q : Quote}
    (hq : s.Spells q) (ids : IdSource) :
    (ofRaw (s.slice (Sheet.ofRaw raw).text)).book ids =
      (.ok (Entry.label ids [q]), ids.advance 1) := by
  apply book_of_ok
  rw [outcome_eq_ok_iff, scan_ofRaw_slice hs]
  exact .cons (Statement.spells_alone.mpr hq) .nil

end

/-- Statements that spell quotes, handed in one after the other, give these
quotes under the identifiers that come next. -/
theorem bookAll_slices {raw : String} {statements : List Statement}
    {quotes : List Quote}
    (hspells : List.Forall₂ Statement.Spells statements quotes)
    (hfound : ∀ s ∈ statements, s ∈ scan (Sheet.ofRaw raw).text)
    (ids : IdSource) :
    bookAll ids (statements.map (·.slice (Sheet.ofRaw raw).text)) =
      (Entry.label ids quotes).map fun e => .ok [e] := by
  induction hspells generalizing ids with
  | nil => rfl
  | @cons s q statements quotes hq _ ih =>
      rcases List.forall_mem_cons.mp hfound with ⟨hs, hrest⟩
      have hlabel := Entry.label_append ids [q] quotes
      rw [List.map_cons, bookAll, book_slice hs hq, ih hrest]
      rw [List.singleton_append] at hlabel
      rw [hlabel, List.map_append]
      rfl

/-- Each statement that a scan finds is found again in its slice of the text,
alone and as far from its start.  A submission is accepted exactly when each of
its slices is, and its entries are then those of the slices, handed in one after
the other. -/
theorem statements_self_contained (text raw : String) (ids other : IdSource) :
    (∀ s ∈ scan text, Text.slice? s.start s.stop text.toList =
      some (s.slice text).toList ∧
      ∃ t, scan (s.slice text) = [t] ∧ t.start = 0 ∧ t.shift s.start = s ∧
        s.stop = s.start + t.stop ∧
        ∀ kind, s.field kind =
          ⟨(t.field kind).text, s.start + (t.field kind).offset⟩) ∧
    ((∃ entries, ((ofRaw raw).book ids).1 = .ok entries) ↔
      ∀ slice ∈ slices raw, ∃ entries,
        ((ofRaw slice).book other).1 = .ok entries) ∧
    (∀ entries, ((ofRaw raw).book ids).1 = .ok entries →
      ∃ parts : List (List Entry),
        bookAll ids (slices raw) = parts.map .ok ∧
        parts.flatten = entries) := by
  refine ⟨?_, ?_, ?_⟩
  · intro s hs
    have hslice := ((selection_scan text).occurs s hs).1.slice?_block
    refine ⟨?_, s.alone, scan_slice hs, rfl, s.shift_alone,
      s.alone.stop_shift s.start, s.alone.field_shift s.start⟩
    rw [hslice, slice_of_mem_scan hs, String.toList_ofList]
  · rw [exists_book_eq_ok_iff, slices, List.forall_mem_map]
    apply forall₂_congr
    intro s hs
    rw [exists_book_eq_ok_iff, scan_ofRaw_slice hs, List.forall_mem_singleton]
    simp only [Statement.text_field_alone]
  · intro entries hbook
    rcases exists_quotes (accepts_of_book hbook) with ⟨quotes, hspells⟩
    rw [book_of_ok ids (outcome_eq_ok_iff.mpr hspells),
      Except.ok.injEq] at hbook
    refine ⟨entries.map fun e => [e], ?_, ?_⟩
    · rw [slices, bookAll_slices hspells (fun s hs => hs), hbook, List.map_map]
      rfl
    · rw [← List.flatMap_def, List.flatMap_singleton']

/-- The limit in the first text takes in a closing brace, as another one
follows; so it does in the slice.  In the second text one of two statements has
an escaped line feed. -/
theorem statements_self_contained_two_slices :
    (∃ s ∈ scan "€ A-B\x7bBUY 1 SELL 2 CAP 3\x7d \x7d", s.cap.text = "3\x7d" ∧
      s.start = 4 ∧
      ∃ t, scan (s.slice "€ A-B\x7bBUY 1 SELL 2 CAP 3\x7d \x7d") = [t] ∧
        t.start = 0 ∧
        s.cap = ⟨t.cap.text, s.start + t.cap.offset⟩) ∧
    ∃ (entries : List Entry) (parts : List (List Entry)),
      ((ofRaw
        "€ USD-GBP\x7bBUY 1 SELL 2 CAP 3\x7d EUR-JPY\x7bBUY 4\\nSELL 5CAP 6\x7d").book
        .counting).1 = .ok entries ∧
      bookAll .counting ["USD-GBP\x7bBUY 1 SELL 2 CAP 3\x7d",
        "EUR-JPY\x7bBUY 4\nSELL 5CAP 6\x7d"] =
        parts.map .ok ∧ parts.flatten = entries ∧
      entries.map (fun e => (e.id.toNat, e.quote.pair.text)) =
        [(1, "USD-GBP"), (2, "EUR-JPY")] := by
  let text := "€ A-B\x7bBUY 1 SELL 2 CAP 3\x7d \x7d"
  let raw :=
    "€ USD-GBP\x7bBUY 1 SELL 2 CAP 3\x7d EUR-JPY\x7bBUY 4\\nSELL 5CAP 6\x7d"
  have hself := statements_self_contained text raw .counting .counting
  constructor
  · have hfound : ∃ s ∈ scan text, s.cap.text = "3\x7d" ∧ s.start = 4 := by
      decide +kernel
    rcases hfound with ⟨s, hs, hcap, hstart⟩
    rcases (hself.1 s hs).2 with ⟨t, ht, hzero, -, -, hfield⟩
    exact ⟨s, hs, hcap, hstart, t, ht, hzero, hfield .cap⟩
  · have hslices : slices raw =
        ["USD-GBP\x7bBUY 1 SELL 2 CAP 3\x7d",
          "EUR-JPY\x7bBUY 4\nSELL 5CAP 6\x7d"] := by
      decide +kernel
    have hquotes : (ofRaw raw).statements.map Statement.quote? =
        (ofRaw raw).quotes.map some := by
      decide +kernel
    have hbook := book_of_ok .counting (outcome_of_quotes hquotes)
    rcases hself.2.2 _ (congrArg Prod.fst hbook) with ⟨parts, hparts, hentries⟩
    rw [hslices] at hparts
    refine ⟨_, parts, congrArg Prod.fst hbook, hparts, hentries, ?_⟩
    decide +kernel

end Review

end RateDesk
