import RateDesk.Proofs.Review.Slices

/-!
# Identifiers along a run

Submissions that draw on one source of identifiers are reviewed one after the
other.  A submission that is accepted draws one identifier for each entry; one
that is rejected draws none.  The identifiers of all entries of a run are
therefore the next ones of the source without a break, and a rejected submission
could as well not have been handed in.

A seed determines a key stream, and its identifiers are cut from the stream
sixteen bytes at a time.

Main results:

- Theorem `Review.book_draws`: what one submission draws.
- Theorem `Review.map_id_booked`: the identifiers of a run.
- Theorem `Review.bookAll_marked`: a run without some of its rejected
  submissions.
- Theorem `KeyStream.getElem?_entryId`: where the bytes of a generated
  identifier come from.
- Theorem `Review.identifiers_drawn_in_order`: all of this for every source and
  every run.
-/

namespace RateDesk

/-! ## Generated identifiers -/

/-- A byte of an identifier after the version and the variant are written: only
the upper half of byte six and the upper two bits of byte eight change. -/
def EntryId.stampByte (place : Nat) (b : UInt8) : UInt8 :=
  if place = 6 then (b &&& 0x0f) ||| 0x40
  else if place = 8 then (b &&& 0x3f) ||| 0x80
  else b

/-- Stamping changes each byte by its place only. -/
theorem EntryId.getElem?_stamp (id : EntryId) (place : Nat) :
    id.stamp.bytes[place]? = id.bytes[place]?.map (stampByte place) := by
  simp only [stamp, List.getElem?_modify]
  cases id.bytes[place]? with
  | none => rfl
  | some b =>
      by_cases hsix : place = 6
      · simp [hsix, stampByte]
      · by_cases height : place = 8
        · simp [height, stampByte]
        · simp [stampByte, hsix, height, Ne.symm hsix, Ne.symm height]

namespace KeyStream

theorem length_block (key : Key) (counter : Nat) :
    (block key counter).length = 64 := by
  simp [block, wordBytes, List.length_flatMap]

/-- The stream is its blocks, one behind the other. -/
theorem getElem?_block (key : Key) (n : Nat) :
    (block key (n / 64))[n % 64]? = some (byte key n) := by
  have hlt : n % 64 < (block key (n / 64)).length := by
    rw [length_block]
    exact Nat.mod_lt n (by decide)
  simp [byte, List.getD_eq_getElem?_getD, hlt]

/-- A generated identifier is sixteen bytes of the stream in a row, stamped. -/
theorem getElem?_entryId (key : Key) (i : Nat) {place : Nat}
    (hplace : place < 16) :
    (entryId key i).bytes[place]? =
      some (EntryId.stampByte place (byte key (16 * i + place))) := by
  have hblock : (16 * i + place) / 64 = i / 4 := by omega
  have hinside : (16 * i + place) % 64 = 16 * (i % 4) + place := by omega
  rw [entryId, EntryId.getElem?_stamp, byte, hblock, hinside]
  simp [hplace]

end KeyStream

/-! ## Runs -/

/-- The elements of a list that have a mark. -/
def marked {α : Type} (marks : List Bool) (xs : List α) : List α :=
  ((marks.zip xs).filter Prod.fst).map Prod.snd

namespace Review

/-- The entries of the accepted submissions of a run, in order. -/
def booked (ids : IdSource) (raws : List String) : List Entry :=
  (bookAll ids raws).flatMap fun outcome => outcome.toOption.getD []

/-- A rejected submission draws no identifier, an accepted one the next
identifier for each of its entries. -/
theorem book_draws (r : Review) (ids : IdSource) :
    (∃ found, r.book ids = (.error found, ids)) ∨
      ∃ entries, r.book ids = (.ok entries, ids.advance entries.length) ∧
        entries.map Entry.id = ids.next entries.length := by
  cases houtcome : r.outcome with
  | error found => exact Or.inl ⟨found, book_of_error ids houtcome⟩
  | ok quotes =>
      right
      refine ⟨Entry.label ids quotes, ?_, ?_⟩
      · rw [book_of_ok ids houtcome, Entry.length_label]
      · exact (Entry.eq_label_iff.mp rfl).2

/-- The source is as it was before a rejected submission. -/
theorem book_snd_of_rejected {r : Review} {ids : IdSource} {found : Diagnostics}
    (h : (r.book ids).1 = .error found) : (r.book ids).2 = ids := by
  rcases r.book_draws ids with ⟨_, hbook⟩ | ⟨entries, hbook, -⟩
  · rw [hbook]
  · rw [hbook] at h
    cases h

/-- The identifiers of a run are the next ones of its source. -/
theorem map_id_booked (ids : IdSource) (raws : List String) :
    (booked ids raws).map Entry.id = ids.next (booked ids raws).length := by
  induction raws generalizing ids with
  | nil => rfl
  | cons raw raws ih =>
      rcases book_draws (ofRaw raw) ids with
        ⟨found, hbook⟩ | ⟨entries, hbook, hids⟩
      · have hrest : booked ids (raw :: raws) = booked ids raws := by
          rw [booked, bookAll, hbook]
          rfl
        rw [hrest]
        exact ih ids
      · have hrest : booked ids (raw :: raws) =
            entries ++ booked (ids.advance entries.length) raws := by
          rw [booked, bookAll, hbook]
          rfl
        rw [hrest, List.map_append, List.length_append,
          IdSource.next_add, hids, ih]

/-- Without some of the submissions that are rejected, a run has the same
outcomes for the others. -/
theorem bookAll_marked {ids : IdSource} {raws : List String} {marks : List Bool}
    (hlength : marks.length = raws.length)
    (hrejected : ∀ x ∈ marks.zip (bookAll ids raws), x.1 = false →
      ∃ found, x.2 = .error found) :
    bookAll ids (marked marks raws) = marked marks (bookAll ids raws) := by
  induction raws generalizing ids marks with
  | nil =>
      have hnil : marks = [] := List.length_eq_zero_iff.mp hlength
      rw [hnil]
      rfl
  | cons raw raws ih =>
      rcases List.exists_cons_of_length_eq_add_one hlength with
        ⟨mark, marks, rfl⟩
      rw [bookAll, List.zip_cons_cons, List.forall_mem_cons] at hrejected
      have hrest := ih (Nat.succ.inj hlength) hrejected.2
      cases mark with
      | true => exact congrArg (List.cons ((ofRaw raw).book ids).1) hrest
      | false =>
          rcases hrejected.1 rfl with ⟨found, hfound⟩
          have hids := book_snd_of_rejected hfound
          rw [hids] at hrest
          rw [bookAll, hids]
          exact hrest

/-- The identifiers of the entries of a run are the next ones of its source, in
order and without a break, so that leaving out rejected submissions changes
nothing about the others.  With a seeded source, identifier number `i` is the
bytes of the key stream from `16 * i` on, with nothing but its version and its
variant written over. -/
theorem identifiers_drawn_in_order (raws : List String) :
    (∀ ids : IdSource, (booked ids raws).map Entry.id =
      (List.range (booked ids raws).length).map fun i =>
        ids.supply (ids.used + i)) ∧
    (∀ (ids : IdSource) (marks : List Bool), marks.length = raws.length →
      (∀ x ∈ marks.zip (bookAll ids raws), x.1 = false →
        ∃ found, x.2 = .error found) →
      bookAll ids (marked marks raws) = marked marks (bookAll ids raws)) ∧
    (∀ (seed : UInt64) (i : Nat) (e : Entry),
      (booked (.seeded seed) raws)[i]? = some e →
      (∀ place < 16, e.id.bytes[place]? = some (EntryId.stampByte place
        (KeyStream.byte (.ofSeed seed) (16 * i + place)))) ∧
      e.id.version = 4 ∧ e.id.variant = 2) ∧
    (∀ (seed : UInt64) (n : Nat),
      (KeyStream.block (.ofSeed seed) (n / 64))[n % 64]? =
      some (KeyStream.byte (.ofSeed seed) n)) := by
  refine ⟨fun ids => map_id_booked ids raws,
    fun ids marks => bookAll_marked, ?_,
    fun seed n => KeyStream.getElem?_block _ n⟩
  intro seed i e he
  have hid : e.id = KeyStream.entryId (.ofSeed seed) i := by
    have hids := congrArg (·[i]?) (map_id_booked (.seeded seed) raws)
    have hi : i < (booked (.seeded seed) raws).length :=
      (List.getElem?_eq_some_iff.mp he).1
    simp only [List.getElem?_map, he, IdSource.next,
      List.getElem?_range hi] at hids
    have hsupply := Option.some.inj hids
    rw [hsupply]
    exact congrArg (KeyStream.entryId _) (Nat.zero_add i)
  rw [hid]
  exact ⟨fun place hplace => KeyStream.getElem?_entryId _ i hplace,
    EntryId.stamp_version _, EntryId.stamp_variant _⟩

/-- A rejected submission stands before one with two statements.  Without it the
entries are the same, and the second identifier starts with byte sixteen of the
key stream. -/
theorem identifiers_drawn_behind_rejection :
    ∃ (found : Diagnostics) (first second : Entry),
      bookAll (.seeded 5) ["USD-GBP \x7bBUY x SELL 2 CAP 3\x7d",
        "USD-GBP \x7bBUY 1 SELL 2 CAP 3\x7d EUR-JPY \x7bBUY 4 SELL 5 CAP 6\x7d"] =
          [.error found, .ok [first, second]] ∧
      bookAll (.seeded 5)
        ["USD-GBP \x7bBUY 1 SELL 2 CAP 3\x7d EUR-JPY \x7bBUY 4 SELL 5 CAP 6\x7d"] =
          [.ok [first, second]] ∧
      second.id.bytes[0]? = some (KeyStream.byte (.ofSeed 5) 16) ∧
      second.id.version = 4 := by
  let bad := "USD-GBP \x7bBUY x SELL 2 CAP 3\x7d"
  let good :=
    "USD-GBP \x7bBUY 1 SELL 2 CAP 3\x7d EUR-JPY \x7bBUY 4 SELL 5 CAP 6\x7d"
  let ids := IdSource.seeded 5
  have hne : (ofRaw bad).located ≠ [] := by decide +kernel
  have hbad : ((ofRaw bad).book ids).1 = .error (ofRaw bad).diagnostics :=
    book_eq_error_iff.mpr ⟨rfl, by rwa [toList_diagnostics]⟩
  have hquotes : (ofRaw good).statements.map Statement.quote? =
      (ofRaw good).quotes.map some := by
    decide +kernel
  have hgood := book_of_ok ids (outcome_of_quotes hquotes)
  have htwo : (Entry.label ids (ofRaw good).quotes).length = 2 := by
    rw [Entry.length_label]
    decide +kernel
  rcases List.length_eq_two.mp htwo with ⟨first, second, hentries⟩
  have hrun : bookAll ids [bad, good] =
      [.error (ofRaw bad).diagnostics, .ok [first, second]] := by
    simp only [bookAll, hbad, book_snd_of_rejected hbad, hgood, hentries]
  have horder := identifiers_drawn_in_order [bad, good]
  have hwithout := horder.2.1 ids [false, true] rfl (by simp [hrun])
  have hsecond := horder.2.2.1 5 1 second (by
    rw [booked, hrun]
    rfl)
  rw [hrun] at hwithout
  exact ⟨_, first, second, hrun, hwithout, hsecond.1 0 (by decide), hsecond.2.1⟩

end Review

end RateDesk
