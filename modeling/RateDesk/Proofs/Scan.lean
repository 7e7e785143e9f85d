import RateDesk.Quote
import RateDesk.Proofs.Block.Grammar

/-!
# Scanning and the grammar

Which statements a scan finds is said here without the reader: an occurrence is
a place in the text where a block of the grammar stands, and a scan selects
occurrences from left to right.  Each selected one starts as early as possible
behind the last, has the longest buying value among those that start there, then
the longest selling value, then the longest limit.

Main results:

- Theorem `Statement.FirstFrom.unique`: at each point there is at most one
  occurrence to select.
- Theorem `selection_scan`: a scan selects occurrences in this way.
- Theorem `scan_leftmost_longest`: the statements of a text are exactly the
  selected occurrences, they lie apart and in order, and every occurrence starts
  inside one of them.
-/

namespace RateDesk

namespace Statement

/-- A statement occurs in a text if its block follows the grammar and stands at
its offset. -/
structure OccursIn (s : Statement) (text : List Char) : Prop where
  wellFormed : s.block.WellFormed
  placed : ∃ before after, text = before ++ (s.block.text ++ after) ∧
    Text.byteSize before = s.start

/-- The occurrence to select from an offset on: the first one, and among those
that start there the one with the longest values. -/
structure FirstFrom (s : Statement) (text : List Char)
    (offset : Nat) : Prop where
  occurs : s.OccursIn text
  behind : offset ≤ s.start
  /-- No occurrence starts earlier. -/
  leftmost : ∀ t : Statement, t.OccursIn text → offset ≤ t.start →
    s.start ≤ t.start
  /-- No occurrence that starts there has longer values. -/
  longest : ∀ t : Statement, t.OccursIn text → t.start = s.start →
    t.block.Below s.block

theorem start_lt_stop (s : Statement) : s.start < s.stop := by
  have hpos := Text.byteSize_pos s.block.text_ne_nil
  simp only [stop]
  omega

/-- An occurrence behind the start of a text is an occurrence in the rest. -/
theorem OccursIn.split {s : Statement} {before rest : List Char}
    (h : s.OccursIn (before ++ rest)) (hle : Text.byteSize before ≤ s.start) :
    ∃ middle after, rest = middle ++ (s.block.text ++ after) ∧
      s.start = Text.byteSize before + Text.byteSize middle := by
  rcases h.placed with ⟨front, after, htext, hstart⟩
  rw [← hstart] at hle
  rcases Text.append_of_byteSize_le htext hle with ⟨middle, rfl, hrest⟩
  exact ⟨middle, after, hrest, by rw [← hstart, Text.byteSize_append]⟩

/-- Occurrences with the same start are followed by the same text. -/
theorem OccursIn.same_text {s t : Statement} {text : List Char}
    (hs : s.OccursIn text) (ht : t.OccursIn text) (hstart : s.start = t.start) :
    ∃ tail back, s.block.text ++ tail = t.block.text ++ back := by
  rcases hs.placed with ⟨before, after, rfl, hbefore⟩
  rcases ht.split (by omega) with ⟨middle, back, hrest, hmiddle⟩
  have hnil : middle = [] := by
    rw [← Text.byteSize_eq_zero_iff]
    omega
  subst hnil
  exact ⟨after, back, hrest⟩

/-- At each point there is at most one occurrence to select. -/
theorem FirstFrom.unique {s t : Statement} {text : List Char} {offset : Nat}
    (hs : s.FirstFrom text offset) (ht : t.FirstFrom text offset) : s = t := by
  have hstart : s.start = t.start :=
    Nat.le_antisymm (hs.leftmost t ht.occurs ht.behind)
      (ht.leftmost s hs.occurs hs.behind)
  rcases hs.occurs.same_text ht.occurs hstart with ⟨tail, back, htext⟩
  have hblock : s.block = t.block :=
    Block.read?_maximal.rigid hs.occurs.wellFormed ht.occurs.wellFormed htext
      (ht.longest s hs.occurs hstart) (hs.longest t ht.occurs hstart.symm)
  cases s
  cases t
  rw [Statement.mk.injEq]
  exact ⟨hstart, hblock⟩

end Statement

/-- The occurrences selected from an offset on: each is the first one behind the
last, until there is none. -/
inductive Selection (text : List Char) : Nat → List Statement → Prop
  | done {offset : Nat}
      (none_left : ∀ t : Statement, t.OccursIn text → ¬offset ≤ t.start) :
      Selection text offset []
  | step {offset : Nat} {s : Statement} {rest : List Statement}
      (first : s.FirstFrom text offset) (behind : Selection text s.stop rest) :
      Selection text offset (s :: rest)

namespace Selection

variable {text : List Char} {offset : Nat} {found : List Statement}

/-- There is one selection from each offset. -/
theorem unique {other : List Statement} (h : Selection text offset found)
    (hother : Selection text offset other) : found = other := by
  induction h generalizing other with
  | done none_left =>
      cases hother with
      | done _ => rfl
      | step first _ => exact absurd first.behind (none_left _ first.occurs)
  | step first _ ih =>
      cases hother with
      | done none_left => exact absurd first.behind (none_left _ first.occurs)
      | step first' behind' =>
          have hsame := first.unique first'
          subst hsame
          rw [ih behind']

/-- The statements selected from an offset on occur in the text, at or behind
the offset. -/
theorem occurs (h : Selection text offset found) :
    ∀ s ∈ found, s.OccursIn text ∧ offset ≤ s.start := by
  induction h with
  | done _ => simp
  | @step offset s rest first _ ih =>
      intro t ht
      rcases List.mem_cons.mp ht with rfl | ht
      · exact ⟨first.occurs, first.behind⟩
      · rcases ih t ht with ⟨hoccurs, hle⟩
        have hs := s.start_lt_stop
        have hbehind := first.behind
        exact ⟨hoccurs, by omega⟩

/-- The statements selected do not overlap. -/
theorem pairwise (h : Selection text offset found) :
    found.Pairwise fun s t => s.stop ≤ t.start := by
  induction h with
  | done _ => exact List.Pairwise.nil
  | step _ behind ih =>
      refine List.Pairwise.cons ?_ ih
      intro t ht
      exact (behind.occurs t ht).2

/-- Every occurrence behind the offset starts inside a selected statement. -/
theorem covers (h : Selection text offset found) {t : Statement}
    (ht : t.OccursIn text) (hle : offset ≤ t.start) :
    ∃ s ∈ found, s.start ≤ t.start ∧ t.start < s.stop := by
  induction h with
  | done none_left => exact absurd hle (none_left t ht)
  | @step offset s rest first _ ih =>
      by_cases hin : t.start < s.stop
      · exact ⟨s, List.mem_cons_self, first.leftmost t ht hle, hin⟩
      · rcases ih (by omega) with ⟨u, hu, hcovers⟩
        exact ⟨u, List.mem_cons_of_mem s hu, hcovers⟩

end Selection

namespace Segment

/-- Where no segment is found, no block can be read anywhere. -/
theorem read?_of_first?_eq_none {s : List Char} (h : first? s = none) :
    ∀ middle rest, s = middle ++ rest → Block.read? rest = none := by
  induction s with
  | nil =>
      intro middle rest hs
      rw [(List.append_eq_nil_iff.mp hs.symm).2]
      rfl
  | cons c s ih =>
      intro middle rest hs
      simp only [first?] at h
      split at h
      next => simp at h
      next hread =>
        rw [Option.map_eq_none_iff] at h
        cases middle with
        | nil =>
            rw [List.nil_append] at hs
            rw [← hs]
            exact hread
        | cons d middle =>
            simp only [List.cons_append, List.cons.injEq] at hs
            exact ih h middle rest hs.2

/-- The first segment ends with the block that is read behind its gap, and
wherever else a block can be read, the gap stands before it. -/
theorem read?_of_first? {s tail : List Char} {g : Segment}
    (h : first? s = some (g, tail)) :
    Block.read? (g.block.text ++ tail) = some (g.block, tail) ∧
      ∀ middle rest, s = middle ++ rest → Block.read? rest ≠ none →
        g.gap <+: middle := by
  induction s generalizing g with
  | nil => simp [first?] at h
  | cons c s ih =>
      simp only [first?] at h
      split at h
      next block back hread =>
        simp only [Option.some.injEq, Prod.mk.injEq] at h
        rcases h with ⟨rfl, rfl⟩
        rw [← Block.read?_exact hread]
        exact ⟨hread, fun middle _ _ _ => List.nil_prefix⟩
      next hread =>
        rcases Option.map_eq_some_iff.mp h with ⟨⟨g', back⟩, hfound, heq⟩
        simp only [Prod.mk.injEq] at heq
        rcases heq with ⟨rfl, rfl⟩
        rcases ih hfound with ⟨hblock, hgap⟩
        refine ⟨hblock, ?_⟩
        intro middle rest hs hrest
        cases middle with
        | nil =>
            rw [List.nil_append] at hs
            rw [← hs] at hrest
            exact absurd hread hrest
        | cons d middle =>
            simp only [List.cons_append, List.cons.injEq] at hs
            rw [List.cons_prefix_cons]
            exact ⟨hs.1, hgap middle rest hs.2 hrest⟩

/-- Every occurrence in a text stands behind the first gap. -/
theorem occurrence_behind_gap {before rest tail : List Char} {g : Segment}
    (h : first? rest = some (g, tail)) {t : Statement}
    (ht : t.OccursIn (before ++ rest)) (hle : Text.byteSize before ≤ t.start) :
    ∃ middle after, g.block.text ++ tail = middle ++ (t.block.text ++ after) ∧
      t.start = Text.byteSize before + Text.byteSize g.gap +
        Text.byteSize middle := by
  rcases ht.split hle with ⟨front, after, hfront, hstart⟩
  have hread : Block.read? (t.block.text ++ after) ≠ none := by
    rcases Block.read?_maximal.complete after ht.wellFormed with
      ⟨b, back, hsome, -⟩
    rw [hsome]
    simp
  rcases (read?_of_first? h).2 front _ hfront hread with ⟨middle, rfl⟩
  refine ⟨middle, after, ?_, ?_⟩
  · rw [first?_exact h, Segment.text, List.append_assoc,
      List.append_assoc] at hfront
    exact List.append_cancel_left hfront
  · rw [hstart, Text.byteSize_append]
    omega

/-- The block of the first segment is the occurrence to select. -/
theorem firstFrom_of_first? {before rest tail : List Char} {g : Segment}
    (h : first? rest = some (g, tail)) :
    Statement.FirstFrom ⟨Text.byteSize before + Text.byteSize g.gap, g.block⟩
      (before ++ rest) (Text.byteSize before) := by
  have hread := (read?_of_first? h).1
  refine ⟨⟨Block.wellFormed_of_read? hread, before ++ g.gap, tail, ?_, ?_⟩, ?_,
    ?_, ?_⟩
  · rw [first?_exact h, Segment.text]
    simp
  · exact Text.byteSize_append before g.gap
  · exact Nat.le_add_right _ _
  · intro t ht hle
    rcases occurrence_behind_gap h ht hle with ⟨middle, after, -, hstart⟩
    rw [hstart]
    exact Nat.le_add_right _ _
  · intro t ht hstart
    simp only at hstart
    rcases occurrence_behind_gap h ht (by omega) with
      ⟨middle, after, htext, hmiddle⟩
    have hnil : middle = [] := by
      rw [← Text.byteSize_eq_zero_iff]
      omega
    subst hnil
    rw [List.nil_append] at htext
    rcases Block.read?_maximal.complete after ht.wellFormed with
      ⟨b, back, hsome, hbelow⟩
    rw [← htext, hread] at hsome
    simp only [Option.some.injEq, Prod.mk.injEq] at hsome
    rw [hsome.1]
    exact hbelow

end Segment

/-- Reading a layout selects occurrences from where it starts. -/
theorem selection_statements (before rest : List Char) :
    Selection (before ++ rest) (Text.byteSize before)
      (Segment.statements (Text.byteSize before)
        (Layout.read rest).segments) := by
  fun_induction Layout.read rest generalizing before with
  | case1 rest h =>
      refine .done ?_
      intro t ht hle
      rcases ht.split hle with ⟨middle, after, hrest, -⟩
      have hnone := Segment.read?_of_first?_eq_none h middle _ hrest
      rcases Block.read?_maximal.complete after ht.wellFormed with
        ⟨b, back, hsome, -⟩
      rw [hnone] at hsome
      simp at hsome
  | case2 rest g tail h behind ih =>
      refine .step (Segment.firstFrom_of_first? h) ?_
      have hrest : before ++ rest =
          (before ++ g.gap ++ g.block.text) ++ tail := by
        rw [Segment.first?_exact h, Segment.text]
        simp
      have hstop :
          Statement.stop ⟨Text.byteSize before + Text.byteSize g.gap, g.block⟩ =
          Text.byteSize (before ++ g.gap ++ g.block.text) := by
        simp only [Statement.stop, Text.byteSize_append]
      rw [hrest, hstop]
      exact ih (before ++ g.gap ++ g.block.text)

/-- The statements found are those selected from the start of the text. -/
theorem selection_scan (text : String) : Selection text.toList 0 (scan text) :=
  selection_statements [] text.toList

/-! ## The places of fields -/

/-- A field stands in a text if its characters are found at its offset. -/
def Field.StandsIn (f : Field) (text : List Char) : Prop :=
  ∃ front back, text = front ++ (f.text.toList ++ back) ∧
    Text.byteSize front = f.offset

/-- The slice of a field is its text. -/
theorem Field.StandsIn.slice? {f : Field} {text : List Char}
    (h : f.StandsIn text) :
    Text.slice? f.offset (f.offset + Text.byteSize f.text.toList) text =
      some f.text.toList := by
  rcases h with ⟨front, back, rfl, hfront⟩
  rw [← hfront]
  exact Text.slice?_append front f.text.toList back

namespace Statement.OccursIn

variable {s : Statement} {text : List Char}

theorem slice?_block (h : s.OccursIn text) :
    Text.slice? s.start s.stop text = some s.block.text := by
  rcases h.placed with ⟨before, after, rfl, hbefore⟩
  rw [stop, ← hbefore]
  exact Text.slice?_append before s.block.text after

/-- The value of a clause stands behind the text before it. -/
theorem valueAfter_standsIn {front back : List Char} {c : Clause}
    (htext : s.block.text = front ++ (c.text ++ back)) (h : s.OccursIn text) :
    (s.valueAfter front c).StandsIn text := by
  rcases h.placed with ⟨before, after, rfl, hbefore⟩
  refine ⟨before ++ (front ++ c.keyword ++ c.gap),
    c.trail ++ (back ++ after), ?_, ?_⟩
  · rw [htext]
    simp [Clause.text, valueAfter]
  · rw [Text.byteSize_append, hbefore]
    rfl

theorem field_standsIn (h : s.OccursIn text) (kind : FieldKind) :
    (s.field kind).StandsIn text := by
  cases kind with
  | currencyPair =>
      rcases h.placed with ⟨before, after, rfl, hbefore⟩
      refine ⟨before, s.block.lead ++ '{' :: (s.block.inner ++
        (Reader.bodyText s.block.clauses ++ after)), ?_, hbefore⟩
      rw [Block.text_append]
      simp [field, pair]
  | buy =>
      apply valueAfter_standsIn _ h
      · exact s.block.sell.text ++ (s.block.cap.text ++ ['}'])
      · simp [Block.text]
  | sell =>
      apply valueAfter_standsIn _ h
      · exact s.block.cap.text ++ ['}']
      · simp [Block.text]
  | cap =>
      apply valueAfter_standsIn _ h
      · exact ['}']
      · simp [Block.text]

end Statement.OccursIn

/-- The statements of a text are the occurrences that are selected from left to
right: each starts as early as possible behind the last one, and has the longest
buying value, then the longest selling value, then the longest limit that are
possible there.  The pair stands at the start of its statement, and each value
behind its keyword and the blanks that follow it; blocks and fields are slices
of the text.  The statements lie apart and in order, and every occurrence starts
inside one of them. -/
theorem scan_leftmost_longest (text : String) :
    (∀ found, scan text = found ↔ Selection text.toList 0 found) ∧
    (∀ s ∈ scan text,
      s.start < s.stop ∧
      s.stop = s.start + Text.byteSize s.block.text ∧
      Text.slice? s.start s.stop text.toList = some s.block.text ∧
      s.pair = ⟨String.ofList s.block.pair, s.start⟩ ∧
      s.buy = ⟨String.ofList s.block.buy.value, s.start + Text.byteSize
        (s.block.head ++ s.block.buy.keyword ++ s.block.buy.gap)⟩ ∧
      s.sell = ⟨String.ofList s.block.sell.value, s.start + Text.byteSize
        (s.block.head ++ s.block.buy.text ++ s.block.sell.keyword ++
          s.block.sell.gap)⟩ ∧
      s.cap = ⟨String.ofList s.block.cap.value, s.start + Text.byteSize
        (s.block.head ++ s.block.buy.text ++ s.block.sell.text ++
          s.block.cap.keyword ++ s.block.cap.gap)⟩ ∧
      ∀ kind, Text.slice? (s.field kind).offset
        ((s.field kind).offset + Text.byteSize (s.field kind).text.toList)
          text.toList = some (s.field kind).text.toList) ∧
    (scan text).Pairwise (fun s t => s.stop ≤ t.start) ∧
    (∀ t : Statement, t.OccursIn text.toList →
      ∃ s ∈ scan text, s.start ≤ t.start ∧ t.start < s.stop) := by
  have hscan := selection_scan text
  refine ⟨?_, ?_, hscan.pairwise, ?_⟩
  · intro found
    constructor
    · intro hfound
      rw [← hfound]
      exact hscan
    · intro hfound
      exact hscan.unique hfound
  · intro s hs
    have hoccurs := (hscan.occurs s hs).1
    exact ⟨s.start_lt_stop, rfl, hoccurs.slice?_block, rfl, rfl, rfl, rfl,
      fun kind => (hoccurs.field_standsIn kind).slice?⟩
  · intro t ht
    exact hscan.covers ht (Nat.zero_le t.start)

/-- Two blocks stand behind the euro sign: the limit may end before the first
brace or before the second.  The scan finds the longer one, and the shorter one
starts inside it. -/
theorem scan_two_closing_braces :
    ∃ t : Statement, t.block.cap.value = ['3'] ∧
      t.OccursIn "€A-B\x7bBUY 1ſELL 2CAP 3\x7d\x7d".toList ∧
      (∃ s ∈ scan "€A-B\x7bBUY 1ſELL 2CAP 3\x7d\x7d",
        s.start ≤ t.start ∧ t.start < s.stop) ∧
      (scan "€A-B\x7bBUY 1ſELL 2CAP 3\x7d\x7d").map
          (fun s => (s.pair, s.buy, s.sell, s.cap, s.stop)) =
        [(⟨"A-B", 3⟩, ⟨"1", 11⟩, ⟨"2", 18⟩, ⟨"3\x7d", 23⟩, 26)] := by
  let t : Statement :=
    ⟨3, ⟨['A', '-', 'B'], [], [], ⟨['B', 'U', 'Y'], [' '], ['1'], []⟩,
      ⟨['ſ', 'E', 'L', 'L'], [' '], ['2'], []⟩,
      ⟨['C', 'A', 'P'], [' '], ['3'], []⟩⟩⟩
  have ht : t.OccursIn "€A-B\x7bBUY 1ſELL 2CAP 3\x7d\x7d".toList := by
    refine ⟨⟨⟨['A'], ['B'], rfl, by simp, by simp⟩, rfl, rfl, ?_, ?_, ?_⟩,
      ['€'], ['}'], by decide, by decide⟩
    all_goals exact ⟨by decide, by decide, by decide, by decide,
      List.forall_mem_singleton.mpr (by decide), by decide⟩
  exact ⟨t, rfl, ht, (scan_leftmost_longest _).2.2.2 t ht, by decide +kernel⟩

end RateDesk
