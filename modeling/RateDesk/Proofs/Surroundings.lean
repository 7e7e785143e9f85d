import RateDesk.Proofs.Block.Written
import RateDesk.Proofs.Review.Slices

/-!
# Text around statements

Text is added before and behind another text.  What is added before has no dash
and does not touch the text with a letter or digit, so no block starts in it and
no pair reaches into it.  What is added behind has no closing brace, so no block
ends in it.  The occurrences in the whole are then those in the text itself,
further right, and the scan selects the same ones.

Nothing is assumed of the text itself.  It may hold blocks that are not closed,
and braces and words that belong to no block.

Main results:

- Theorem `Statement.occursIn_surrounded_iff`: the occurrences in a text with
  text around it.
- Theorem `Selection.surround`: they are selected alike.
- Theorem `scan_surrounded`: the scan finds the same statements, further right.
-/

namespace RateDesk

/-- The back of an inert text is inert. -/
theorem Text.Inert.of_append {front back : List Char}
    (h : Text.Inert (front ++ back)) : Text.Inert back := by
  induction front with
  | nil => exact h
  | cons c front ih => exact ih h.tail

theorem Block.getLast?_text (b : Block) : b.text.getLast? = some '}' :=
  List.getLast?_concat

/-! ## Occurrences -/

namespace Statement

/-- No occurrence starts in inert text. -/
theorem OccursIn.byteSize_le_start {front rest : List Char} {t : Statement}
    (h : t.OccursIn (front ++ rest)) (hfront : Text.Inert front) :
    Text.byteSize front ≤ t.start := by
  rcases h.placed with ⟨before, after, htext, hbefore⟩
  by_contra hlt
  rw [← hbefore] at hlt
  rcases Text.append_of_byteSize_le htext.symm (by omega) with
    ⟨more, rfl, hblock⟩
  have hne : more ≠ [] := by
    rintro rfl
    simp at hlt
  -- The block would be read in the inert text.
  rcases Block.read?_maximal.complete after h.wellFormed with
    ⟨b, back, hread, -⟩
  rw [hblock, Block.read?_of_inert hfront.of_append hne] at hread
  cases hread

/-- No occurrence reaches into text without a closing brace. -/
theorem OccursIn.of_append {middle back : List Char} {t : Statement}
    (h : t.OccursIn (middle ++ back)) (hback : '}' ∉ back) :
    t.OccursIn middle := by
  rcases h.placed with ⟨before, after, htext, hbefore⟩
  rw [← List.append_assoc] at htext
  rcases List.append_eq_append_iff.mp htext with
    ⟨more, hlonger, hrest⟩ | ⟨more, hshorter, -⟩
  · -- The block ends behind the middle; what sticks out would end with its
    -- brace.
    have hnil : more = [] := by
      by_contra hne
      apply hback
      have hlast := congrArg List.getLast? hlonger
      rw [List.getLast?_append_of_ne_nil _ t.block.text_ne_nil,
        Block.getLast?_text, List.getLast?_append_of_ne_nil _ hne] at hlast
      rw [hrest]
      exact List.mem_append_left _ (List.mem_of_getLast? hlast.symm)
    subst hnil
    exact ⟨h.wellFormed, before, [], by simpa using hlonger.symm, hbefore⟩
  · exact ⟨h.wellFormed, before, more,
      by rw [hshorter, List.append_assoc], hbefore⟩

variable {front middle back : List Char}

/-- The occurrences in a text with text around it are those in the text, further
right. -/
theorem occursIn_surrounded_iff (hfront : Text.Inert front) (hback : '}' ∉ back)
    {t : Statement} :
    t.OccursIn (front ++ (middle ++ back)) ↔
      ∃ s : Statement, s.OccursIn middle ∧
        s.shift (Text.byteSize front) = t := by
  constructor
  · intro h
    rcases h.split (h.byteSize_le_start hfront) with
      ⟨before, after, hrest, hstart⟩
    let s : Statement := ⟨Text.byteSize before, t.block⟩
    have hs : s.OccursIn (middle ++ back) :=
      ⟨h.wellFormed, before, after, hrest, rfl⟩
    refine ⟨s, hs.of_append hback, ?_⟩
    cases t
    exact congrArg (Statement.mk · _) hstart.symm
  · rintro ⟨s, hs, rfl⟩
    exact hs.embed front back

/-- The occurrence to select in a text is the one to select with text around
it. -/
theorem FirstFrom.surround (hfront : Text.Inert front) (hback : '}' ∉ back)
    {s : Statement} {offset : Nat} (h : s.FirstFrom middle offset) :
    (s.shift (Text.byteSize front)).FirstFrom (front ++ (middle ++ back))
      (Text.byteSize front + offset) where
  occurs := h.occurs.embed front back
  behind := Nat.add_le_add_left h.behind _
  leftmost := by
    intro t ht hle
    rcases (occursIn_surrounded_iff hfront hback).mp ht with ⟨u, hu, rfl⟩
    exact Nat.add_le_add_left
      (h.leftmost u hu (Nat.le_of_add_le_add_left hle)) _
  longest := by
    intro t ht hstart
    rcases (occursIn_surrounded_iff hfront hback).mp ht with ⟨u, hu, rfl⟩
    exact h.longest u hu (Nat.add_left_cancel hstart)

end Statement

/-! ## Selections -/

namespace Selection

/-- A selection does not depend on where it starts, as long as no occurrence
stands before. -/
theorem of_le {text : List Char} {offset lower : Nat} {found : List Statement}
    (h : Selection text offset found) (hle : lower ≤ offset)
    (hbehind : ∀ t : Statement, t.OccursIn text → offset ≤ t.start) :
    Selection text lower found := by
  cases h with
  | done none_left =>
      exact .done fun t ht _ => none_left t ht (hbehind t ht)
  | step first behind =>
      refine .step ⟨first.occurs, Nat.le_trans hle first.behind, ?_,
        first.longest⟩ behind
      intro t ht _
      exact first.leftmost t ht (hbehind t ht)

/-- What is selected in a text is selected with text around it, further
right. -/
theorem surround {front middle back : List Char} (hfront : Text.Inert front)
    (hback : '}' ∉ back) {offset : Nat} {found : List Statement}
    (h : Selection middle offset found) :
    Selection (front ++ (middle ++ back)) (Text.byteSize front + offset)
      (found.map (·.shift (Text.byteSize front))) := by
  induction h with
  | done none_left =>
      refine .done ?_
      intro t ht hle
      rcases (Statement.occursIn_surrounded_iff hfront hback).mp ht with
        ⟨u, hu, rfl⟩
      exact none_left u hu (Nat.le_of_add_le_add_left hle)
  | @step offset s rest first _ ih =>
      rw [← Statement.stop_shift] at ih
      exact .step (first.surround hfront hback) ih

end Selection

/-! ## Statements found -/

/-- Text before a text that has no dash and does not end with a letter or digit,
and text behind it that has no closing brace, leave the statements of the text
as they are.  Their spans and fields move right by the size of the text
before. -/
theorem scan_surrounded (before text behind : String)
    (hdash : '-' ∉ before.toList)
    (hend : ∀ c ∈ before.toList.getLast?, c.isAlphanum = false)
    (hbrace : '}' ∉ behind.toList) :
    scan (before ++ text ++ behind) =
      (scan text).map (·.shift (Text.byteSize before.toList)) ∧
    ∀ s ∈ scan text,
      (s.shift (Text.byteSize before.toList)).start =
        Text.byteSize before.toList + s.start ∧
      (s.shift (Text.byteSize before.toList)).stop =
        Text.byteSize before.toList + s.stop ∧
      ∀ kind, (s.shift (Text.byteSize before.toList)).field kind =
        ⟨(s.field kind).text,
          Text.byteSize before.toList + (s.field kind).offset⟩ := by
  have hinert : Text.Inert before.toList := ⟨hdash, hend⟩
  refine ⟨?_, fun s _ => ⟨rfl, s.stop_shift _, s.field_shift _⟩⟩
  have hwhole := selection_scan (before ++ text ++ behind)
  rw [String.toList_append, String.toList_append, List.append_assoc] at hwhole
  have hmoved := (selection_scan text).surround hinert hbrace
  exact hwhole.unique (hmoved.of_le (Nat.zero_le _) fun t ht =>
    ht.byteSize_le_start hinert)

/-- An open block stands before a statement and another one behind it, which the
text behind goes on with but does not close. -/
theorem scan_surrounded_open_blocks :
    ∃ s, scan "x-y\x7b A-B\x7bBUY 1 SELL 2 CAP 3\x7d C-D \x7bBUY 4 SELL" = [s] ∧
      scan
        ("für 1€: " ++
          "x-y\x7b A-B\x7bBUY 1 SELL 2 CAP 3\x7d C-D \x7bBUY 4 SELL" ++
        " 5 CAP 6") = [s.shift 11] ∧
      s.cap = ⟨"3", 26⟩ ∧ (s.shift 11).cap = ⟨"3", 37⟩ := by
  let text := "x-y\x7b A-B\x7bBUY 1 SELL 2 CAP 3\x7d C-D \x7bBUY 4 SELL"
  have hfound : ∃ s, scan text = [s] ∧ s.cap = ⟨"3", 26⟩ := by
    refine ⟨⟨5, ⟨"A-B".toList, [], [], ⟨"BUY".toList, [' '], ['1'], [' ']⟩,
      ⟨"SELL".toList, [' '], ['2'], [' ']⟩, ⟨"CAP".toList, [' '], ['3'], []⟩⟩⟩,
      ?_, ?_⟩
    all_goals decide +kernel
  have hsurrounded := scan_surrounded "für 1€: " text " 5 CAP 6"
    (by decide +kernel) (by simp) (by decide +kernel)
  have hsize : Text.byteSize "für 1€: ".toList = 11 := by decide +kernel
  rcases hfound with ⟨s, hs, hcap⟩
  rw [hsize, hs] at hsurrounded
  refine ⟨s, hs, hsurrounded.1, hcap, ?_⟩
  have hfield := (hsurrounded.2 s List.mem_cons_self).2.2 .cap
  simp only [Statement.field, hcap] at hfield
  exact hfield

end RateDesk
