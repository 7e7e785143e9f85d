import RateDesk.Review
import RateDesk.Proofs.Scan
import RateDesk.Proofs.Sheet.Lines
import RateDesk.Proofs.Diagnostic.Collection
import RateDesk.Proofs.Diagnostic.Wording

/-!
# Rejected submissions

A submission is rejected if some field of some statement is.  The fields of all
statements follow each other in the text, so their positions increase, and as a
message contains the position of its field, no two rejected fields have the same
message.  Collecting diagnostics by message therefore loses none of them.

Main results:

- Theorem `Statement.pairwise_offset_fields`: the fields of a statement follow
  each other.
- Theorem `Review.toList_diagnostics`: the diagnostics of a review are those of
  all rejected fields, in text order.
- Theorem `Review.rejection_complete`: which submissions are rejected, and with
  which diagnostics.
- Theorem `Review.diagnostic_points_at_field`: a diagnostic gives the line and
  the columns at which the field stands.
-/

namespace RateDesk

/-! ## Rejected fields -/

/-- Whether a text is a value of the given kind of field. -/
def FieldKind.accepts (kind : FieldKind) (raw : String) : Bool :=
  match kind with
  | .currencyPair => (FieldValue.pair raw).isOk
  | .buy | .sell => (FieldValue.price raw).isOk
  | .cap => (FieldValue.cap raw).isOk

namespace Statement

/-- The kinds of the rejected fields of a statement, in statement order. -/
def rejectedKinds (s : Statement) : List FieldKind :=
  FieldKind.all.filter fun kind => !kind.accepts (s.field kind).text

theorem isSome_fieldError? (s : Statement) (kind : FieldKind) :
    (s.fieldError? kind).isSome = !kind.accepts (s.field kind).text := by
  have hcause : ∀ {α : Type} (value : Except FieldError α),
      (failure? value).isSome = !value.isOk := by
    intro α value
    cases value <;> rfl
  cases kind <;> exact hcause _

/-- The fields that fail are those whose texts are not accepted. -/
theorem map_fst_failures (s : Statement) :
    s.failures.map Prod.fst = s.rejectedKinds := by
  simp only [failures, rejectedKinds, List.map_filterMap, ← isSome_fieldError?]
  induction FieldKind.all with
  | nil => rfl
  | cons kind kinds ih =>
      rw [List.filterMap_cons, List.filter_cons, ih]
      cases s.fieldError? kind <;> rfl

theorem map_diagnostic_rejections (sheet : Sheet) (s : Statement) :
    (s.rejections sheet).map Rejection.diagnostic =
      s.rejectedKinds.map fun kind =>
        Diagnostic.locate sheet kind (s.field kind) := by
  rw [← map_fst_failures, rejections, List.map_map, List.map_map]
  rfl

/-! ## The order of fields -/

/-- A field has at least one character, and none of its characters is blank. -/
theorem field_solid {s : Statement} (h : s.block.WellFormed)
    (kind : FieldKind) :
    (s.field kind).text.toList ≠ [] ∧
      ∀ c ∈ (s.field kind).text.toList, Text.isBlank c = false := by
  cases kind with
  | currencyPair =>
      rcases h.pair with ⟨source, destination, hpair, hsource, hdestination⟩
      simp only [field, pair, String.toList_ofList, hpair]
      refine ⟨by simp, ?_⟩
      intro c hc
      rcases List.mem_append.mp hc with hc | hc
      · exact Text.isBlank_of_isAlphanum (hsource c hc)
      · rcases List.mem_cons.mp hc with rfl | hc
        · decide
        · exact Text.isBlank_of_isAlphanum (hdestination c hc)
  | buy =>
      simp only [field, buy, valueAfter, String.toList_ofList]
      exact ⟨h.buy.value_ne_nil, h.buy.value_solid⟩
  | sell =>
      simp only [field, sell, valueAfter, String.toList_ofList]
      exact ⟨h.sell.value_ne_nil, h.sell.value_solid⟩
  | cap =>
      simp only [field, cap, valueAfter, String.toList_ofList]
      exact ⟨h.cap.value_ne_nil, h.cap.value_solid⟩

/-- A field starts inside its statement. -/
theorem field_offset_bounds (s : Statement) (kind : FieldKind) :
    s.start ≤ (s.field kind).offset ∧ (s.field kind).offset < s.stop := by
  have hbrace : 0 < Text.byteSize ['}'] := by decide
  cases kind <;>
    simp only [field, pair, buy, sell, cap, valueAfter, stop, Block.text,
      Clause.text, Text.byteSize_append] <;>
    omega

/-- The fields of a statement follow each other. -/
theorem pairwise_offset_fields {s : Statement} (h : s.block.WellFormed) :
    FieldKind.all.Pairwise fun kind kind' =>
      (s.field kind).offset < (s.field kind').offset := by
  have hbrace := Char.utf8Size_pos '{'
  have hbuy := Text.byteSize_pos h.buy.value_ne_nil
  have hsell := Text.byteSize_pos h.sell.value_ne_nil
  simp only [FieldKind.all, List.pairwise_cons, List.mem_cons,
    List.not_mem_nil, or_false, forall_eq_or_imp, forall_eq, false_imp_iff,
    implies_true, List.Pairwise.nil, and_true]
  simp only [field, pair, buy, sell, cap, valueAfter, Block.head, Clause.text,
    Text.byteSize_append, Text.byteSize_cons]
  omega

end Statement

/-- Of two fields of a sheet, the one with the larger offset has the larger
position. -/
theorem Field.StandsIn.position_before {sheet : Sheet} {f g : Field}
    (hf : f.StandsIn sheet.chars) (hg : g.StandsIn sheet.chars)
    (hlt : f.offset < g.offset) :
    (sheet.position f.offset).Before (sheet.position g.offset) := by
  rcases sheet with ⟨chars⟩
  rcases hf with ⟨front, back, hchars, hfront⟩
  rcases hg with ⟨front', back', hchars', hfront'⟩
  simp only at hchars hchars'
  rw [← hfront, ← hfront'] at hlt ⊢
  rcases Text.append_of_byteSize_le (hchars.symm.trans hchars')
    (Nat.le_of_lt hlt) with
    ⟨middle, rfl, -⟩
  have hne : middle ≠ [] := by
    rintro rfl
    simp at hlt
  rw [hchars']
  exact Sheet.position_before front hne _

/-- The place of the first character of the rejected field. -/
def Diagnostic.place (d : Diagnostic) : Position :=
  ⟨d.line, d.start⟩

namespace Review

/-- The diagnostics of all rejected fields, in text order, before any is left
out. -/
def located (r : Review) : List Diagnostic :=
  r.statements.flatMap fun s =>
    s.rejectedKinds.map fun kind =>
      Diagnostic.locate r.sheet kind (s.field kind)

/-- A diagnostic is located at a field of a statement. -/
theorem exists_field_of_mem_located {r : Review} {d : Diagnostic}
    (h : d ∈ r.located) :
    ∃ s ∈ r.statements, ∃ kind,
      d = Diagnostic.locate r.sheet kind (s.field kind) := by
  rcases List.mem_flatMap.mp h with ⟨s, hs, hd⟩
  rcases List.mem_map.mp hd with ⟨kind, -, rfl⟩
  exact ⟨s, hs, kind, rfl⟩

theorem map_diagnostic_rejections (r : Review) :
    r.rejections.map Rejection.diagnostic = r.located := by
  simp only [rejections, located, List.map_flatMap,
    Statement.map_diagnostic_rejections]

theorem statements_ofRaw (raw : String) :
    (ofRaw raw).statements = scan (Sheet.ofRaw raw).text := by
  rw [scan, Sheet.text, String.toList_ofList]
  rfl

/-- The statements of a review occur in its sheet. -/
theorem occurs_of_mem_statements {raw : String} {s : Statement}
    (hs : s ∈ (ofRaw raw).statements) : s.OccursIn (ofRaw raw).sheet.chars := by
  rw [statements_ofRaw] at hs
  have hoccurs := ((selection_scan _).occurs s hs).1
  rw [Sheet.text, String.toList_ofList] at hoccurs
  exact hoccurs

/-- The positions of the rejected fields increase. -/
theorem pairwise_place_located (raw : String) :
    (ofRaw raw).located.Pairwise fun d e => d.place.Before e.place := by
  rw [located, List.pairwise_flatMap]
  constructor
  · intro s hs
    have hoccurs := occurs_of_mem_statements hs
    rw [List.pairwise_map]
    have hfields := (Statement.pairwise_offset_fields
      hoccurs.wellFormed).sublist
      (List.filter_sublist (p := fun kind => !kind.accepts (s.field kind).text))
    refine hfields.imp ?_
    intro kind kind' hlt
    exact (hoccurs.field_standsIn kind).position_before
      (hoccurs.field_standsIn kind') hlt
  · have hapart : (ofRaw raw).statements.Pairwise fun s t =>
        s.stop ≤ t.start := by
      rw [statements_ofRaw]
      exact (selection_scan _).pairwise
    refine hapart.imp_of_mem ?_
    intro s t hs ht hle d hd e he
    rcases List.mem_map.mp hd with ⟨kind, -, rfl⟩
    rcases List.mem_map.mp he with ⟨kind', -, rfl⟩
    have hlt : (s.field kind).offset < (t.field kind').offset := by
      have hleft := s.field_offset_bounds kind
      have hright := t.field_offset_bounds kind'
      omega
    exact ((occurs_of_mem_statements hs).field_standsIn kind).position_before
      ((occurs_of_mem_statements ht).field_standsIn kind') hlt

/-- No two rejected fields have the same message. -/
theorem nodup_message_located (raw : String) :
    ((ofRaw raw).located.map Diagnostic.message).Nodup := by
  rw [List.Nodup, List.pairwise_map]
  refine (pairwise_place_located raw).imp_of_mem ?_
  intro d e hd he hbefore hmessage
  rcases exists_field_of_mem_located hd with ⟨s, -, kind, rfl⟩
  rcases exists_field_of_mem_located he with ⟨t, -, kind', rfl⟩
  rcases Diagnostic.parts_eq_of_render_eq hmessage with ⟨-, -, hline, hstart, -⟩
  -- The same message would put both fields at one place.
  simp only [Position.Before, Diagnostic.place, Diagnostic.locate] at hbefore
  omega

/-- The diagnostics of a review are those of all rejected fields, in text
order. -/
theorem toList_diagnostics (raw : String) :
    (ofRaw raw).diagnostics.toList = (ofRaw raw).located := by
  rw [diagnostics, map_diagnostic_rejections]
  exact Diagnostics.toList_ofList (nodup_message_located raw)

/-- A submission has diagnostics exactly when some field is not accepted. -/
theorem located_eq_nil_iff (r : Review) :
    r.located = [] ↔
      ∀ s ∈ r.statements, ∀ kind : FieldKind,
        kind.accepts (s.field kind).text = true := by
  have hall : ∀ kind : FieldKind, kind ∈ FieldKind.all := by
    intro kind
    cases kind <;> decide
  simp only [located, List.flatMap_eq_nil_iff, List.map_eq_nil_iff,
    Statement.rejectedKinds, List.filter_eq_nil_iff, Bool.not_eq_true,
    Bool.not_eq_false']
  constructor
  · intro h s hs kind
    exact h s hs kind (hall kind)
  · intro h s hs kind _
    exact h s hs kind

/-- A review with diagnostics ends with them. -/
theorem outcome_of_diagnostics {r : Review} (h : r.diagnostics.toList ≠ []) :
    r.outcome = .error r.diagnostics := by
  have hfound : ¬ r.diagnostics.isEmpty = true := by
    rw [Diagnostics.isEmpty_iff]
    exact h
  simp only [outcome, if_neg hfound]

/-- A submission is rejected with its diagnostics, if it has any. -/
theorem book_eq_error_iff {r : Review} {ids : IdSource} {found : Diagnostics} :
    (r.book ids).1 = .error found ↔
      found = r.diagnostics ∧ r.diagnostics.toList ≠ [] := by
  by_cases h : r.diagnostics.toList = []
  · have hempty := Diagnostics.isEmpty_iff.mpr h
    have hok : r.outcome = .ok r.quotes := by simp only [outcome, if_pos hempty]
    rw [book_of_ok ids hok]
    simp [h]
  · rw [book_of_error ids (outcome_of_diagnostics h)]
    simp [h, eq_comm]

/-- A submission is rejected exactly when some field of some statement is not
accepted.  The diagnostics are then those of all such fields, in text order and
in statement order; their messages differ, and their positions increase. -/
theorem rejection_complete (raw : String) (ids : IdSource) :
    ((∃ found, ((ofRaw raw).book ids).1 = .error found) ↔
      ∃ s ∈ scan (Sheet.ofRaw raw).text, ∃ kind : FieldKind,
        kind.accepts (s.field kind).text = false) ∧
    ∀ found, ((ofRaw raw).book ids).1 = .error found →
      found.toList.map (fun d => (d.kind, d.raw)) =
        ((scan (Sheet.ofRaw raw).text).flatMap fun s =>
          (FieldKind.all.filter fun kind =>
            !kind.accepts (s.field kind).text).map fun kind =>
            (kind, (s.field kind).text)) ∧
      found.messages.Nodup ∧
      found.toList.Pairwise fun d e => d.place.Before e.place := by
  constructor
  · simp only [book_eq_error_iff, exists_eq_left, toList_diagnostics, ne_eq,
      located_eq_nil_iff, statements_ofRaw]
    simp only [Classical.not_forall, Bool.not_eq_true, exists_prop]
  · intro found hfound
    rcases book_eq_error_iff.mp hfound with ⟨rfl, -⟩
    rw [Diagnostics.messages, toList_diagnostics]
    refine ⟨?_, nodup_message_located raw, pairwise_place_located raw⟩
    rw [located, List.map_flatMap, statements_ofRaw]
    simp only [List.map_map]
    rfl

/-- All four fields are rejected, and an escaped line feed stands among them. -/
theorem rejection_complete_four_fields :
    ∃ found, ((ofRaw "a-b \x7bBUY x\\nSELL -1 CAP 0\x7d").book .counting).1 =
      .error found ∧
      found.toList.map (fun d => (d.kind, d.raw)) =
        [(.currencyPair, "a-b"), (.buy, "x"), (.sell, "-1"), (.cap, "0")] ∧
      found.messages.Nodup := by
  have hcomplete :=
    rejection_complete "a-b \x7bBUY x\\nSELL -1 CAP 0\x7d" .counting
  have hfield :
      ∃ s ∈ scan (Sheet.ofRaw "a-b \x7bBUY x\\nSELL -1 CAP 0\x7d").text,
      FieldKind.accepts .buy (s.field .buy).text = false := by decide +kernel
  rcases hfield with ⟨s, hs, hbuy⟩
  rcases hcomplete.1.mpr ⟨s, hs, .buy, hbuy⟩ with ⟨found, hfound⟩
  rcases hcomplete.2 found hfound with ⟨hlist, hnodup, -⟩
  refine ⟨found, hfound, ?_, hnodup⟩
  rw [hlist]
  decide +kernel

end Review

/-! ## Where diagnostics point -/

/-- A diagnostic points into some lines if its line is one of them, and the
characters between its columns are there and are the text of the field. -/
def Diagnostic.PointsInto (d : Diagnostic) (lines : List (List Char)) : Prop :=
  1 ≤ d.line ∧ ∃ line, lines[d.line - 1]? = some line ∧
    d.start < d.stop ∧ d.stop ≤ line.length ∧
    (line.drop d.start).take (d.stop - d.start) = d.raw.toList

/-- The diagnostic of a field without line feeds points at the field. -/
theorem Field.StandsIn.locate_pointsInto {sheet : Sheet} {f : Field}
    (h : f.StandsIn sheet.chars) (hne : f.text.toList ≠ [])
    (hfeed : '\n' ∉ f.text.toList) (kind : FieldKind) :
    (Diagnostic.locate sheet kind f).PointsInto sheet.lines := by
  rcases sheet with ⟨chars⟩
  rcases h with ⟨before, back, hchars, hoffset⟩
  simp only at hchars
  rcases Sheet.exists_endsLine_append before with
    ⟨front, line, rfl, hfront, hline⟩
  -- The line of the field: what stands before it, the field, and the rest up to
  -- a line feed.
  let rest := back.takeWhile (· != '\n')
  have hrest : '\n' ∉ rest := by
    intro hmem
    have hall := List.all_eq_true.mp List.all_takeWhile '\n' hmem
    simp at hall
  have hback : ∀ c ∈ (back.dropWhile (· != '\n')).head?, c = '\n' := by
    intro c hc
    have hnot := List.head?_dropWhile_not (· != '\n') back
    rw [Option.mem_def.mp hc] at hnot
    simpa using hnot
  have hwhole : '\n' ∉ line ++ f.text.toList ++ rest := by
    simp only [List.mem_append, not_or]
    exact ⟨⟨hline, hfeed⟩, hrest⟩
  have hposition : Sheet.position ⟨chars⟩ f.offset =
      ⟨front.count '\n' + 1, line.length⟩ := by
    rw [hchars, ← hoffset]
    exact Sheet.position_append hfront hline (f.text.toList ++ back)
  have hlines : (Sheet.lines ⟨chars⟩)[front.count '\n']? =
      some (line ++ f.text.toList ++ rest) := by
    have hget := Sheet.getElem?_lines hfront hwhole hback
    have hsplit : chars = front ++ (line ++ f.text.toList ++ rest ++
        back.dropWhile (· != '\n')) := by
      rw [hchars]
      simp [rest, List.takeWhile_append_dropWhile]
    rw [← hsplit] at hget
    exact hget
  have hlength : 0 < f.text.toList.length := List.length_pos_iff.mpr hne
  simp only [Diagnostic.PointsInto, Diagnostic.locate, hposition,
    Nat.add_sub_cancel, ← String.length_toList]
  refine ⟨Nat.le_add_left 1 _, _, hlines, by omega, ?_, ?_⟩
  · simp only [List.length_append]
    omega
  · rw [List.append_assoc, List.drop_left, Nat.add_sub_cancel_left,
      List.take_left]

namespace Review

/-- Every diagnostic of a rejected submission points into the lines of the
sheet. -/
theorem diagnostic_points_at_field (raw : String) (ids : IdSource)
    (found : Diagnostics) (hfound : ((ofRaw raw).book ids).1 = .error found) :
    ∀ d ∈ found.toList, d.PointsInto (Sheet.ofRaw raw).lines := by
  intro d hd
  rcases book_eq_error_iff.mp hfound with ⟨rfl, -⟩
  rw [toList_diagnostics] at hd
  rcases List.mem_flatMap.mp hd with ⟨s, hs, hd⟩
  rcases List.mem_map.mp hd with ⟨kind, -, rfl⟩
  have hoccurs := occurs_of_mem_statements hs
  rcases Statement.field_solid hoccurs.wellFormed kind with ⟨hne, hsolid⟩
  have hfeed : '\n' ∉ (s.field kind).text.toList := by
    intro hmem
    have hblank : Text.isBlank '\n' = true := by decide
    rw [hsolid '\n' hmem] at hblank
    exact Bool.false_ne_true hblank
  exact (hoccurs.field_standsIn kind).locate_pointsInto hne hfeed kind

/-- The rejected fields stand on the second line, behind characters of several
bytes and around an ideographic space. -/
theorem diagnostic_points_behind_wide_characters :
    ∃ found,
      ((ofRaw "€\\nü A-B\u3000\x7bBUY é1 SELL 2\\nCAP 3\x7d").book
        .counting).1 =
        .error found ∧
      found.toList.map (fun d => (d.raw, d.line, d.start, d.stop)) =
        [("A-B", 2, 2, 5), ("é1", 2, 11, 13)] ∧
      ∀ d ∈ found.toList, d.PointsInto
        (Sheet.ofRaw "€\\nü A-B\u3000\x7bBUY é1 SELL 2\\nCAP 3\x7d").lines := by
  let raw := "€\\nü A-B\u3000\x7bBUY é1 SELL 2\\nCAP 3\x7d"
  have hlist :
      (ofRaw raw).located.map (fun d => (d.raw, d.line, d.start, d.stop)) =
      [("A-B", 2, 2, 5), ("é1", 2, 11, 13)] := by decide +kernel
  have hne : (ofRaw raw).diagnostics.toList ≠ [] := by
    rw [toList_diagnostics]
    intro hnil
    simp [hnil] at hlist
  have hfound : ((ofRaw raw).book .counting).1 =
      .error (ofRaw raw).diagnostics :=
    book_eq_error_iff.mpr ⟨rfl, hne⟩
  refine ⟨_, hfound, ?_, diagnostic_points_at_field raw .counting _ hfound⟩
  rw [toList_diagnostics]
  exact hlist

end Review

end RateDesk
