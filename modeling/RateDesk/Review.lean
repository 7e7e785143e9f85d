import RateDesk.Notice

/-!
# Reviewing a submission

A submission is accepted as a whole or not at all.  Its review finds the
statements, checks every field of each of them, and ends either with the quotes
in text order or with the diagnostics of all rejected fields.  Identifiers are
drawn for the quotes of an accepted submission only.
-/

namespace RateDesk

/-- A rejected field: its kind, its cause and its diagnostic. -/
structure Rejection where
  kind : FieldKind
  error : FieldError
  /-- What the submitter is told. -/
  diagnostic : Diagnostic
deriving DecidableEq, Repr

/-- The rejected fields of a statement of a sheet. -/
def Statement.rejections (sheet : Sheet) (s : Statement) : List Rejection :=
  s.failures.map fun failure =>
    ⟨failure.1, failure.2,
      Diagnostic.locate sheet failure.1 (s.field failure.1)⟩

/-- A submission under review. -/
structure Review where
  sheet : Sheet
  /-- The statements of the sheet in text order. -/
  statements : List Statement
  /-- The text before, between and behind the statements, with its byte
  offsets. -/
  gaps : List (Nat × List Char)

namespace Review

/-- Take up a submitted text. -/
def ofRaw (raw : String) : Review :=
  let sheet := Sheet.ofRaw raw
  let layout := Layout.read sheet.chars
  ⟨sheet, layout.statements, layout.gaps⟩

/-- The rejected fields of all statements, in text order. -/
def rejections (r : Review) : List Rejection :=
  r.statements.flatMap (·.rejections r.sheet)

/-- What the submitter is told. -/
def diagnostics (r : Review) : Diagnostics :=
  Diagnostics.ofList (r.rejections.map Rejection.diagnostic)

/-- The quotes of the statements all of whose fields are valid. -/
def quotes (r : Review) : List Quote :=
  r.statements.filterMap Statement.quote?

/-- The quotes of the submission, or its diagnostics if there are any. -/
def outcome (r : Review) : Except Diagnostics (List Quote) :=
  let found := r.diagnostics
  if found.isEmpty then .ok r.quotes else .error found

/-- The place of the first character of a gap that is not blank, if it has
one. -/
def skippedAt? (sheet : Sheet) (gap : Nat × List Char) : Option Position :=
  if Text.allBlank gap.2 then none
  else some (sheet.position (gap.1 + Text.byteSize (Text.blanks gap.2)))

/-- The notices of a review: skipped text first, then rejected fields, then the
rejection of the whole. -/
def notices (r : Review) : List Notice :=
  let skipped := r.gaps.filterMap fun gap =>
    (skippedAt? r.sheet gap).map Notice.skippedText
  let rejected := r.rejections.map fun x =>
    Notice.rejectedField x.kind x.error ⟨x.diagnostic.line, x.diagnostic.start⟩
  let found := r.diagnostics
  let whole :=
    if found.isEmpty then []
    else [Notice.rejectedSubmission r.statements.length found.size]
  skipped ++ rejected ++ whole

/-- The entries of an accepted submission, with the identifiers that come next,
and the source without them; a rejected submission uses up no identifier. -/
def book (r : Review) (ids : IdSource) :
    Except Diagnostics (List Entry) × IdSource :=
  match r.outcome with
  | .error found => (.error found, ids)
  | .ok quotes => (.ok (Entry.label ids quotes), ids.advance quotes.length)

/-- A rejected submission leaves the source as it was. -/
theorem book_of_error {r : Review} {found : Diagnostics} (ids : IdSource)
    (h : r.outcome = .error found) : r.book ids = (.error found, ids) := by
  simp [book, h]

/-- An accepted submission uses up one identifier for each quote. -/
theorem book_of_ok {r : Review} {quotes : List Quote} (ids : IdSource)
    (h : r.outcome = .ok quotes) :
    r.book ids = (.ok (Entry.label ids quotes), ids.advance quotes.length) := by
  simp [book, h]

end Review

end RateDesk
