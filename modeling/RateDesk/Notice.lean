import RateDesk.Diagnostic
import RateDesk.Entry
import RateDesk.Json

/-!
# Notices

While it works the desk reports what it skips, rejects and stores.  A notice is
such an event; it has a level, a wording and a few named details.
-/

namespace RateDesk

/-- Why a store took no entries. -/
inductive StoreError
  /-- The store cannot be reached, for the given reason. -/
  | unavailable (reason : String)
deriving DecidableEq, Repr

/-- The wording of a store error. -/
def StoreError.message : StoreError → String
  | .unavailable reason => "record store unavailable: " ++ reason

/-- The weight of a notice. -/
inductive Level
  /-- Details for developers. -/
  | debug
  /-- The normal course of things. -/
  | info
  /-- Something the submitter may not have meant. -/
  | warn
  /-- Something that should not happen. -/
  | error
deriving DecidableEq, Repr

/-- The name of a level. -/
def Level.name : Level → String
  | .debug => "DEBUG"
  | .info => "INFO"
  | .warn => "WARN"
  | .error => "ERROR"

/-- An event in the work of the desk. -/
inductive Notice
  /-- Text outside all statements was skipped; the place is its first character
  that is not blank. -/
  | skippedText (place : Position)
  | rejectedField (kind : FieldKind) (error : FieldError) (place : Position)
  /-- A submission with so many statements and diagnostics was rejected. -/
  | rejectedSubmission (statements diagnostics : Nat)
  /-- An entry was not stored because its identifier is taken. -/
  | duplicateEntry (id : EntryId)
  /-- The store took none of the entries. -/
  | storeFailed (error : StoreError) (entries : Nat)
  /-- The store took another number of entries than it was given. -/
  | unexpectedCount (submitted stored : Nat)
  | accepted (entries : Nat)

namespace Notice

/-- The level of a notice. -/
def level : Notice → Level
  | .skippedText _ => .warn
  | .rejectedField _ _ _ => .debug
  | .rejectedSubmission _ _ => .debug
  | .duplicateEntry _ => .warn
  | .storeFailed _ _ => .error
  | .unexpectedCount _ _ => .error
  | .accepted _ => .info

/-- The wording of a notice. -/
def message : Notice → String
  | .skippedText _ => "ignoring text that is not an FXQL statement"
  | .rejectedField kind error _ =>
      "rejected " ++ kind.label ++ " field: " ++ error.message
  | .rejectedSubmission _ _ => "rejecting FXQL submission"
  | .duplicateEntry _ => "skipping record with duplicate entry id"
  | .storeFailed error _ => "failed to store FXQL records: " ++ error.message
  | .unexpectedCount _ _ => "record store acknowledged an unexpected row count"
  | .accepted _ => "FXQL submission accepted"

/-- A detail that is a number. -/
def countDetail (name : String) (n : Nat) : String × Json :=
  (name, .number (natText n))

/-- The details of a place. -/
def placeDetails (place : Position) : List (String × Json) :=
  [countDetail "line" place.line, countDetail "column" place.column]

/-- The named details of a notice. -/
def details : Notice → List (String × Json)
  | .skippedText place => placeDetails place
  | .rejectedField _ _ place => placeDetails place
  | .rejectedSubmission statements diagnostics =>
      [countDetail "statements" statements,
        countDetail "diagnostics" diagnostics]
  | .duplicateEntry id => [("entry_id", .text id.text)]
  | .storeFailed _ entries => [countDetail "records" entries]
  | .unexpectedCount submitted stored =>
      [countDetail "submitted" submitted, countDetail "stored" stored]
  | .accepted entries => [countDetail "records" entries]

end Notice

end RateDesk
