import RateDesk.Desk
import RateDesk.Table
import RateDesk.Number.FloatText

/-!
# Replies

A reply is what a submitter gets back: the stored entries, the messages about
rejected fields, or the wording of a failure, each with a code.  It is written
as JSON, in one line or spread over lines, or as a table with one row for each
entry.
-/

namespace RateDesk

/-- The kind of a reply. -/
inductive ReplyCode
  | parsed
  | rejected
  /-- The store acknowledged an unexpected number of entries. -/
  | edgeCase
  | unexpected
deriving DecidableEq, Repr

namespace ReplyCode

/-- All codes, the successful one first. -/
def all : List ReplyCode :=
  [.parsed, .rejected, .edgeCase, .unexpected]

/-- The status of a reply as a number. -/
def status : ReplyCode → Nat
  | .parsed => 200
  | .rejected => 400
  | .edgeCase => 418
  | .unexpected => 500

/-- The text of a code. -/
def text (code : ReplyCode) : String :=
  "FXQL-" ++ natText code.status

end ReplyCode

/-- The answer to a submission. -/
inductive Reply
  | parsed (entries : List Entry)
  /-- The messages about the rejected fields. -/
  | rejected (messages : List String)
  | failed (code : ReplyCode) (message : String)

/-- What is written to the two output channels. -/
structure Written where
  out : String
  err : String
deriving DecidableEq, Repr

namespace Reply

/-- The wording of success. -/
def parsedMessage : String := "FXQL Statement Parsed Successfully."

/-- The answer to a submission that failed. -/
def ofError (error : DeskError) : Reply :=
  match error with
  | .invalid diagnostics => .rejected diagnostics.messages
  | .countMismatch _ _ =>
      .failed .edgeCase ("Edge case error: " ++ error.message)
  | .store _ => .failed .unexpected ("Unexpected error: " ++ error.message)

/-- The answer to a submission. -/
def ofResult : Except DeskError (List Entry) → Reply
  | .ok entries => .parsed entries
  | .error error => ofError error

/-- The code of a reply. -/
def code : Reply → ReplyCode
  | .parsed _ => .parsed
  | .rejected _ => .rejected
  | .failed code _ => code

/-- The status of a reply as a number. -/
def status (r : Reply) : Nat :=
  r.code.status

/-- Whether the submission went through. -/
def isSuccess (r : Reply) : Bool :=
  r.code == .parsed

/-! ## JSON -/

/-- Prices in JSON are written in full from five places after the point up to
sixteen digits before it; a positive exponent has a plus sign. -/
def jsonPrice : FloatStyle := ⟨-5, 15, true⟩

/-- The names of the columns of an entry. -/
def columns : List String :=
  ["EntryId", "SourceCurrency", "DestinationCurrency", "SellPrice", "BuyPrice",
    "CapAmount"]

/-- The JSON values of the columns of an entry. -/
def cells (e : Entry) : List Json :=
  [.text e.id.text, .text e.quote.pair.source.text,
    .text e.quote.pair.destination.text,
    .number (e.quote.sell.floatText jsonPrice),
    .number (e.quote.buy.floatText jsonPrice), .number (natText e.quote.cap)]

/-- An entry as a JSON object. -/
def entryJson (e : Entry) : Json :=
  .object (columns.zip (cells e))

/-- A reply as a JSON object. -/
def json : Reply → Json
  | .parsed entries =>
      .object [("message", .text parsedMessage),
        ("code", .text ReplyCode.parsed.text),
        ("data", .list (entries.map entryJson))]
  | .rejected messages =>
      .object [("message", .list (messages.map .text)),
        ("code", .text ReplyCode.rejected.text)]
  | .failed code message =>
      .object [("message", .text message), ("code", .text code.text)]

/-- The reply in one line. -/
def body (r : Reply) : String :=
  r.json.compactText

/-- The reply spread over lines, with a line feed at the end. -/
def writeJson (r : Reply) : Written :=
  ⟨r.json.prettyText ++ "\n", ""⟩

/-! ## Tables -/

/-- Prices in tables are written as in JSON, without a plus sign. -/
def tablePrice : FloatStyle := ⟨-5, 15, false⟩

/-- The texts of the columns of an entry. -/
def row (e : Entry) : List String :=
  [e.id.text, e.quote.pair.source.text, e.quote.pair.destination.text,
    e.quote.sell.floatText tablePrice, e.quote.buy.floatText tablePrice,
    natText e.quote.cap]

/-- The header of a table without rows. -/
def emptyHeader : List String :=
  ["EntryId", "SourceCurrency", "DestinationCurrency", "SellPrice", "BuyPrice",
    "CapAmount"]

/-- The table of entries: a row for each of them, and the header alone if there
are none. -/
def table (entries : List Entry) : Table.Writer :=
  let rows :=
    entries.foldl (fun w e => w.row columns (row e)) Table.Writer.empty
  if entries.isEmpty then rows.record emptyHeader else rows

/-- The reply as a table.  If there is none because the submission failed, the
messages go to the error output instead, one on each line. -/
def writeTable : Reply → Written
  | .parsed entries => ⟨(table entries).text, ""⟩
  | .rejected messages => ⟨"", String.join (messages.map (· ++ "\n"))⟩
  | .failed _ message => ⟨"", message ++ "\n"⟩

end Reply

end RateDesk
