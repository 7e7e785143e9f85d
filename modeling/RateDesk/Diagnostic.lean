import Std.Data.HashSet
import RateDesk.Sheet
import RateDesk.Quote

/-!
# Diagnostics

A diagnostic tells a submitter which field was rejected and where it stands.  A
submission collects its diagnostics in text order and keeps one per message.
-/

namespace RateDesk

/-- A rejected field and its place. -/
structure Diagnostic where
  kind : FieldKind
  raw : String
  /-- The line of the field, counted from one. -/
  line : Nat
  /-- The column of its first character, counted from zero. -/
  start : Nat
  /-- The column just behind its last character. -/
  stop : Nat
  message : String
deriving DecidableEq, Repr

namespace Diagnostic

/-- The wording of a diagnostic. -/
def render (kind : FieldKind) (raw : String) (line start stop : Nat) : String :=
  match kind with
  | .currencyPair =>
      "Currency Pair -" ++ raw ++ " is not Valid at Line " ++ natText line ++
        " Character Position - " ++ natText start ++ "-" ++ natText stop
  | .buy | .sell | .cap =>
      kind.label ++ " Value- " ++ raw ++ " is not valid at Line: " ++
        natText line ++
        " Character Position - " ++ natText start ++ "-" ++ natText stop

/-- The diagnostic of a field of a sheet. -/
def locate (sheet : Sheet) (kind : FieldKind) (field : Field) : Diagnostic :=
  let place := sheet.position field.offset
  let stop := place.column + field.text.length
  { kind := kind
    raw := field.text
    line := place.line
    start := place.column
    stop := stop
    message := render kind field.text place.line place.column stop }

/-- A diagnostic keeps the kind of the field. -/
@[simp] theorem locate_kind (sheet : Sheet) (kind : FieldKind) (field : Field) :
    (locate sheet kind field).kind = kind := rfl

/-- A diagnostic keeps the text of the field. -/
@[simp] theorem locate_raw (sheet : Sheet) (kind : FieldKind) (field : Field) :
    (locate sheet kind field).raw = field.text := rfl

end Diagnostic

/-- Diagnostics in the order in which they came up, at most one for each
message. -/
structure Diagnostics where
  entries : Array Diagnostic
  seen : Std.HashSet String

namespace Diagnostics

/-- No diagnostics. -/
def empty : Diagnostics := ⟨#[], ∅⟩

/-- Add a diagnostic unless its message is already there. -/
def push (ds : Diagnostics) (d : Diagnostic) : Diagnostics :=
  if ds.seen.contains d.message then ds
  else ⟨ds.entries.push d, ds.seen.insert d.message⟩

/-- Whether pushing the diagnostic would add it. -/
def accepts (ds : Diagnostics) (d : Diagnostic) : Bool :=
  !ds.seen.contains d.message

/-- Add several diagnostics in order. -/
def extend (ds : Diagnostics) (more : List Diagnostic) : Diagnostics :=
  more.foldl push ds

/-- Collect diagnostics in order. -/
def ofList (more : List Diagnostic) : Diagnostics :=
  empty.extend more

/-- The diagnostics kept. -/
def toList (ds : Diagnostics) : List Diagnostic :=
  ds.entries.toList

/-- The number of diagnostics kept. -/
def size (ds : Diagnostics) : Nat :=
  ds.entries.size

/-- Whether nothing was rejected. -/
def isEmpty (ds : Diagnostics) : Bool :=
  ds.entries.isEmpty

/-- The messages in order. -/
def messages (ds : Diagnostics) : List String :=
  ds.toList.map Diagnostic.message

/-- The wording of the rejection as a whole. -/
def summary (ds : Diagnostics) : String :=
  "FXQL submission rejected with " ++ natText ds.size ++ " invalid field(s)"

@[simp] theorem toList_empty : empty.toList = [] := rfl

/-- A collection without diagnostics has no entries. -/
theorem isEmpty_iff {ds : Diagnostics} :
    ds.isEmpty = true ↔ ds.toList = [] := by
  simp [isEmpty, toList]

/-- Pushing a new message appends the diagnostic. -/
theorem toList_push_of_accepts {ds : Diagnostics} {d : Diagnostic}
    (h : ds.accepts d = true) : (ds.push d).toList = ds.toList ++ [d] := by
  have hnot : ds.seen.contains d.message = false := by simpa [accepts] using h
  simp [push, toList, hnot]

/-- Pushing a known message changes nothing. -/
theorem push_of_not_accepts {ds : Diagnostics} {d : Diagnostic}
    (h : ds.accepts d = false) : ds.push d = ds := by
  have hseen : ds.seen.contains d.message = true := by simpa [accepts] using h
  simp [push, hseen]

end Diagnostics

end RateDesk
