import RateDesk.Review
import RateDesk.Store

/-!
# The desk

The desk takes submissions one after the other.  Each is reviewed, its entries
are handed to the store, and the submitter gets them back if the store
acknowledged them all.
-/

namespace RateDesk

/-- Why a submission did not go through. -/
inductive DeskError
  | invalid (diagnostics : Diagnostics)
  /-- The store acknowledged another number of entries than it was given. -/
  | countMismatch (submitted stored : Nat)
  | store (error : StoreError)

namespace DeskError

/-- The wording of an error. -/
def message : DeskError → String
  | .invalid diagnostics => diagnostics.summary
  | .countMismatch submitted stored =>
      "submitted " ++ natText submitted ++ " records but " ++ natText stored ++
        " were stored"
  | .store error => error.message

/-- Whether the submitter has to mend the submission. -/
def isClientError : DeskError → Bool
  | .invalid _ => true
  | _ => false

end DeskError

/-- A source of identifiers and a store. -/
structure Desk where
  /-- Where the identifiers of new entries come from. -/
  ids : IdSource
  store : Store

namespace Desk

/-- A desk with an empty ledger. -/
def fresh (ids : IdSource) : Desk :=
  ⟨ids, .memory Ledger.empty⟩

/-- What became of a submission. -/
structure Handled where
  /-- The entries, or why there are none. -/
  result : Except DeskError (List Entry)
  desk : Desk
  notices : List Notice

/-- Hand entries to the store and check its answer. -/
def file (d : Desk) (entries : List Entry) : Handled :=
  let receipt := d.store.deposit entries
  let after : Desk := { d with store := receipt.store }
  let skipped := receipt.skipped.map Notice.duplicateEntry
  match receipt.acknowledged with
  | .error error =>
      ⟨.error (.store error), after,
        skipped ++ [.storeFailed error entries.length]⟩
  | .ok stored =>
      if stored = entries.length then
        ⟨.ok entries, after, skipped ++ [.accepted stored]⟩
      else
        ⟨.error (.countMismatch entries.length stored), after,
          skipped ++ [.unexpectedCount entries.length stored]⟩

/-- Handle a submission. -/
def process (d : Desk) (raw : String) : Handled :=
  let review := Review.ofRaw raw
  match review.book d.ids with
  | (.error found, ids) =>
      ⟨.error (.invalid found), { d with ids := ids }, review.notices⟩
  | (.ok entries, ids) =>
      let filed := file { d with ids := ids } entries
      { filed with notices := review.notices ++ filed.notices }

/-- Handle submissions one after the other; the answers come in the same
order. -/
def processAll (d : Desk) : List String → List Handled
  | [] => []
  | raw :: rest =>
      let handled := d.process raw
      handled :: handled.desk.processAll rest

end Desk

end RateDesk
