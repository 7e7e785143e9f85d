import RateDesk.Ledger
import RateDesk.Notice

/-!
# Stores

The desk hands accepted entries to a store and compares the number the store
acknowledges with the number it handed over.  A store is a ledger; it may also
acknowledge wrong numbers, or take nothing at all.
-/

namespace RateDesk

/-- Where entries are kept. -/
inductive Store
  /-- A ledger that acknowledges what it keeps. -/
  | memory (ledger : Ledger)
  /-- A ledger whose acknowledged numbers are off by the given amount. -/
  | skewed (ledger : Ledger) (offBy : Int)
  /-- A store that fails for the given reason. -/
  | offline (reason : String)

namespace Store

/-- The ledger of a store; a store that fails has kept nothing. -/
def ledger : Store → Ledger
  | .memory l => l
  | .skewed l _ => l
  | .offline _ => Ledger.empty

/-- What a store answers to a batch of entries. -/
structure Receipt where
  /-- The number of entries acknowledged, or why there is none. -/
  acknowledged : Except StoreError Nat
  store : Store
  /-- The identifiers of the entries that were skipped. -/
  skipped : List EntryId

/-- Hand a batch of entries to a store. -/
def deposit (s : Store) (entries : List Entry) : Receipt :=
  match s with
  | .memory l =>
      let d := l.deposit entries
      ⟨.ok d.stored, .memory d.ledger, d.skipped⟩
  | .skewed l offBy =>
      let d := l.deposit entries
      ⟨.ok ((d.stored : Int) + offBy).toNat, .skewed d.ledger offBy, d.skipped⟩
  | .offline reason => ⟨.error (.unavailable reason), s, []⟩

end Store

end RateDesk
