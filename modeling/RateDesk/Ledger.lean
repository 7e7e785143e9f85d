import Std.Data.HashMap
import RateDesk.Entry

/-!
# The ledger

The ledger keeps entries in memory: a table from identifiers to entries and the
identifiers in the order of their arrival.  The first entry under an identifier
stays; later ones are skipped.
-/

namespace RateDesk

/-- Entries by identifier, and their order. -/
structure Ledger where
  /-- The entries by identifier. -/
  table : Std.HashMap EntryId Entry
  /-- The identifiers in order of arrival. -/
  order : Array EntryId

namespace Ledger

/-- A ledger without entries. -/
def empty : Ledger := ⟨∅, #[]⟩

/-- The entry under an identifier. -/
def get? (l : Ledger) (id : EntryId) : Option Entry :=
  l.table[id]?

/-- Whether an identifier is taken. -/
def contains (l : Ledger) (id : EntryId) : Bool :=
  l.table.contains id

/-- The number of entries. -/
def size (l : Ledger) : Nat :=
  l.table.size

/-- Whether there are no entries. -/
def isEmpty (l : Ledger) : Bool :=
  l.table.isEmpty

/-- The entries in order of arrival. -/
def toList (l : Ledger) : List Entry :=
  l.order.toList.filterMap l.get?

/-- Keep an entry unless its identifier is taken. -/
def insert (l : Ledger) (e : Entry) : Ledger :=
  if l.contains e.id then l else ⟨l.table.insert e.id e, l.order.push e.id⟩

/-- What became of a batch of entries. -/
structure Deposit where
  ledger : Ledger
  stored : Nat
  /-- The identifiers of the entries that were skipped, in order. -/
  skipped : List EntryId

/-- Add an entry to a deposit. -/
def Deposit.add (d : Deposit) (e : Entry) : Deposit :=
  if d.ledger.contains e.id then { d with skipped := d.skipped ++ [e.id] }
  else { d with ledger := d.ledger.insert e, stored := d.stored + 1 }

/-- Keep a batch of entries, in order. -/
def deposit (l : Ledger) (entries : List Entry) : Deposit :=
  entries.foldl Deposit.add ⟨l, 0, []⟩

/-- An empty ledger finds nothing. -/
@[simp] theorem get?_empty (id : EntryId) : empty.get? id = none := by
  simp [empty, get?]

@[simp] theorem toList_empty : empty.toList = [] := by
  simp [empty, toList]

/-- An identifier is taken exactly when there is an entry under it. -/
theorem contains_eq_isSome_get? (l : Ledger) (id : EntryId) :
    l.contains id = (l.get? id).isSome := by
  simp [contains, get?]

/-- A new entry is found under its identifier, and the others as before. -/
theorem get?_insert_of_not_contains {l : Ledger} {e : Entry}
    (h : l.contains e.id = false) (id : EntryId) :
    (l.insert e).get? id = if e.id = id then some e else l.get? id := by
  simp [insert, h, get?, Std.HashMap.getElem?_insert]

end Ledger

end RateDesk
