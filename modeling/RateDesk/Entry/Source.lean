import RateDesk.Entry.KeyStream

/-!
# Sources of identifiers

A source is an infinite sequence of identifiers and the number of those already
handed out.  Identifiers are taken from it in order, one for each new entry.
-/

namespace RateDesk

/-- A sequence of identifiers, used up to some point. -/
structure IdSource where
  supply : Nat → EntryId
  /-- How many of them are used up. -/
  used : Nat

namespace IdSource

/-- The next identifiers, in order. -/
def next (ids : IdSource) (n : Nat) : List EntryId :=
  (List.range n).map fun i => ids.supply (ids.used + i)

/-- The source after some more identifiers are used up. -/
def advance (ids : IdSource) (n : Nat) : IdSource :=
  { ids with used := ids.used + n }

/-- A source hands out as many identifiers as it is asked for. -/
@[simp] theorem length_next (ids : IdSource) (n : Nat) :
    (ids.next n).length = n := by
  simp [next]

/-- Handing out identifiers leaves the supply as it is. -/
@[simp] theorem advance_supply (ids : IdSource) (n : Nat) :
    (ids.advance n).supply = ids.supply := rfl

/-- Handing out identifiers counts them as used. -/
@[simp] theorem advance_used (ids : IdSource) (n : Nat) :
    (ids.advance n).used = ids.used + n := rfl

/-- The numbers from one on. -/
def counting : IdSource :=
  ⟨fun i => EntryId.ofNat (i + 1), 0⟩

/-- A list over and over again; an empty list gives the counting source. -/
def cycle (ids : List EntryId) : IdSource :=
  match ids with
  | [] => counting
  | first :: _ => ⟨fun i => ids.getD (i % ids.length) first, 0⟩

/-- The identifiers cut from the key stream of a key. -/
def ofKey (key : KeyStream.Key) : IdSource :=
  ⟨KeyStream.entryId key, 0⟩

/-- The identifiers that a seed determines. -/
def seeded (seed : UInt64) : IdSource :=
  ofKey (KeyStream.Key.ofSeed seed)

end IdSource

end RateDesk
