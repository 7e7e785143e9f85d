import Mathlib.Data.List.Nodup
import RateDesk.Ledger

/-!
# The ledger as a list

A ledger keeps a table and an order, and each answers some of the questions put
to it.  This module shows that both follow one list, the entries in order of
arrival: the table finds the entry of that list under an identifier, and keeping
a batch appends those of its entries whose identifier did not occur before.

Main results:

- Theorem `Ledger.Consistent.get?_eq_some_iff`: what the table finds is in the
  list.
- Theorem `Ledger.Consistent.deposit`: what a batch of entries does to the list.
-/

namespace RateDesk

namespace Entry

/-- The entries of a batch whose identifier occurs neither among the earlier
entries nor before them in the batch. -/
def newcomers (earlier : List Entry) : List Entry → List Entry
  | [] => []
  | e :: rest =>
      if e.id ∈ earlier.map Entry.id then newcomers (earlier ++ [e]) rest
      else e :: newcomers (earlier ++ [e]) rest

/-- Of the earlier entries only the identifiers matter, in any order. -/
theorem newcomers_congr {earlier other : List Entry}
    (h : ∀ id, id ∈ earlier.map Entry.id ↔ id ∈ other.map Entry.id)
    (batch : List Entry) : newcomers earlier batch = newcomers other batch := by
  induction batch generalizing earlier other with
  | nil => rfl
  | cons e rest ih =>
      have hnext : ∀ id, id ∈ (earlier ++ [e]).map Entry.id ↔
          id ∈ (other ++ [e]).map Entry.id := by
        intro id
        rw [List.map_append, List.map_append, List.mem_append,
          List.mem_append, h id]
      unfold newcomers
      rw [ih hnext]
      by_cases hid : e.id ∈ earlier.map Entry.id
      · rw [if_pos hid, if_pos ((h e.id).mp hid)]
      · rw [if_neg hid, if_neg fun hmem => hid ((h e.id).mpr hmem)]

/-- An entry under a known identifier changes nothing for those behind it. -/
theorem newcomers_cons_of_mem {earlier : List Entry} {e : Entry}
    (h : e.id ∈ earlier.map Entry.id) (rest : List Entry) :
    newcomers earlier (e :: rest) = newcomers earlier rest := by
  rw [newcomers, if_pos h]
  apply newcomers_congr
  intro id
  rw [List.map_append, List.mem_append]
  constructor
  · rintro (hmem | hmem)
    · exact hmem
    · have hid : id = e.id := by simpa using hmem
      rw [hid]
      exact h
  · exact Or.inl

/-- The newcomers are entries of the batch, in the order of the batch. -/
theorem newcomers_sublist (earlier batch : List Entry) :
    (newcomers earlier batch).Sublist batch := by
  induction batch generalizing earlier with
  | nil => exact List.Sublist.refl []
  | cons e rest ih =>
      unfold newcomers
      split
      · exact (ih _).cons e
      · exact (ih _).cons_cons e

end Entry

namespace Ledger

/-- Table and order agree: the order has every identifier of the table once, and
each entry is kept under its own identifier. -/
structure Consistent (l : Ledger) : Prop where
  mem_order : ∀ id, id ∈ l.order.toList ↔ l.contains id = true
  nodup_order : l.order.toList.Nodup
  keyed : ∀ {id e}, l.get? id = some e → e.id = id

theorem consistent_empty : Consistent empty where
  mem_order := by simp [empty, contains]
  nodup_order := List.nodup_nil
  keyed := by simp

/-- A new entry takes its own identifier and no other. -/
theorem contains_insert {l : Ledger} {e : Entry}
    (hnew : l.contains e.id = false) (id : EntryId) :
    (l.insert e).contains id = true ↔ id = e.id ∨ l.contains id = true := by
  rw [contains_eq_isSome_get?, get?_insert_of_not_contains hnew,
    contains_eq_isSome_get?]
  by_cases hid : e.id = id
  · simp [hid]
  · simp [hid, Ne.symm hid]

theorem order_insert {l : Ledger} {e : Entry} (hnew : l.contains e.id = false) :
    (l.insert e).order.toList = l.order.toList ++ [e.id] := by
  simp [insert, hnew]

namespace Consistent

variable {l : Ledger}

/-- Under a new identifier an entry can be kept. -/
theorem insert (h : l.Consistent) {e : Entry} (hnew : l.contains e.id = false) :
    (l.insert e).Consistent where
  mem_order := by
    intro id
    rw [order_insert hnew, contains_insert hnew, List.mem_append, h.mem_order,
      List.mem_singleton, or_comm]
  nodup_order := by
    have hfresh : e.id ∉ l.order.toList := by
      rw [h.mem_order, hnew]
      exact Bool.false_ne_true
    rw [order_insert hnew, List.nodup_append]
    refine ⟨h.nodup_order, List.nodup_singleton _, ?_⟩
    intro id hid other hother
    rw [List.mem_singleton.mp hother]
    rintro rfl
    exact hfresh hid
  keyed := by
    intro id other hget
    rw [get?_insert_of_not_contains hnew] at hget
    by_cases hid : e.id = id
    · rw [if_pos hid] at hget
      cases hget
      exact hid
    · rw [if_neg hid] at hget
      exact h.keyed hget

/-- A new entry comes last. -/
theorem toList_insert (h : l.Consistent) {e : Entry}
    (hnew : l.contains e.id = false) :
    (l.insert e).toList = l.toList ++ [e] := by
  have hold : l.order.toList.filterMap (l.insert e).get? =
      l.order.toList.filterMap l.get? := by
    apply List.filterMap_congr
    intro id hid
    have hne : e.id ≠ id := by
      rintro rfl
      rw [h.mem_order, hnew] at hid
      exact Bool.false_ne_true hid
    rw [get?_insert_of_not_contains hnew, if_neg hne]
  have hlast : (l.insert e).get? e.id = some e := by
    rw [get?_insert_of_not_contains hnew, if_pos rfl]
  rw [toList, order_insert hnew, List.filterMap_append, hold, toList]
  simp [hlast]

/-- The table finds exactly the entries in the list. -/
theorem get?_eq_some_iff (h : l.Consistent) {id : EntryId} {e : Entry} :
    l.get? id = some e ↔ e ∈ l.toList ∧ e.id = id := by
  rw [toList, List.mem_filterMap]
  constructor
  · intro hget
    have hid : id ∈ l.order.toList := by
      rw [h.mem_order, contains_eq_isSome_get?, hget]
      rfl
    exact ⟨⟨id, hid, hget⟩, h.keyed hget⟩
  · rintro ⟨⟨other, -, hget⟩, rfl⟩
    rw [h.keyed hget]
    exact hget

theorem contains_iff (h : l.Consistent) {id : EntryId} :
    l.contains id = true ↔ id ∈ l.toList.map Entry.id := by
  rw [contains_eq_isSome_get?, Option.isSome_iff_exists, List.mem_map]
  simp only [h.get?_eq_some_iff]

end Consistent

/-! ## Batches -/

namespace Deposit

/-- What keeping a batch does: the entries under new identifiers are appended,
and their number is added to the count. -/
structure Follows (d : Deposit) (batch : List Entry)
    (after : Deposit) : Prop where
  consistent : after.ledger.Consistent
  toList_ledger : after.ledger.toList =
    d.ledger.toList ++ Entry.newcomers d.ledger.toList batch
  stored_eq : after.stored =
    d.stored + (Entry.newcomers d.ledger.toList batch).length

/-- A batch whose first entry is under a taken identifier is kept like its
rest. -/
theorem Follows.cons_taken {d after : Deposit} {e : Entry} {rest : List Entry}
    (h : d.ledger.Consistent) (htaken : d.ledger.contains e.id = true)
    (hrest : (d.add e).Follows rest after) : d.Follows (e :: rest) after := by
  have hledger : (d.add e).ledger = d.ledger := by rw [add, if_pos htaken]
  have hstored : (d.add e).stored = d.stored := by rw [add, if_pos htaken]
  have hsame := Entry.newcomers_cons_of_mem (h.contains_iff.mp htaken) rest
  refine ⟨hrest.consistent, ?_, ?_⟩
  · rw [hsame, hrest.toList_ledger, hledger]
  · rw [hsame, hrest.stored_eq, hstored, hledger]

/-- A first entry under a new identifier is kept, and the rest behind it. -/
theorem Follows.cons_new {d after : Deposit} {e : Entry} {rest : List Entry}
    (h : d.ledger.Consistent) (hnew : d.ledger.contains e.id = false)
    (hrest : (d.add e).Follows rest after) : d.Follows (e :: rest) after := by
  have htaken : ¬d.ledger.contains e.id = true := by simp [hnew]
  have hledger : (d.add e).ledger.toList = d.ledger.toList ++ [e] := by
    rw [add, if_neg htaken]
    exact h.toList_insert hnew
  have hstored : (d.add e).stored = d.stored + 1 := by rw [add, if_neg htaken]
  have hfirst : Entry.newcomers d.ledger.toList (e :: rest) =
      e :: Entry.newcomers (d.ledger.toList ++ [e]) rest := by
    rw [Entry.newcomers, if_neg]
    rw [← h.contains_iff]
    exact htaken
  refine ⟨hrest.consistent, ?_, ?_⟩
  · rw [hfirst, hrest.toList_ledger, hledger, List.append_assoc]
    rfl
  · rw [hfirst, hrest.stored_eq, hstored, hledger, List.length_cons]
    omega

/-- Adding an entry to a deposit keeps table and order in agreement. -/
theorem consistent_add {d : Deposit} (h : d.ledger.Consistent) (e : Entry) :
    (d.add e).ledger.Consistent := by
  unfold add
  by_cases htaken : d.ledger.contains e.id = true
  · rw [if_pos htaken]
    exact h
  · rw [if_neg htaken]
    exact h.insert (by simpa using htaken)

/-- A batch adds its newcomers, and their number is counted. -/
theorem follows_foldl {d : Deposit} (h : d.ledger.Consistent)
    (batch : List Entry) : d.Follows batch (batch.foldl add d) := by
  induction batch generalizing d with
  | nil => exact ⟨h, (List.append_nil _).symm, rfl⟩
  | cons e rest ih =>
      have hrest := ih (consistent_add h e)
      by_cases htaken : d.ledger.contains e.id = true
      · exact Follows.cons_taken h htaken hrest
      · exact Follows.cons_new h (by simpa using htaken) hrest

end Deposit

/-- A batch appends the entries under new identifiers, and the count is their
number. -/
theorem Consistent.deposit {l : Ledger} (h : l.Consistent)
    (batch : List Entry) :
    (l.deposit batch).ledger.Consistent ∧
      (l.deposit batch).ledger.toList =
        l.toList ++ Entry.newcomers l.toList batch ∧
      (l.deposit batch).stored = (Entry.newcomers l.toList batch).length := by
  have hfollows := Deposit.follows_foldl (d := ⟨l, 0, []⟩) h batch
  exact ⟨hfollows.consistent, hfollows.toList_ledger,
    hfollows.stored_eq.trans (Nat.zero_add _)⟩

end Ledger

end RateDesk
