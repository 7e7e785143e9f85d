import RateDesk.Store
import RateDesk.Proofs.Ledger.Arrival

/-!
# Batches in a row

A store in memory is handed batches of entries one after the other.  Whatever
identifiers they carry, and however often these repeat within a batch or across
batches, the store answers every question like a list to which entries are only
appended: all entries handed over, less those whose identifier occurred before.

`Store.Keeps` is the invariant.  One batch extends the list of entries handed
over, and from that a run of batches follows.

Main results:

- Theorem `Ledger.Consistent.size_eq`: the table has as many entries as the
  list.
- Theorem `Store.Keeps.deposit`: what one batch does.
- Theorem `Store.first_write_wins`: what a store answers after any batches, and
  what the next batch does to it.
-/

namespace RateDesk

/-! ## Newcomers of a run -/

namespace Entry

/-- The newcomers of two lists are those of the first, and behind them those of
the second to which the first is known. -/
theorem newcomers_append (earlier front back : List Entry) :
    newcomers earlier (front ++ back) =
      newcomers earlier front ++ newcomers (earlier ++ front) back := by
  induction front generalizing earlier with
  | nil => simp [newcomers]
  | cons e front ih =>
      rw [List.cons_append, newcomers, newcomers, ih, List.append_assoc,
        List.singleton_append]
      split
      · rfl
      · rw [List.cons_append]

/-- Under an identifier that did not occur earlier, the newcomers have the first
entry of the batch. -/
theorem find?_newcomers {earlier : List Entry} {id : EntryId}
    (hid : id ∉ earlier.map Entry.id) (batch : List Entry) :
    (newcomers earlier batch).find? (fun e => e.id = id) =
      batch.find? (fun e => e.id = id) := by
  induction batch generalizing earlier with
  | nil => rfl
  | cons e rest ih =>
      by_cases he : e.id = id
      · have hnew : e.id ∉ earlier.map Entry.id := by
          rw [he]
          exact hid
        rw [newcomers, if_neg hnew, List.find?_cons_of_pos (by simpa using he),
          List.find?_cons_of_pos (by simpa using he)]
      · have hnext : id ∉ (earlier ++ [e]).map Entry.id := by
          rw [List.map_append, List.mem_append, not_or]
          exact ⟨hid, by simpa using Ne.symm he⟩
        rw [newcomers, List.find?_cons_of_neg (by simpa using he), ← ih hnext]
        split
        · rfl
        · rw [List.find?_cons_of_neg (by simpa using he)]

/-- The newcomers have every identifier of the batch. -/
theorem mem_map_id_newcomers (batch : List Entry) (id : EntryId) :
    id ∈ (newcomers [] batch).map Entry.id ↔ id ∈ batch.map Entry.id := by
  have hfirst : id ∉ ([] : List Entry).map Entry.id := by simp
  have hmem : ∀ entries : List Entry, id ∈ entries.map Entry.id ↔
      (entries.find? fun e => e.id = id).isSome = true := by
    intro entries
    simp [List.find?_isSome]
  rw [hmem, hmem, find?_newcomers hfirst]

end Entry

/-! ## Both sides of a ledger -/

namespace Ledger.Consistent

variable {l : Ledger}

/-- The entries of the list stand in the recorded order. -/
theorem map_id_toList (h : l.Consistent) :
    l.toList.map Entry.id = l.order.toList := by
  rw [toList, List.map_filterMap]
  have hsome : l.order.toList.filterMap (fun id => (l.get? id).map Entry.id) =
      l.order.toList.filterMap some := by
    apply List.filterMap_congr
    intro id hid
    rw [h.mem_order, contains_eq_isSome_get?, Option.isSome_iff_exists] at hid
    rcases hid with ⟨e, he⟩
    rw [he, Option.map_some, h.keyed he]
  rw [hsome, List.filterMap_some]

/-- The order has the identifiers of the table. -/
theorem mem_order_iff (h : l.Consistent) (id : EntryId) :
    id ∈ l.order.toList ↔ id ∈ l.table.keys := by
  rw [h.mem_order, Std.HashMap.mem_keys]
  rfl

/-- The table has as many entries as the list. -/
theorem size_eq (h : l.Consistent) : l.size = l.toList.length := by
  have hperm : l.table.keys.Perm l.order.toList := by
    rw [List.perm_ext_iff_of_nodup Std.HashMap.nodup_keys h.nodup_order]
    intro id
    exact (h.mem_order_iff id).symm
  calc
    l.size = l.table.keys.length := Std.HashMap.length_keys.symm
    _ = l.order.toList.length := hperm.length_eq
    _ = l.toList.length := by rw [← h.map_id_toList, List.length_map]

/-- The table finds the first entry of the list under an identifier. -/
theorem get?_eq_find? (h : l.Consistent) (id : EntryId) :
    l.get? id = l.toList.find? (fun e => e.id = id) := by
  cases hfind : l.toList.find? (fun e => e.id = id) with
  | none =>
      rw [Option.eq_none_iff_forall_ne_some]
      intro e hget
      rcases h.get?_eq_some_iff.mp hget with ⟨hmem, hid⟩
      have hnone := List.find?_eq_none.mp hfind e hmem
      exact hnone (by simpa using hid)
  | some e =>
      rw [h.get?_eq_some_iff]
      exact ⟨List.mem_of_find?_eq_some hfind,
        by simpa using List.find?_some hfind⟩

end Ledger.Consistent

/-! ## Runs of batches -/

namespace Store

/-- The store after it has been handed batches. -/
def after (s : Store) (batches : List (List Entry)) : Store :=
  batches.foldl (fun s batch => (s.deposit batch).store) s

/-- The store is in memory, and it keeps the newcomers of the entries it was
handed. -/
structure Keeps (s : Store) (entries : List Entry) : Prop where
  store_eq : s = .memory s.ledger
  consistent : s.ledger.Consistent
  toList_ledger : s.ledger.toList = Entry.newcomers [] entries

theorem keeps_empty : Keeps (.memory Ledger.empty) [] where
  store_eq := rfl
  consistent := Ledger.consistent_empty
  toList_ledger := Ledger.toList_empty

namespace Keeps

variable {s : Store} {entries : List Entry}

theorem deposit_eq (h : s.Keeps entries) (batch : List Entry) :
    (s.deposit batch).store = .memory (s.ledger.deposit batch).ledger ∧
      (s.deposit batch).acknowledged = .ok (s.ledger.deposit batch).stored := by
  rw [h.store_eq]
  exact ⟨rfl, rfl⟩

/-- A batch adds its newcomers, and their number is acknowledged. -/
theorem deposit (h : s.Keeps entries) (batch : List Entry) :
    (s.deposit batch).store.Keeps (entries ++ batch) ∧
      (s.deposit batch).store.ledger.toList =
        s.ledger.toList ++ Entry.newcomers entries batch ∧
      (s.deposit batch).acknowledged =
        .ok (Entry.newcomers entries batch).length := by
  rcases h.consistent.deposit batch with ⟨hconsistent, htoList, hstored⟩
  -- To the store only the entries it keeps are known, but they have all
  -- identifiers.
  have hnew : Entry.newcomers s.ledger.toList batch =
      Entry.newcomers entries batch := by
    apply Entry.newcomers_congr
    rw [h.toList_ledger]
    exact Entry.mem_map_id_newcomers entries
  rcases h.deposit_eq batch with ⟨hstore, hanswer⟩
  rw [hnew] at htoList hstored
  rw [hstore, hanswer, hstored]
  refine ⟨⟨rfl, hconsistent, ?_⟩, htoList, rfl⟩
  rw [Entry.newcomers_append, List.nil_append, ← h.toList_ledger]
  exact htoList

/-- After any batches the store keeps the newcomers of all entries it was
handed. -/
theorem after (h : s.Keeps entries) (batches : List (List Entry)) :
    (s.after batches).Keeps (entries ++ batches.flatten) := by
  induction batches generalizing s entries with
  | nil =>
      rw [List.flatten_nil, List.append_nil]
      exact h
  | cons batch batches ih =>
      rw [List.flatten_cons, ← List.append_assoc]
      exact ih (h.deposit batch).1

/-- The entry found under an identifier is the first one that was handed over
with it. -/
theorem get?_ledger (h : s.Keeps entries) (id : EntryId) :
    s.ledger.get? id = entries.find? (fun e => e.id = id) := by
  rw [h.consistent.get?_eq_find?, h.toList_ledger]
  exact Entry.find?_newcomers (by simp) entries

end Keeps

/-- After any batches, a store in memory that started empty is an append-only
list: it lists all entries handed over, less those whose identifier occurred
before; table and order have the same identifiers, each once; the size is that
of the list; and the first entry under an identifier is the one that is found.
The next batch is acknowledged with the number by which the size grows, and it
takes nothing away. -/
theorem first_write_wins (batches : List (List Entry)) (batch : List Entry) :
    let store := (memory Ledger.empty).after batches
    let next := store.deposit batch
    store.ledger.toList = Entry.newcomers [] batches.flatten ∧
    store.ledger.order.toList.Nodup ∧
    (∀ id, id ∈ store.ledger.order.toList ↔ id ∈ store.ledger.table.keys) ∧
    store.ledger.size = store.ledger.toList.length ∧
    (store.ledger.isEmpty = true ↔ store.ledger.toList.length = 0) ∧
    (∀ id, store.ledger.get? id = batches.flatten.find? (fun e => e.id = id)) ∧
    next.store = (memory Ledger.empty).after (batches ++ [batch]) ∧
    (∃ grown, next.acknowledged = .ok grown ∧
      next.store.ledger.size = store.ledger.size + grown) ∧
    store.ledger.toList <+: next.store.ledger.toList := by
  intro store next
  have hkeeps : store.Keeps batches.flatten := by
    simpa using keeps_empty.after batches
  rcases hkeeps.deposit batch with ⟨hnext, htoList, hanswer⟩
  have hsize := hkeeps.consistent.size_eq
  have hempty : store.ledger.isEmpty = true ↔
      store.ledger.toList.length = 0 := by
    rw [← hsize, Ledger.isEmpty, Ledger.size,
      Std.HashMap.isEmpty_eq_size_eq_zero, beq_iff_eq]
  have hgrown : next.store.ledger.size =
      store.ledger.size + (Entry.newcomers batches.flatten batch).length := by
    rw [hnext.consistent.size_eq, htoList, List.length_append, hsize]
  refine ⟨hkeeps.toList_ledger, hkeeps.consistent.nodup_order,
    hkeeps.consistent.mem_order_iff, hsize, hempty, hkeeps.get?_ledger, ?_,
    ⟨_, hanswer, hgrown⟩, ?_⟩
  · rw [after, List.foldl_append]
    rfl
  · rw [htoList]
    exact List.prefix_append _ _

end Store

end RateDesk
