import Mathlib.Algebra.GroupWithZero.Nat
import Mathlib.Data.Finset.Card
import RateDesk.Proofs.Ledger.Batches

/-!
# Batches in any order

Which batch is handed over first decides which of two entries under one
identifier is kept, and how many entries each batch is acknowledged with.  It
does not decide how many entries are kept, nor under which identifiers: these
are the identifiers that occur in the batches.

The numbers acknowledged along a run add up to the newcomers of all its batches.
These have each identifier once, so that their number no longer depends on the
order.

Main results:

- Theorem `Store.Keeps.acknowledgements`: what the numbers acknowledged along a
  run add up to.
- Theorem `Store.Keeps.identifiers_ledger`: the identifiers under which entries
  are kept.
- Theorem `Store.batch_stays_together`: where the entries of a batch are found
  later.
- Theorem `Store.stores_alike_in_any_order`: two runs with the same batches.
-/

namespace RateDesk

/-- The identifiers that occur in a list of entries. -/
def Entry.identifiers (entries : List Entry) : Finset EntryId :=
  (entries.map Entry.id).toFinset

/-- The identifiers under which a ledger finds an entry. -/
def Ledger.identifiers (l : Ledger) : Finset EntryId :=
  l.table.keys.toFinset

/-- Each entry of a ledger has an identifier of its own. -/
theorem Ledger.card_identifiers (l : Ledger) : l.identifiers.card = l.size := by
  rw [identifiers, List.toFinset_card_of_nodup Std.HashMap.nodup_keys,
    Std.HashMap.length_keys, size]

namespace Store

/-- The numbers acknowledged for batches that are handed over one after the
other. -/
def acknowledgements (s : Store) :
    List (List Entry) → List (Except StoreError Nat)
  | [] => []
  | batch :: rest =>
      (s.deposit batch).acknowledged ::
        (s.deposit batch).store.acknowledgements rest

namespace Keeps

variable {s : Store} {entries : List Entry}

/-- The numbers acknowledged along a run add up to its newcomers. -/
theorem acknowledgements (h : s.Keeps entries) (batches : List (List Entry)) :
    ∃ counts : List Nat, s.acknowledgements batches = counts.map .ok ∧
      counts.sum = (Entry.newcomers entries batches.flatten).length := by
  induction batches generalizing s entries with
  | nil => exact ⟨[], rfl, rfl⟩
  | cons batch rest ih =>
      rcases h.deposit batch with ⟨hnext, -, hanswer⟩
      rcases ih hnext with ⟨counts, hcounts, hsum⟩
      refine ⟨(Entry.newcomers entries batch).length :: counts, ?_, ?_⟩
      · rw [Store.acknowledgements, hanswer, hcounts, List.map_cons]
      · rw [List.sum_cons, hsum, List.flatten_cons, Entry.newcomers_append,
          List.length_append]

/-- The identifiers of the entries handed over are those under which entries are
kept. -/
theorem identifiers_ledger (h : s.Keeps entries) :
    s.ledger.identifiers = Entry.identifiers entries := by
  ext id
  rw [Ledger.identifiers, Entry.identifiers, List.mem_toFinset,
    List.mem_toFinset, ← h.consistent.mem_order_iff,
    ← h.consistent.map_id_toList, h.toList_ledger, Entry.mem_map_id_newcomers]

/-- As many entries are kept as identifiers were handed over. -/
theorem length_newcomers (h : s.Keeps entries) :
    (Entry.newcomers [] entries).length = (Entry.identifiers entries).card := by
  rw [← h.toList_ledger, ← h.consistent.size_eq, ← Ledger.card_identifiers,
    h.identifiers_ledger]

/-- What is handed over later goes behind what is kept. -/
theorem toList_after (h : s.Keeps entries) (batches : List (List Entry)) :
    (s.after batches).ledger.toList =
      s.ledger.toList ++ Entry.newcomers entries batches.flatten := by
  rw [(h.after batches).toList_ledger, Entry.newcomers_append, List.nil_append,
    h.toList_ledger]

end Keeps

/-- A new store keeps the newcomers of all batches it is handed. -/
theorem keeps_after (run : List (List Entry)) :
    ((memory Ledger.empty).after run).Keeps run.flatten := by
  simpa using keeps_empty.after run

theorem after_append (s : Store) (before later : List (List Entry)) :
    s.after (before ++ later) = (s.after before).after later :=
  List.foldl_append

/-- Along every run, a batch adds some of its entries in their order.  They are
acknowledged, and they stay next to each other in every later list. -/
theorem batch_stays_together (before : List (List Entry)) (batch : List Entry)
    (later : List (List Entry)) :
    ∃ added behind : List Entry,
      added.Sublist batch ∧
      (((memory Ledger.empty).after before).deposit batch).acknowledged =
        .ok added.length ∧
      ((memory Ledger.empty).after (before ++ [batch])).ledger.toList =
        ((memory Ledger.empty).after before).ledger.toList ++ added ∧
      ((memory Ledger.empty).after (before ++ batch :: later)).ledger.toList =
        ((memory Ledger.empty).after before).ledger.toList ++ added ++
          behind := by
  rcases (keeps_after before).deposit batch with ⟨hnext, htoList, hanswer⟩
  refine ⟨_, Entry.newcomers (before.flatten ++ batch) later.flatten,
    Entry.newcomers_sublist before.flatten batch, hanswer, ?_, ?_⟩
  · rw [after_append]
    exact htoList
  · rw [after_append, ← htoList]
    exact hnext.toList_after later

/-- The batches of a run may be handed over in another order.  The numbers
acknowledged add up to the same total, the sizes are equal, and entries are kept
under the same identifiers; each time these are the identifiers that occur in
the batches.  Along every run, the entries that a batch adds are some of its
entries in their order, and they stay next to each other in every later list. -/
theorem stores_alike_in_any_order {batches other : List (List Entry)}
    (h : batches.Perm other) :
    let start := memory Ledger.empty
    let ids := Entry.identifiers batches.flatten
    (∃ counts counts' : List Nat,
      start.acknowledgements batches = counts.map .ok ∧
      start.acknowledgements other = counts'.map .ok ∧
      counts.sum = ids.card ∧ counts'.sum = ids.card) ∧
    ((start.after batches).ledger.size = ids.card ∧
      (start.after other).ledger.size = ids.card) ∧
    ((start.after batches).ledger.identifiers = ids ∧
      (start.after other).ledger.identifiers = ids) ∧
    (∀ before batch later, ∃ added behind : List Entry,
      added.Sublist batch ∧
      ((start.after before).deposit batch).acknowledged = .ok added.length ∧
      (start.after (before ++ [batch])).ledger.toList =
        (start.after before).ledger.toList ++ added ∧
      (start.after (before ++ batch :: later)).ledger.toList =
        (start.after before).ledger.toList ++ added ++ behind) := by
  intro start ids
  have hids : Entry.identifiers other.flatten = ids :=
    (List.toFinset_eq_of_perm _ _ (h.flatten.map Entry.id)).symm
  have hstored : (start.after batches).ledger.identifiers = ids :=
    (keeps_after batches).identifiers_ledger
  have hstored' : (start.after other).ledger.identifiers = ids :=
    (keeps_after other).identifiers_ledger.trans hids
  rcases keeps_empty.acknowledgements batches with ⟨counts, hcounts, hsum⟩
  rcases keeps_empty.acknowledgements other with ⟨counts', hcounts', hsum'⟩
  rw [(keeps_after batches).length_newcomers] at hsum
  rw [(keeps_after other).length_newcomers, hids] at hsum'
  refine ⟨⟨counts, counts', hcounts, hcounts', hsum, hsum'⟩, ?_,
    ⟨hstored, hstored'⟩, batch_stays_together⟩
  rw [← Ledger.card_identifiers, ← Ledger.card_identifiers, hstored, hstored']
  exact ⟨rfl, rfl⟩

/-- Two batches that share an identifier: whichever comes first, four entries
are acknowledged. -/
theorem stores_alike_in_any_order_shared_identifier :
    let code : CurrencyCode :=
      ⟨⟨'U', by decide⟩, ⟨'S', by decide⟩, ⟨'D', by decide⟩⟩
    let batch : Nat → List Nat → List Entry := fun cap ids =>
      ids.map fun n => ⟨.ofNat n, ⟨code, code⟩, ⟨1, 0⟩, ⟨2, 0⟩, cap⟩
    let front := batch 5 [1, 2]
    let back := batch 6 [2, 3, 4]
    [front, back].Perm [back, front] ∧
    ∃ counts counts' : List Nat,
      (memory Ledger.empty).acknowledgements [front, back] = counts.map .ok ∧
      (memory Ledger.empty).acknowledgements [back, front] = counts'.map .ok ∧
      counts.sum = 4 ∧ counts'.sum = 4 := by
  intro code batch front back
  have hperm : [front, back].Perm [back, front] := List.Perm.swap back front []
  have hcard : (Entry.identifiers [front, back].flatten).card = 4 := by
    decide +kernel
  have hstores := (stores_alike_in_any_order hperm).1
  rw [hcard] at hstores
  exact ⟨hperm, hstores⟩

end Store

end RateDesk
