import Mathlib.Data.List.Basic
import Mathlib.Data.List.Induction
import RateDesk.Proofs.Diagnostic.Collection

/-!
# Collections by message

A collection is offered diagnostics one at a time or several at once.  Two of
them may have the same message and still differ in the other fields.  Whatever
the calls, the collection has the first diagnostic offered under each message,
in the order in which they were offered.

`Diagnostics.Collects` is the invariant: the entries are the first offers, and
the set of messages is theirs.  One diagnostic extends what was offered, and
from that a run of calls follows.

Main results:

- Theorem `Diagnostic.firstOffers_concat`: what one more offer adds.
- Theorem `Diagnostics.Collects.push`: adding one diagnostic.
- Theorem `Diagnostics.Collects.after`: the invariant along a run of calls.
- Theorem `Diagnostics.collected_by_message`: what a collection holds after any
  calls, and what it answers to the next diagnostic.
-/

namespace RateDesk

/-! ## First offers -/

namespace Diagnostic

/-- The diagnostics of a list, less those whose message occurs earlier in it. -/
def firstOffers (offered : List Diagnostic) : List Diagnostic :=
  (offered.zipIdx.filter fun d =>
    d.1.message ∉ (offered.take d.2).map message).map Prod.fst

/-- One more offer is added if its message is new, and it does not matter for
those before it. -/
theorem firstOffers_concat (offered : List Diagnostic) (d : Diagnostic) :
    firstOffers (offered ++ [d]) =
      firstOffers offered ++
        if d.message ∈ offered.map message then [] else [d] := by
  -- What stands before an earlier offer is the same in both lists.
  have hbefore : (offered.zipIdx.filter fun e =>
        e.1.message ∉ ((offered ++ [d]).take e.2).map message) =
      offered.zipIdx.filter fun e =>
        e.1.message ∉ (offered.take e.2).map message := by
    apply List.filter_congr
    intro e he
    have hplace := List.snd_lt_of_mem_zipIdx he
    rw [List.take_append_of_le_length (by omega)]
  rw [firstOffers, List.zipIdx_append, List.filter_append, hbefore,
    List.map_append, firstOffers]
  congr 1
  by_cases hold : d.message ∈ offered.map message <;> simp [hold]

/-- No message is lost. -/
theorem mem_messages_firstOffers (offered : List Diagnostic) (m : String) :
    m ∈ (firstOffers offered).map message ↔ m ∈ offered.map message := by
  induction offered using List.reverseRecOn with
  | nil => rfl
  | append_singleton offered d ih =>
      rw [firstOffers_concat, List.map_append, List.map_append, List.mem_append,
        List.mem_append, ih]
      split
      next hold =>
        constructor
        · rintro (hmem | hmem)
          · exact Or.inl hmem
          · cases hmem
        · rintro (hmem | hmem)
          · exact Or.inl hmem
          · rw [List.map_singleton, List.mem_singleton] at hmem
            rw [hmem]
            exact Or.inl hold
      next => rfl

/-- One message occurs before another one does for the first time. -/
def Precedes (offered : List Diagnostic) (a b : String) : Prop :=
  (offered.map message).idxOf a < (offered.map message).idxOf b

/-- Which of two known messages came first does not change. -/
theorem Precedes.concat {offered : List Diagnostic} {a b : String}
    (h : Precedes offered a b) (ha : a ∈ offered.map message)
    (hb : b ∈ offered.map message) (d : Diagnostic) :
    Precedes (offered ++ [d]) a b := by
  rw [Precedes, List.map_append, List.idxOf_append_of_mem ha,
    List.idxOf_append_of_mem hb]
  exact h

/-- A new message comes behind all known ones. -/
theorem precedes_concat_new {offered : List Diagnostic} {a : String}
    {d : Diagnostic} (ha : a ∈ offered.map message)
    (hd : d.message ∉ offered.map message) :
    Precedes (offered ++ [d]) a d.message := by
  rw [Precedes, List.map_append, List.idxOf_append_of_mem ha,
    List.idxOf_append_of_notMem hd]
  have hlt := List.idxOf_lt_length_of_mem ha
  omega

/-- First offers stand in the order in which their messages first occur. -/
theorem pairwise_precedes_firstOffers (offered : List Diagnostic) :
    ((firstOffers offered).map message).Pairwise (Precedes offered) := by
  induction offered using List.reverseRecOn with
  | nil => exact List.Pairwise.nil
  | append_singleton offered d ih =>
      have hknown : ∀ m ∈ (firstOffers offered).map message,
          m ∈ offered.map message :=
        fun m => (mem_messages_firstOffers offered m).mp
      have hearlier : ((firstOffers offered).map message).Pairwise
          (Precedes (offered ++ [d])) :=
        ih.imp_of_mem fun ha hb hbefore =>
          hbefore.concat (hknown _ ha) (hknown _ hb) d
      rw [firstOffers_concat, List.map_append, List.pairwise_append]
      split
      next => exact ⟨hearlier, List.Pairwise.nil, fun _ _ _ hb => by cases hb⟩
      next hnew =>
        refine ⟨hearlier, List.pairwise_singleton _ _, ?_⟩
        intro a ha b hb
        rw [List.map_singleton, List.mem_singleton] at hb
        rw [hb]
        exact precedes_concat_new (hknown a ha) hnew

end Diagnostic

/-! ## Runs of calls -/

namespace Diagnostics

/-- A way to offer diagnostics to a collection. -/
inductive Call
  | push (d : Diagnostic)
  | extend (more : List Diagnostic)

/-- The diagnostics that a call offers. -/
def Call.offered : Call → List Diagnostic
  | .push d => [d]
  | .extend more => more

/-- The collection after a call. -/
def Call.apply (ds : Diagnostics) : Call → Diagnostics
  | .push d => ds.push d
  | .extend more => ds.extend more

/-- The collection after calls. -/
def after (ds : Diagnostics) (calls : List Call) : Diagnostics :=
  calls.foldl Call.apply ds

/-- The collection has the first of the diagnostics offered under each
message. -/
structure Collects (ds : Diagnostics) (offered : List Diagnostic) : Prop where
  inStep : ds.InStep
  toList_eq : ds.toList = Diagnostic.firstOffers offered

theorem collects_empty : Collects empty [] :=
  ⟨inStep_empty, rfl⟩

namespace Collects

variable {ds : Diagnostics} {offered : List Diagnostic}

/-- The messages of a collection are those that were offered. -/
theorem mem_messages (h : ds.Collects offered) (m : String) :
    m ∈ ds.messages ↔ m ∈ offered.map Diagnostic.message := by
  rw [messages, h.toList_eq]
  exact Diagnostic.mem_messages_firstOffers offered m

/-- A diagnostic would be added if nothing was offered under its message. -/
theorem accepts_iff (h : ds.Collects offered) (d : Diagnostic) :
    ds.accepts d = true ↔ d.message ∉ offered.map Diagnostic.message := by
  rw [← h.mem_messages, ← h.inStep, accepts, Bool.not_eq_true',
    Bool.not_eq_true]

/-- A diagnostic that is pushed counts as offered. -/
theorem push (h : ds.Collects offered) (d : Diagnostic) :
    (ds.push d).Collects (offered ++ [d]) := by
  refine ⟨h.inStep.push d, ?_⟩
  rw [Diagnostic.firstOffers_concat, ← h.toList_eq]
  by_cases hold : d.message ∈ offered.map Diagnostic.message
  · have hrefused : ds.accepts d = false := by
      rw [← Bool.not_eq_true, h.accepts_iff]
      exact not_not_intro hold
    rw [if_pos hold, List.append_nil, push_of_not_accepts hrefused]
  · rw [if_neg hold, toList_push_of_accepts ((h.accepts_iff d).mpr hold)]

/-- Diagnostics that are added together count as offered one after the other. -/
theorem extend (h : ds.Collects offered) (more : List Diagnostic) :
    (ds.extend more).Collects (offered ++ more) := by
  induction more generalizing ds offered with
  | nil =>
      rw [List.append_nil]
      exact h
  | cons d more ih =>
      have hrest := ih (h.push d)
      rw [List.append_assoc, List.singleton_append] at hrest
      exact hrest

theorem apply (h : ds.Collects offered) (call : Call) :
    (call.apply ds).Collects (offered ++ call.offered) := by
  cases call with
  | push d => exact h.push d
  | extend more => exact h.extend more

/-- After any calls the collection has been offered what all of them offer. -/
theorem after (h : ds.Collects offered) (calls : List Call) :
    (ds.after calls).Collects (offered ++ calls.flatMap Call.offered) := by
  induction calls generalizing ds offered with
  | nil =>
      rw [List.flatMap_nil, List.append_nil]
      exact h
  | cons call calls ih =>
      rw [List.flatMap_cons, ← List.append_assoc]
      exact ih (h.apply call)

end Collects

/-- After any calls a new collection has all diagnostics offered, less those
whose message was offered before.  Its messages are all different and stand in
the order of their first offers, and the set beside them has no others.  The
next diagnostic is added if its message was not offered before, and otherwise
nothing changes. -/
theorem collected_by_message (calls : List Call) (d : Diagnostic) :
    let ds := empty.after calls
    let offered := calls.flatMap Call.offered
    ds.toList = Diagnostic.firstOffers offered ∧
    ds.messages.Nodup ∧
    ds.messages.Pairwise (Diagnostic.Precedes offered) ∧
    (∀ m, m ∈ ds.seen ↔ m ∈ ds.messages) ∧
    (ds.accepts d = true ↔ d.message ∉ offered.map Diagnostic.message) ∧
    (ds.accepts d = true → (ds.push d).toList = ds.toList ++ [d]) ∧
    (ds.accepts d = false → ds.push d = ds) := by
  intro ds offered
  have hcollects : ds.Collects offered := by
    simpa using collects_empty.after calls
  have horder : ds.messages.Pairwise (Diagnostic.Precedes offered) := by
    rw [messages, hcollects.toList_eq]
    exact Diagnostic.pairwise_precedes_firstOffers offered
  refine ⟨hcollects.toList_eq, ?_, horder, hcollects.inStep,
    hcollects.accepts_iff d, toList_push_of_accepts, push_of_not_accepts⟩
  apply horder.imp
  intro a b hbefore hsame
  rw [hsame] at hbefore
  exact Nat.lt_irrefl _ hbefore

/-- A third diagnostic with the message of the first one, but of another field,
is not added. -/
theorem collected_by_message_other_field :
    let front : Diagnostic := ⟨.buy, "x", 1, 4, 5, "rejected"⟩
    let back : Diagnostic := ⟨.cap, "y", 2, 0, 1, "also rejected"⟩
    let again : Diagnostic := ⟨.sell, "z", 3, 7, 8, "rejected"⟩
    let ds := empty.after [.push front, .extend [back, front]]
    ds.toList = [front, back] ∧ ds.accepts again = false ∧
    ds.push again = ds := by
  intro front back again ds
  rcases collected_by_message [.push front, .extend [back, front]] again with
    ⟨hlist, -, -, -, haccepts, -, hunchanged⟩
  have hrefused : ds.accepts again = false := by
    rw [← Bool.not_eq_true, haccepts]
    decide
  exact ⟨hlist, hrefused, hunchanged hrefused⟩

end Diagnostics

end RateDesk
