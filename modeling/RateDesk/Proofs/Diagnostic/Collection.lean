import RateDesk.Diagnostic

/-!
# Collected diagnostics

A collection keeps its diagnostics in order, and beside them the set of their
messages.  The set decides which diagnostics are added, so the two have to
agree.

Main results:

- Theorem `Diagnostics.InStep.push`: adding a diagnostic keeps entries and
  messages in step.
- Theorem `Diagnostics.toList_extend`: diagnostics whose messages are new and
  differ from each other are all kept, in order.
-/

namespace RateDesk
namespace Diagnostics

/-- The set of messages is that of the entries. -/
def InStep (ds : Diagnostics) : Prop :=
  ∀ message, ds.seen.contains message = true ↔ message ∈ ds.messages

theorem inStep_empty : InStep empty := by
  intro message
  simp [empty, messages, toList]

/-- Adding a diagnostic keeps entries and messages in step. -/
theorem InStep.push {ds : Diagnostics} (h : ds.InStep) (d : Diagnostic) :
    (ds.push d).InStep := by
  by_cases hseen : ds.seen.contains d.message = true
  · rw [push_of_not_accepts (by simp [accepts, hseen])]
    exact h
  · intro message
    have hlist : (ds.push d).toList = ds.toList ++ [d] :=
      toList_push_of_accepts (by simp [accepts, hseen])
    have hset : (ds.push d).seen = ds.seen.insert d.message := by
      simp only [Diagnostics.push, hseen, Bool.false_eq_true, if_false]
    rw [hset, Std.HashSet.contains_insert, Bool.or_eq_true, h message,
      beq_iff_eq, messages, messages, hlist, List.map_append,
      List.mem_append, or_comm]
    simp [eq_comm]

/-- A diagnostic with a new message goes to the end. -/
theorem InStep.toList_push {ds : Diagnostics} (h : ds.InStep) {d : Diagnostic}
    (hnew : d.message ∉ ds.messages) :
    (ds.push d).toList = ds.toList ++ [d] := by
  apply toList_push_of_accepts
  rw [← h, Bool.not_eq_true] at hnew
  simp [accepts, hnew]

/-- Diagnostics whose messages are new and differ from each other are all
kept. -/
theorem toList_extend {ds : Diagnostics} (h : ds.InStep)
    {more : List Diagnostic} (hnew : ∀ d ∈ more, d.message ∉ ds.messages)
    (hdistinct : (more.map Diagnostic.message).Nodup) :
    (ds.extend more).toList = ds.toList ++ more := by
  induction more generalizing ds with
  | nil => simp [extend]
  | cons d more ih =>
      rw [List.map_cons, List.nodup_cons] at hdistinct
      rcases hdistinct with ⟨hd, hmore⟩
      have hpush := h.toList_push (hnew d List.mem_cons_self)
      have hlater : ∀ e ∈ more, e.message ∉ (ds.push d).messages := by
        intro e he hmem
        rw [messages, hpush, List.map_append, List.mem_append] at hmem
        rcases hmem with hold | hsame
        · exact hnew e (List.mem_cons_of_mem d he) hold
        · have hmessage : e.message = d.message := by simpa using hsame
          exact hd (hmessage ▸ List.mem_map_of_mem he)
      have hrest := ih (h.push d) hlater hmore
      rw [hpush, List.append_assoc, List.singleton_append] at hrest
      exact hrest

/-- Diagnostics with different messages are all collected, in order. -/
theorem toList_ofList {more : List Diagnostic}
    (hdistinct : (more.map Diagnostic.message).Nodup) :
    (ofList more).toList = more := by
  have hextend : (empty.extend more).toList = empty.toList ++ more :=
    toList_extend inStep_empty (by simp [messages]) hdistinct
  rw [toList_empty, List.nil_append] at hextend
  exact hextend

end Diagnostics
end RateDesk
