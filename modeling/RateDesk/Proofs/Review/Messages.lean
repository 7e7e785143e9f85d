import RateDesk.Proofs.Diagnostic.Offers
import RateDesk.Proofs.Review.Rejection

/-!
# Messages across submissions

A collection tells diagnostics apart by their messages.  As a message can be
read in one way only, this is to tell apart the fields and their places, and it
makes no difference from which submissions the diagnostics come.

Main results:

- Theorem `Diagnostic.Worded.message_eq_iff`: diagnostics with the same message
  are about the same field at the same place.
- Theorem `Diagnostic.firstOffers_of_worded`: keeping one diagnostic for each
  message is keeping each diagnostic once.
- Theorem `Review.messages_name_fields`: how messages are read, and what a
  collection keeps of the diagnostics of any submissions.
-/

namespace RateDesk

namespace Diagnostic

/-- What a diagnostic is about: a field and its place. -/
def subject (d : Diagnostic) : FieldKind × String × Nat × Nat × Nat :=
  (d.kind, d.raw, d.line, d.start, d.stop)

/-- The message is the wording of the subject. -/
def Worded (d : Diagnostic) : Prop :=
  d.message = render d.kind d.raw d.line d.start d.stop

theorem worded_locate (sheet : Sheet) (kind : FieldKind) (field : Field) :
    (locate sheet kind field).Worded := rfl

/-- Two messages are the same exactly when they are made from the same kind,
text and place. -/
theorem render_eq_iff {k k' : FieldKind} {raw raw' : String}
    {line start stop line' start' stop' : Nat} :
    render k raw line start stop = render k' raw' line' start' stop' ↔
      k = k' ∧ raw = raw' ∧ line = line' ∧ start = start' ∧ stop = stop' := by
  constructor
  · exact parts_eq_of_render_eq
  · rintro ⟨rfl, rfl, rfl, rfl, rfl⟩
    rfl

namespace Worded

variable {d e : Diagnostic}

/-- Two diagnostics have the same message exactly when they are about the same
field at the same place. -/
theorem message_eq_iff (hd : d.Worded) (he : e.Worded) :
    d.message = e.message ↔ d.subject = e.subject := by
  rw [hd, he, render_eq_iff]
  simp [subject]

/-- Two diagnostics with the same message are the same. -/
theorem eq_of_message_eq (hd : d.Worded) (he : e.Worded)
    (h : d.message = e.message) : d = e := by
  have hsubject := (hd.message_eq_iff he).mp h
  simp only [subject, Prod.mk.injEq] at hsubject
  rcases hsubject with ⟨hkind, hraw, hline, hstart, hstop⟩
  cases d
  cases e
  rw [mk.injEq]
  exact ⟨hkind, hraw, hline, hstart, hstop, h⟩

end Worded

/-- Keeping one diagnostic for each message is keeping each diagnostic once. -/
theorem firstOffers_of_worded {offered : List Diagnostic}
    (h : ∀ d ∈ offered, d.Worded) :
    firstOffers offered = offered.eraseDups := by
  induction offered using List.reverseRecOn with
  | nil => rfl
  | append_singleton offered d ih =>
      have hd : d.Worded := h d (by simp)
      have hoffered : ∀ e ∈ offered, e.Worded := fun e he => h e (by simp [he])
      have hrepeat : d.message ∈ offered.map message ↔ d ∈ offered := by
        constructor
        · intro hmem
          rcases List.mem_map.mp hmem with ⟨e, he, hmessage⟩
          rwa [← (hoffered e he).eq_of_message_eq hd hmessage]
        · exact List.mem_map_of_mem
      rw [firstOffers_concat, ih hoffered, List.eraseDups_append]
      by_cases hmem : d ∈ offered
      · have hdropped : [d].removeAll offered = [] := by
          simp [List.removeAll, hmem]
        rw [if_pos (hrepeat.mpr hmem), hdropped]
        rfl
      · have hkept : [d].removeAll offered = [d] := by
          simp [List.removeAll, hmem]
        rw [if_neg (mt hrepeat.mp hmem), hkept]
        rfl

end Diagnostic

namespace Review

/-- What the submitters of some texts are told. -/
def told (submissions : List String) : List Diagnostic :=
  submissions.flatMap fun raw => (ofRaw raw).diagnostics.toList

/-- All that submitters are told is worded from a field and its place. -/
theorem worded_of_mem_told {submissions : List String} {d : Diagnostic}
    (h : d ∈ told submissions) : d.Worded := by
  rcases List.mem_flatMap.mp h with ⟨raw, -, hd⟩
  rw [toList_diagnostics] at hd
  rcases exists_field_of_mem_located hd with ⟨s, -, kind, rfl⟩
  exact Diagnostic.worded_locate _ _ _

/-- A message can be read in one way only, whatever the text of the field.  So
two diagnostics of any submissions have the same message exactly when they are
about the same field at the same place, and a collection that is offered such
diagnostics drops exactly the repeated ones. -/
theorem messages_name_fields (submissions : List String) :
    (∀ (k k' : FieldKind) (raw raw' : String) (line start stop line' start' stop' : Nat),
      Diagnostic.render k raw line start stop =
        Diagnostic.render k' raw' line' start' stop' ↔
        k = k' ∧ raw = raw' ∧ line = line' ∧ start = start' ∧ stop = stop') ∧
    (∀ d ∈ told submissions, ∀ e ∈ told submissions,
      d.message = e.message ↔ d.subject = e.subject) ∧
    ∀ calls : List Diagnostics.Call,
      (∀ d ∈ calls.flatMap Diagnostics.Call.offered, d ∈ told submissions) →
        (Diagnostics.empty.after calls).toList =
          (calls.flatMap Diagnostics.Call.offered).eraseDups := by
  refine ⟨?_, ?_, ?_⟩
  · intro k k' raw raw' line start stop line' start' stop'
    exact Diagnostic.render_eq_iff
  · intro d hd e he
    exact (worded_of_mem_told hd).message_eq_iff (worded_of_mem_told he)
  · intro calls hcalls
    have hcollects := Diagnostics.collects_empty.after calls
    rw [List.nil_append] at hcollects
    rw [hcollects.toList_eq]
    exact Diagnostic.firstOffers_of_worded fun d hd =>
      worded_of_mem_told (hcalls d hd)

/-- Two submissions have the same bad pair at the same place, and behind it
different prices whose texts look like numbers of a place. -/
theorem messages_name_fields_shared_pair :
    let submissions :=
      ["A-B \x7bBUY 1-2 SELL 1 CAP 2\x7d", "A-B \x7bBUY 1-3 SELL 1 CAP 2\x7d"]
    let ds := Diagnostics.empty.after [.extend (told submissions)]
    ds.toList.map Diagnostic.subject =
      [(.currencyPair, "A-B", 1, 0, 3), (.buy, "1-2", 1, 9, 12),
        (.buy, "1-3", 1, 9, 12)] := by
  intro submissions ds
  have hlist :=
    (messages_name_fields submissions).2.2 [.extend (told submissions)] (by
    intro d hd
    simpa [Diagnostics.Call.offered] using hd)
  have htold : told submissions = submissions.flatMap fun raw =>
      (ofRaw raw).located := by
    simp only [told, toList_diagnostics]
  rw [hlist]
  simp only [List.flatMap_cons, List.flatMap_nil, Diagnostics.Call.offered,
    List.append_nil, htold]
  decide +kernel

end Review

end RateDesk
