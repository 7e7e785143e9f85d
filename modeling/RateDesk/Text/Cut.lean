/-!
# Cutting a text at a character

Currency pairs and number literals are read by cutting a text in two at the
first occurrence of a separator.
-/

namespace RateDesk
namespace Text

/-- The parts of a text before and after the first occurrence of a separator, or
nothing if it does not occur. -/
def cutAt? (separator : Char) : List Char → Option (List Char × List Char)
  | [] => none
  | c :: rest =>
      if c = separator then some ([], rest)
      else (cutAt? separator rest).map fun cut => (c :: cut.1, cut.2)

/-- A cut exists exactly when the text is some front without the separator, the
separator, and a back. -/
theorem cutAt?_eq_some_iff {separator : Char} {s front back : List Char} :
    cutAt? separator s = some (front, back) ↔
      s = front ++ separator :: back ∧ separator ∉ front := by
  induction s generalizing front with
  | nil => simp [cutAt?]
  | cons c rest ih =>
      by_cases hc : c = separator
      · subst hc
        cases front with
        | nil => simp [cutAt?]
        | cons d front =>
            simp only [cutAt?, if_true, Option.some.injEq, Prod.mk.injEq]
            simp only [List.cons_append, List.cons.injEq, List.mem_cons, not_or]
            grind
      · cases front with
        | nil => simp [cutAt?, hc]
        | cons d front =>
            simp only [cutAt?, if_neg hc, Option.map_eq_some_iff, Prod.exists,
              Prod.mk.injEq, List.cons.injEq]
            constructor
            · rintro ⟨a, b, hcut, ⟨rfl, rfl⟩, rfl⟩
              obtain ⟨rfl, hnot⟩ := ih.mp hcut
              exact ⟨by simp, by simp [hnot, Ne.symm hc]⟩
            · rintro ⟨happ, hnot⟩
              simp only [List.cons_append, List.cons.injEq] at happ
              obtain ⟨rfl, rfl⟩ := happ
              simp only [List.mem_cons, not_or] at hnot
              exact ⟨front, back, ih.mpr ⟨rfl, hnot.2⟩, ⟨rfl, rfl⟩, rfl⟩

/-- There is no cut exactly when the separator does not occur. -/
theorem cutAt?_eq_none_iff {separator : Char} {s : List Char} :
    cutAt? separator s = none ↔ separator ∉ s := by
  induction s with
  | nil => simp [cutAt?]
  | cons c rest ih =>
      by_cases hc : c = separator
      · simp [cutAt?, hc]
      · simp [cutAt?, hc, ih, Ne.symm hc]

end Text
end RateDesk
