import RateDesk.Number.FloatText
import RateDesk.Proofs.Diagnostic.Wording

/-!
# The characters of a price

A price is written with digits, a point, and if it needs one an exponent with
its sign.  Whatever the layout around it, no character of a price is mistaken
for a part of that layout.

Main results:

- Theorem `Decimal.floatText_alphabet`: the characters of a price.
-/

namespace RateDesk

theorem Digits.isDigit_of_mem_chars {c : Char} {digits : List Digit}
    (h : c ∈ chars digits) : c.isDigit = true := by
  rcases List.mem_map.mp h with ⟨d, -, rfl⟩
  exact d.isDigit_char

namespace FloatStyle

/-- A number in full has digits and a point. -/
theorem plain_alphabet {s : Scientific} {c : Char} (hc : c ∈ plain s) :
    c.isDigit = true ∨ c = '.' := by
  have hzeros : ∀ n, c ∈ List.replicate n '0' → c.isDigit = true := by
    intro n hmem
    rw [List.eq_of_mem_replicate hmem]
    decide
  unfold plain at hc
  split at hc
  next =>
    rw [List.mem_cons, List.mem_cons, List.mem_append] at hc
    rcases hc with rfl | hpoint | hc | hc
    · exact Or.inl (by decide)
    · exact Or.inr hpoint
    · exact Or.inl (hzeros _ hc)
    · exact Or.inl (Digits.isDigit_of_mem_chars hc)
  next =>
    simp only at hc
    rw [List.mem_append, List.mem_append, List.mem_cons] at hc
    rcases hc with (hc | hc) | hpoint | hc
    · exact Or.inl (Digits.isDigit_of_mem_chars hc)
    · exact Or.inl (hzeros _ hc)
    · exact Or.inr hpoint
    · split at hc
      next =>
        rw [List.mem_singleton.mp hc]
        exact Or.inl (by decide)
      next => exact Or.inl (Digits.isDigit_of_mem_chars hc)

/-- A coefficient is written with digits and a point. -/
theorem coefficient_alphabet {digits : List Digit} {c : Char}
    (hc : c ∈ coefficient digits) : c.isDigit = true ∨ c = '.' := by
  unfold coefficient at hc
  split at hc
  next => cases hc
  next d =>
    rw [List.mem_singleton.mp hc]
    exact Or.inl d.isDigit_char
  next d rest _ =>
    rw [List.mem_cons, List.mem_cons] at hc
    rcases hc with rfl | hpoint | hc
    · exact Or.inl d.isDigit_char
    · exact Or.inr hpoint
    · exact Or.inl (Digits.isDigit_of_mem_chars hc)

/-- A number with an exponent has digits, a point, the mark of the exponent and
a sign, which is a plus sign only if the style asks for it. -/
theorem scientific_alphabet {style : FloatStyle} {s : Scientific} {c : Char}
    (hc : c ∈ style.scientific s) :
    c.isDigit = true ∨ c = '.' ∨ c = 'e' ∨ c = '-' ∨
      (style.plusSign = true ∧ c = '+') := by
  simp only [scientific] at hc
  rw [List.mem_append, List.mem_cons, List.mem_append] at hc
  rcases hc with hc | rfl | hc | hc
  · rcases coefficient_alphabet hc with hdigit | hpoint
    · exact Or.inl hdigit
    · exact Or.inr (Or.inl hpoint)
  · exact Or.inr (Or.inr (Or.inl rfl))
  · split at hc
    next => exact Or.inr (Or.inr (Or.inr (Or.inl (List.mem_singleton.mp hc))))
    next =>
      split at hc
      next hplus =>
        exact Or.inr
          (Or.inr (Or.inr (Or.inr ⟨hplus, List.mem_singleton.mp hc⟩)))
      next => cases hc
  · exact Or.inl (Digits.isDigit_of_mem_chars hc)

end FloatStyle

/-- A price has digits, a point, the mark of an exponent and its sign. -/
theorem Decimal.floatText_alphabet (d : Decimal) {style : FloatStyle} {c : Char}
    (hc : c ∈ (d.floatText style).toList) :
    c.isDigit = true ∨ c = '.' ∨ c = 'e' ∨ c = '-' ∨
      (style.plusSign = true ∧ c = '+') := by
  rw [floatText, FloatStyle.write, String.toList_ofList] at hc
  split at hc
  next =>
    rcases FloatStyle.plain_alphabet hc with hdigit | hpoint
    · exact Or.inl hdigit
    · exact Or.inr (Or.inl hpoint)
  next => exact FloatStyle.scientific_alphabet hc

end RateDesk
