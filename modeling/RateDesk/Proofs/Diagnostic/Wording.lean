import RateDesk.Diagnostic
import RateDesk.Proofs.Text

/-!
# The wording of diagnostics

A message embeds the text of the rejected field, which the submitter chose,
between fixed words.  The text may itself look like such words.  A message can
still be read in one way only: its first letters tell which words come before
the field, and its end is a place, whose numbers are read off from the right.

Main results:

- Theorem `natText_inj`: numbers with the same digits are equal.
- Theorem `Diagnostic.parts_eq_of_render_eq`: a message determines the field and
  its place.
-/

namespace RateDesk

/-! ## Numbers in messages -/

theorem Digits.chars_inj {a b : List Digit}
    (h : chars a = chars b) : a = b := by
  have hread := mapM_chars a
  rw [h, mapM_chars b] at hread
  exact (Option.some.inj hread).symm

/-- Different natural numbers are written differently. -/
theorem natText_inj {m n : Nat} (h : natText m = natText n) : m = n := by
  have hchars : Digits.chars (Digits.ofNat m) = Digits.chars (Digits.ofNat n) :=
    String.ofList_injective h
  rw [← Digits.value_ofNat m, Digits.chars_inj hchars, Digits.value_ofNat]

theorem Digit.isDigit_char (d : Digit) : d.char.isDigit = true := by
  revert d
  decide

/-- A natural number is written with digits only. -/
theorem isDigit_of_mem_natText {n : Nat} {c : Char}
    (hc : c ∈ (natText n).toList) : c.isDigit = true := by
  rw [natText, String.toList_ofList, Digits.chars] at hc
  rcases List.mem_map.mp hc with ⟨d, -, rfl⟩
  exact d.isDigit_char

namespace Diagnostic

/-! ## Reading a message -/

/-- The words before the text of a field. -/
def opening (kind : FieldKind) : String :=
  match kind with
  | .currencyPair => "Currency Pair -"
  | .buy | .sell | .cap => kind.label ++ " Value- "

/-- The words between the text of a field and its place. -/
def closing : FieldKind → String
  | .currencyPair => " is not Valid at Line "
  | .buy | .sell | .cap => " is not valid at Line: "

/-- The wording of a place. -/
def placeText (line start stop : Nat) : String :=
  natText line ++ " Character Position - " ++ natText start ++ "-" ++
    natText stop

/-- A message is opening words, the field, closing words and the place. -/
theorem toList_render (kind : FieldKind) (raw : String)
    (line start stop : Nat) :
    (render kind raw line start stop).toList =
      (opening kind).toList ++
        (raw.toList ++
          ((closing kind).toList ++ (placeText line start stop).toList)) := by
  unfold render opening closing placeText
  cases kind <;> simp only [String.toList_append, List.append_assoc]

/-- The opening words tell the fields apart. -/
theorem kind_eq_of_opening {k k' : FieldKind} {s t : List Char}
    (h : (opening k).toList ++ s = (opening k').toList ++ t) : k = k' := by
  have hlength : ∀ kind, 2 ≤ (opening kind).toList.length := by
    intro kind
    cases kind <;> decide
  have htwo := congrArg (List.take 2) h
  rw [List.take_append_of_le_length (hlength k),
    List.take_append_of_le_length (hlength k')]
    at htwo
  revert htwo
  cases k <;> cases k' <;> decide

/-- The digits of a number at the end of a text start where another character
stands before them. -/
theorem append_natText_inj {m n : Nat} {s t : List Char}
    (hs : ∀ c ∈ s.getLast?, c.isDigit = false)
    (ht : ∀ c ∈ t.getLast?, c.isDigit = false)
    (h : s ++ (natText m).toList = t ++ (natText n).toList) :
    s = t ∧ m = n := by
  rcases Text.append_run_inj hs ht (fun _ => isDigit_of_mem_natText)
    (fun _ => isDigit_of_mem_natText) h with ⟨hfront, hnumber⟩
  exact ⟨hfront, natText_inj (String.toList_injective hnumber)⟩

/-- A place at the end of a text can be read off, number by number from the
right. -/
theorem append_placeText_inj {line start stop line' start' stop' : Nat}
    {s t : List Char} (hs : ∀ c ∈ s.getLast?, c.isDigit = false)
    (ht : ∀ c ∈ t.getLast?, c.isDigit = false)
    (h : s ++ (placeText line start stop).toList =
      t ++ (placeText line' start' stop').toList) :
    s = t ∧ line = line' ∧ start = start' ∧ stop = stop' := by
  have hdash : ∀ u : List Char, ∀ c ∈ (u ++ "-".toList).getLast?,
      c.isDigit = false := by
    intro u
    simp
  have hwords : ∀ u : List Char,
      ∀ c ∈ (u ++ " Character Position - ".toList).getLast?,
      c.isDigit = false := by
    intro u
    simp
  simp only [placeText, String.toList_append, ← List.append_assoc] at h
  rcases append_natText_inj (hdash _) (hdash _) h with ⟨hbefore, hstop⟩
  rcases append_natText_inj (hwords _) (hwords _)
    (List.append_cancel_right hbefore) with
    ⟨hbefore, hstart⟩
  rcases append_natText_inj hs ht (List.append_cancel_right hbefore) with
    ⟨hfront, hline⟩
  exact ⟨hfront, hline, hstart, hstop⟩

/-- A message determines the field and its place, whatever the text of the
field. -/
theorem parts_eq_of_render_eq {k k' : FieldKind} {raw raw' : String}
    {line start stop line' start' stop' : Nat}
    (h : render k raw line start stop = render k' raw' line' start' stop') :
    k = k' ∧ raw = raw' ∧ line = line' ∧ start = start' ∧ stop = stop' := by
  have hlist := congrArg String.toList h
  rw [toList_render, toList_render] at hlist
  have hkind := kind_eq_of_opening hlist
  subst hkind
  -- The opening is known from the left and the place from the right; the field
  -- is what remains.
  have hrest := List.append_cancel_left hlist
  have hspace : ∀ s : List Char, ∀ c ∈ (s ++ (closing k).toList).getLast?,
      c.isDigit = false := by
    intro s c hc
    cases k <;> (simp [closing] at hc; subst hc; decide)
  rw [← List.append_assoc, ← List.append_assoc] at hrest
  rcases append_placeText_inj (hspace _) (hspace _) hrest with ⟨hfront, hplace⟩
  exact ⟨rfl, String.toList_injective (List.append_cancel_right hfront), hplace⟩

end Diagnostic

end RateDesk
