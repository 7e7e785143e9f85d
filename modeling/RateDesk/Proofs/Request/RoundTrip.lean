import RateDesk.Desk
import RateDesk.Proofs.Request.Quoted

/-!
# Requests read back

A request that is written as JSON is read back, whatever its text: quotation
marks, backslashes, control characters and characters beyond U+FFFF included.
So a body in any other spelling can be replaced by the one that is written for
its request, and no desk can tell the difference.

Main results:

- Theorem `Request.toList_body`: the text of a request.
- Theorem `Request.readMember_name`: the member of a request is read.
- Theorem `Request.read_body`: a request is read back.
- Theorem `Request.body_round_trip`: the same for texts and for bodies that can
  be read.
-/

namespace RateDesk

/-- What a desk makes of a request body.  A body that cannot be read does not
reach the desk. -/
def Desk.receive (d : Desk) (body : String) : Except BodyError Desk.Handled :=
  (Request.read body).map fun r => d.process r.fxql

namespace Request

open Json (escape)

/-- A text that starts with no blank has none to skip. -/
theorem skip_cons {c : Char} (h : isJsonBlank c = false) (s : List Char) :
    skip (c :: s) = c :: s := by
  rw [skip, List.dropWhile_cons_of_neg (by simp [h])]

/-- The text of a request. -/
theorem toList_body (r : Request) :
    r.body.toList =
      '{' :: '"' :: (name.toList.flatMap escape ++ '"' :: ':' :: '"' ::
        (r.fxql.toList.flatMap escape ++ ['"', '}'])) := by
  simp [body, json, Json.compactText, Json.compact, Json.compactMembers,
    Json.quoted]

/-- The first member of a request is its text. -/
theorem readMember_name (text rest : List Char) :
    readMember none (name.toList.flatMap escape ++ '"' :: ':' :: '"' ::
      (text.flatMap escape ++ '"' :: rest)) = .ok (some text, rest) := by
  have hcolon : readColon (':' :: '"' :: (text.flatMap escape ++ '"' :: rest)) =
      .ok ('"' :: (text.flatMap escape ++ '"' :: rest)) := by
    rw [readColon, skip_cons (by decide)]
    rfl
  have htext : readText ('"' :: (text.flatMap escape ++ '"' :: rest)) =
      .ok (text, rest) := by
    rw [readText, skip_cons (by decide)]
    exact readQuoted_flatMap_escape text rest
  simp only [readMember, readQuoted_flatMap_escape, hcolon, htext, bind,
    Except.bind, if_true, Option.isSome_none, Bool.false_eq_true, if_false]
  rfl

/-- A request is read back. -/
theorem read_body (r : Request) : read r.body = .ok r := by
  have hobject :
      readObject ('"' :: (name.toList.flatMap escape ++ '"' :: ':' :: '"' ::
      (r.fxql.toList.flatMap escape ++ ['"', '}']))) =
        .ok (r.fxql.toList, []) := by
    rw [readObject, skip_cons (by decide)]
    -- The bound on the number of members leaves room for the only one.
    simp only [readMembers, readMember_name, bind, Except.bind]
    rw [skip_cons (by decide)]
    rfl
  rw [read, toList_body, skip_cons (by decide)]
  simp only [hobject, bind, Except.bind]
  simp [skip, pure, Except.pure]

/-- Every text can be sent in a request and is read back from its body.  So a
body that can be read may be written anew: it is read as the same request, and
every desk makes the same of it. -/
theorem body_round_trip :
    (∀ text : String, read (body ⟨text⟩) = .ok ⟨text⟩) ∧
    (∀ (sent : String) (r : Request), read sent = .ok r →
      read r.body = .ok r ∧ ∀ d : Desk, d.receive r.body = d.receive sent) := by
  refine ⟨fun text => read_body ⟨text⟩, ?_⟩
  intro sent r hsent
  refine ⟨read_body r, ?_⟩
  intro d
  rw [Desk.receive, Desk.receive, hsent, read_body]

/-- A list in place of an object, a line feed by its code, an escaped backslash
before a letter, an escaped slash and a pair of halves: the request is written
in another way and read as the same. -/
theorem body_round_trip_escapes :
    let sent := " [\"\\u000a\\\\n\\/\\uD83D\\ude00\" ]"
    let text := "\n\\n/😀"
    let again := "\x7b\"FXQL\":\"\\n\\\\n/😀\"\x7d"
    read sent = .ok ⟨text⟩ ∧ body ⟨text⟩ = again ∧ read again = .ok ⟨text⟩ ∧
      (Desk.fresh .counting).receive again =
        (Desk.fresh .counting).receive sent := by
  intro sent text again
  have hfound : (read sent).toOption = some ⟨text⟩ := by decide +kernel
  have hsent : read sent = .ok ⟨text⟩ := by
    cases hread : read sent with
    | error e =>
        rw [hread] at hfound
        cases hfound
    | ok r =>
        rw [hread] at hfound
        exact congrArg Except.ok (Option.some.inj hfound)
  have hbody : body ⟨text⟩ = again := by decide +kernel
  rcases body_round_trip.2 sent ⟨text⟩ hsent with ⟨hread, hdesk⟩
  rw [hbody] at hread hdesk
  exact ⟨hsent, hbody, hread, hdesk (Desk.fresh .counting)⟩

end Request

end RateDesk
