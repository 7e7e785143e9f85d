import RateDesk.Reply
import RateDesk.Proofs.Json.Spread
import RateDesk.Proofs.Number.FloatText

/-!
# Replies as JSON

A reply is written in one line or spread over lines.  It holds texts that the
submitter chose, with quotation marks, backslashes, blanks and braces in any
place.  Both texts still differ by layout only, and the names and texts of the
reply can be read from either of them.

Main results:

- Theorem `Reply.plain_leaves_json`: the numbers of a reply cannot be mistaken
  for layout.
- Theorem `Reply.texts_json`: the names and texts of a reply.
- Theorem `Reply.written_alike`: both texts of a reply.
-/

namespace RateDesk

namespace Json

/-- The characters of numbers are neither quotation marks nor blanks. -/
theorem plain_of_numeric {c : Char}
    (h : c.isDigit = true ∨ c = '.' ∨ c = 'e' ∨ c = '-' ∨ c = '+') :
    c ≠ '"' ∧ Text.isBlank c = false := by
  rcases h with hdigit | rfl | rfl | rfl | rfl
  · constructor
    · rintro rfl
      exact absurd hdigit (by decide)
    · exact Text.isBlank_of_isAlphanum (by simp [Char.isAlphanum, hdigit])
  all_goals decide

/-- A price in a reply holds neither quotation marks nor blanks. -/
theorem plain_floatText (d : Decimal) (style : FloatStyle) :
    (Leaf.number (d.floatText style)).Plain := by
  intro c hc
  apply plain_of_numeric
  rcases d.floatText_alphabet hc with
    hdigit | hpoint | hmark | hminus | ⟨-, hplus⟩
  · exact Or.inl hdigit
  · exact Or.inr (Or.inl hpoint)
  · exact Or.inr (Or.inr (Or.inl hmark))
  · exact Or.inr (Or.inr (Or.inr (Or.inl hminus)))
  · exact Or.inr (Or.inr (Or.inr (Or.inr hplus)))

theorem plain_natText (n : Nat) : (Leaf.number (natText n)).Plain :=
  fun _ hc => plain_of_numeric (Or.inl (isDigit_of_mem_natText hc))

/-- The leaves of a list are those of its items, one item after the other. -/
theorem leavesOfItems_map {α : Type} (f : α → Json) (items : List α) :
    leavesOfItems (items.map f) = items.flatMap fun x => (f x).leaves := by
  induction items with
  | nil => rfl
  | cons x items ih => rw [List.map_cons, leavesOfItems, ih, List.flatMap_cons]

theorem leavesOfItems_map_text (values : List String) :
    leavesOfItems (values.map .text) = values.map .text := by
  rw [leavesOfItems_map, List.map_eq_flatMap]
  rfl

end Json

namespace Reply

open Json (Leaf Spread)

/-! ## Names and texts -/

/-- The names and texts of an entry. -/
def entryTexts (e : Entry) : List String :=
  ["EntryId", e.id.text, "SourceCurrency", e.quote.pair.source.text,
    "DestinationCurrency", e.quote.pair.destination.text, "SellPrice",
    "BuyPrice", "CapAmount"]

/-- The names and texts of a reply, in the order in which they are written. -/
def texts : Reply → List String
  | .parsed entries =>
      ["message", parsedMessage, "code", ReplyCode.parsed.text, "data"] ++
        entries.flatMap entryTexts
  | .rejected messages =>
      "message" :: messages ++ ["code", ReplyCode.rejected.text]
  | .failed code message => ["message", message, "code", code.text]

/-- The leaves of an entry are its names and values, in the order in which they
are written. -/
theorem leaves_entryJson (e : Entry) :
    (entryJson e).leaves =
      [.text "EntryId", .text e.id.text, .text "SourceCurrency",
        .text e.quote.pair.source.text, .text "DestinationCurrency",
        .text e.quote.pair.destination.text,
        .text "SellPrice", .number (e.quote.sell.floatText jsonPrice),
        .text "BuyPrice", .number (e.quote.buy.floatText jsonPrice),
        .text "CapAmount", .number (natText e.quote.cap)] :=
  rfl

/-- The leaves of a reply with entries: message, code and the leaves of each
entry. -/
theorem leaves_json_parsed (entries : List Entry) :
    (parsed entries).json.leaves =
      [.text "message", .text parsedMessage, .text "code",
        .text ReplyCode.parsed.text, .text "data"] ++ entries.flatMap fun e =>
          (entryJson e).leaves := by
  simp [json, Json.leaves, Json.leavesOfMembers, Json.leavesOfItems_map]

/-- The leaves of a reply to a rejected text: the messages, then the code. -/
theorem leaves_json_rejected (messages : List String) :
    (rejected messages).json.leaves =
      [.text "message"] ++ messages.map .text ++
        [.text "code", .text ReplyCode.rejected.text] := by
  simp [json, Json.leaves, Json.leavesOfMembers, Json.leavesOfItems_map_text]

/-- The leaves of a reply about a failure: its message and its code. -/
theorem leaves_json_failed (code : ReplyCode) (message : String) :
    (failed code message).json.leaves =
      [.text "message", .text message, .text "code", .text code.text] :=
  rfl

/-- The numbers of a reply have neither blanks nor quotation marks. -/
theorem plain_leaves_json (r : Reply) : ∀ leaf ∈ r.json.leaves, leaf.Plain := by
  have hentry : ∀ e : Entry, ∀ leaf ∈ (entryJson e).leaves, leaf.Plain := by
    intro e
    rw [leaves_entryJson]
    simp [Json.plain_floatText, Json.plain_natText]
  cases r with
  | parsed entries =>
      rw [leaves_json_parsed, List.forall_mem_append]
      refine ⟨by simp, ?_⟩
      intro leaf hleaf
      rcases List.mem_flatMap.mp hleaf with ⟨e, -, hmem⟩
      exact hentry e leaf hmem
  | rejected messages =>
      rw [leaves_json_rejected, List.forall_mem_append, List.forall_mem_append]
      exact ⟨⟨by simp, by simp⟩, by simp⟩
  | failed code message =>
      rw [leaves_json_failed]
      simp

/-- The names and texts of the JSON value of a reply. -/
theorem texts_json (r : Reply) :
    r.json.leaves.filterMap Leaf.text? = r.texts := by
  cases r with
  | parsed entries =>
      rw [leaves_json_parsed, List.filterMap_append, List.filterMap_flatMap]
      rfl
  | rejected messages =>
      have hmessages : (messages.map Leaf.text).filterMap Leaf.text? =
          messages := by
        rw [List.filterMap_map]
        exact List.filterMap_some
      rw [leaves_json_rejected, List.filterMap_append,
        List.filterMap_append, hmessages]
      rfl
  | failed code message => rfl

/-! ## Both texts -/

/-- The reply spread over lines and the reply in one line. -/
theorem spread_writeJson (r : Reply) :
    Spread r.writeJson.out.toList r.body.toList r.texts := by
  have hout : r.writeJson.out.toList = r.json.pretty 0 ++ ['\n'] := by
    rw [writeJson, String.toList_append, Json.prettyText, String.toList_ofList]
    rfl
  have hbody : r.body.toList = r.json.compact := String.toList_ofList
  have hfeed : Spread ['\n'] [] [] := Spread.nil.blank (by decide)
  have hlines := (Json.spread_pretty r.json 0 r.plain_leaves_json).append hfeed
  rw [texts_json, List.append_nil, List.append_nil] at hlines
  rw [hout, hbody]
  exact hlines

/-- Less the blanks outside of its quoted texts, the reply spread over lines is
the reply in one line.  Without their escapes, the quoted texts of both are the
names and texts of the reply. -/
theorem written_alike (r : Reply) :
    Json.withoutLayout r.writeJson.out.toList = some r.body.toList ∧
    Json.quotedTexts? r.writeJson.out.toList = some r.texts ∧
    Json.quotedTexts? r.body.toList = some r.texts :=
  ⟨r.spread_writeJson.withoutLayout_eq, r.spread_writeJson.quotedTexts?_eq,
    r.spread_writeJson.narrow_self.quotedTexts?_eq⟩

end Reply

end RateDesk
