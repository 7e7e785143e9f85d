import Mathlib.Data.List.Forall2
import RateDesk.Reply
import RateDesk.Proofs.Entry.Codec
import RateDesk.Proofs.Number.FloatText
import RateDesk.Proofs.Review.Rejection
import RateDesk.Proofs.Review.RoundTrip

/-!
# Replies as tables

A reply that is written as a table can be read line by line, without regard to
quotation marks.  The texts of a row are identifiers, codes and numbers, none of
which has a mark.  The messages about rejected fields hold texts that the
submitter chose, but no line feed, since fields have no blanks.

Main results:

- Theorem `Reply.text_table`: the names of the columns stand first, with and
  without rows.
- Theorem `Diagnostic.feed_not_mem_render`: a message is one line.
- Theorem `Reply.table_line_by_line`: the lines of a table and of a rejection,
  and which of the two outputs is used.
-/

namespace RateDesk

/-! ## Lines -/

/-- Lines that are ended by line feeds are read back, and nothing stands behind
the last one. -/
theorem Text.splitOn_lines {lines : List (List Char)}
    (h : ∀ line ∈ lines, '\n' ∉ line) :
    (lines.flatMap (· ++ ['\n'])).splitOn '\n' = lines ++ [[]] := by
  induction lines with
  | nil => rfl
  | cons line lines ih =>
      rcases List.forall_mem_cons.mp h with ⟨hline, hlines⟩
      rw [List.flatMap_cons, List.append_assoc, List.singleton_append,
        List.splitOn_append_cons_self_of_not_mem hline, ih hlines,
        List.cons_append]

namespace Table

variable {texts : List String}

/-- No text of a line has a mark. -/
def Unmarked (texts : List String) : Prop :=
  ∀ text ∈ texts, ∀ c ∈ text.toList, isMark c = false

/-- Whether texts have marks can be evaluated. -/
theorem unmarked_of_all
    (h : (texts.all fun text => text.toList.all fun c => !isMark c) = true) :
    Unmarked texts := by
  intro text htext c hc
  have hchars := List.all_eq_true.mp (List.all_eq_true.mp h text htext) c hc
  simpa using hchars

/-- A line without quotation marks and without its line feed. -/
def content (texts : List String) : List Char :=
  [','].intercalate (texts.map String.toList)

theorem toList_line (h : Unmarked texts) :
    (line texts).toList = content texts ++ ['\n'] := by
  have hcells : texts.map cell = texts := by
    rw [List.map_congr_left (fun text htext => cell_of_unmarked (h text htext)),
      List.map_id']
  rw [line, hcells, String.toList_append, String.toList_intercalate]
  rfl

/-- The commas of a line separate its texts. -/
theorem splitOn_content (h : Unmarked texts) (hne : texts ≠ []) :
    (content texts).splitOn ',' = texts.map String.toList := by
  apply List.splitOn_intercalate
  · intro s hs hcomma
    rcases List.mem_map.mp hs with ⟨text, htext, rfl⟩
    exact absurd (h text htext ',' hcomma) (by decide)
  · simpa using hne

/-- The characters of a line are commas and those of its texts. -/
theorem mem_content {c : Char} (hc : c ∈ content texts) :
    c = ',' ∨ ∃ text ∈ texts, c ∈ text.toList := by
  induction texts with
  | nil => simp [content] at hc
  | cons text texts ih =>
      cases texts with
      | nil =>
          exact Or.inr ⟨text, List.mem_cons_self, by simpa [content] using hc⟩
      | cons next texts =>
          rw [content, List.map_cons, List.map_cons, List.intercalate_cons_cons,
            List.mem_append, List.mem_append] at hc
          rcases hc with (hc | hc) | hc
          · exact Or.inr ⟨text, List.mem_cons_self, hc⟩
          · exact Or.inl (List.mem_singleton.mp hc)
          · rcases ih hc with hcomma | ⟨found, hfound, hmem⟩
            · exact Or.inl hcomma
            · exact Or.inr ⟨found, List.mem_cons_of_mem _ hfound, hmem⟩

/-- The only mark in a line is the comma. -/
theorem not_mem_content (h : Unmarked texts) {c : Char}
    (hmark : isMark c = true) (hcomma : c ≠ ',') : c ∉ content texts := by
  intro hc
  rcases mem_content hc with heq | ⟨text, htext, hmem⟩
  · exact hcomma heq
  · rw [h text htext c hmem] at hmark
    exact Bool.false_ne_true hmark

/-- Lines are read back from the text that they are written to. -/
theorem splitOn_join {lines : List (List String)}
    (h : ∀ texts ∈ lines, Unmarked texts) :
    (String.join (lines.map line)).toList.splitOn '\n' =
      lines.map content ++ [[]] := by
  have hlines : (String.join (lines.map line)).toList =
      (lines.map content).flatMap (· ++ ['\n']) := by
    rw [String.toList_join, List.flatMap_map, List.flatMap_map]
    exact List.flatMap_congr fun texts htexts => toList_line (h texts htexts)
  rw [hlines, Text.splitOn_lines]
  intro s hs
  rcases List.mem_map.mp hs with ⟨texts, htexts, rfl⟩
  exact not_mem_content (h texts htexts) (by decide) (by decide)

/-! ## Writing -/

/-- Behind the names of the columns, rows are written one after the other. -/
theorem Writer.text_foldl_row {α : Type} (columns : List String)
    (texts : α → List String) (items : List α) {w : Writer}
    (h : w.headed = true) :
    (items.foldl (fun w x => w.row columns (texts x)) w).text =
      w.text ++ String.join ((items.map texts).map line) := by
  induction items generalizing w with
  | nil => simp
  | cons x items ih =>
      rw [List.foldl_cons, ih rfl, Writer.row, if_pos h]
      simp [Writer.record, String.append_assoc]

/-! ## Characters of a table -/

/-- The characters of names and numbers are no marks. -/
theorem isMark_of_word {c : Char}
    (h : c.isAlphanum = true ∨ c = '_' ∨ c = '-' ∨ c = '.') :
    isMark c = false := by
  rw [Bool.eq_false_iff]
  intro hmark
  simp only [isMark, Bool.or_eq_true, beq_iff_eq] at hmark
  rcases hmark with ((rfl | rfl) | rfl) | rfl <;> exact absurd h (by decide)

end Table

namespace Reply

/-! ## Rows -/

/-- The names of the columns stand first, with and without rows. -/
theorem text_table (entries : List Entry) :
    (table entries).text =
      String.join ((columns :: entries.map row).map Table.line) := by
  cases entries with
  | nil => rfl
  | cons e entries =>
      have hrows := Table.Writer.text_foldl_row columns row entries
        (w := (Table.Writer.empty.record columns).record (row e)) rfl
      simp only [table, List.isEmpty_cons, Bool.false_eq_true, if_false,
        List.foldl_cons]
      rw [Table.Writer.row, if_neg (by decide), hrows]
      simp [Table.Writer.record, Table.Writer.empty, String.append_assoc]

theorem unmarked_columns : Table.Unmarked columns :=
  Table.unmarked_of_all (by decide)

/-- No text of a row has a mark. -/
theorem unmarked_row (e : Entry) : Table.Unmarked (row e) := by
  have hid : ∀ c ∈ e.id.text.toList, Table.isMark c = false := by
    intro c hc
    rw [EntryId.text, String.toList_append, String.toList_ofList,
      List.mem_append] at hc
    rcases hc with htag | hencoded
    · have hfixed : Table.Unmarked [EntryId.tag] :=
        Table.unmarked_of_all (by decide)
      exact hfixed _ (List.mem_singleton_self _) c htag
    · rcases List.mem_map.mp hencoded with ⟨s, -, rfl⟩
      apply Table.isMark_of_word
      rcases s.char_alphabet with halnum | hline | hdash
      · exact Or.inl halnum
      · exact Or.inr (Or.inl hline)
      · exact Or.inr (Or.inr (Or.inl hdash))
  have hcode : ∀ code : CurrencyCode, ∀ c ∈ code.text.toList,
      Table.isMark c = false := by
    intro code c hc
    rw [CurrencyCode.text, String.toList_ofList] at hc
    exact Table.isMark_of_word
      (Or.inl (CurrencyCode.isAlphanum_of_mem_chars c hc))
  have hprice : ∀ d : Decimal, ∀ c ∈ (d.floatText tablePrice).toList,
      Table.isMark c = false := by
    intro d c hc
    apply Table.isMark_of_word
    rcases d.floatText_alphabet hc with hdigit | rfl | rfl | rfl | ⟨hplus, -⟩
    · exact Or.inl (by simp [Char.isAlphanum, hdigit])
    · exact Or.inr (Or.inr (Or.inr rfl))
    · exact Or.inl (by decide)
    · exact Or.inr (Or.inr (Or.inl rfl))
    · exact absurd hplus (by decide)
  intro text htext
  simp only [row, List.mem_cons, List.not_mem_nil, or_false] at htext
  rcases htext with rfl | rfl | rfl | rfl | rfl | rfl
  · exact hid
  · exact hcode _
  · exact hcode _
  · exact hprice _
  · exact hprice _
  · intro c hc
    exact Table.isMark_of_word
      (Or.inl (by simp [Char.isAlphanum, isDigit_of_mem_natText hc]))

/-- A line is the row of an entry: six texts between commas and no quotation
mark, with the identifier read back from the first text and the limit from the
last one. -/
structure IsRowOf (line : List Char) (e : Entry) : Prop where
  unquoted : '"' ∉ line
  texts : line.splitOn ',' =
    [e.id.text.toList, e.quote.pair.source.text.toList,
      e.quote.pair.destination.text.toList,
      (e.quote.sell.floatText tablePrice).toList,
      (e.quote.buy.floatText tablePrice).toList, (natText e.quote.cap).toList]
  id : (line.splitOn ',').head?.map
    (fun text => EntryId.read (String.ofList text)) = some (.ok e.id)
  cap : (line.splitOn ',').getLast?.bind
    (fun text => (Digits.read? text).map Digits.value) =
    some e.quote.cap

/-- The row of an entry shows this entry. -/
theorem isRowOf_content (e : Entry) : IsRowOf (Table.content (row e)) e := by
  have hsplit : (Table.content (row e)).splitOn ',' =
      (row e).map String.toList :=
    Table.splitOn_content (unmarked_row e) (List.cons_ne_nil _ _)
  refine ⟨Table.not_mem_content (unmarked_row e) (by decide) (by decide),
    hsplit, ?_, ?_⟩
  · rw [hsplit]
    simp only [row, List.map_cons, List.head?_cons, Option.map_some,
      String.ofList_toList]
    rw [EntryId.read_eq_ok_iff.mpr rfl]
  · rw [hsplit]
    simp [row, natText, Digits.read?_chars (Digits.ofNat_ne_nil _)]

/-- The lines of a table. -/
theorem splitOn_table (entries : List Entry) :
    (table entries).text.toList.splitOn '\n' =
      Table.content columns ::
        (entries.map fun e => Table.content (row e)) ++ [[]] := by
  rw [text_table, Table.splitOn_join]
  · rw [List.map_cons, List.map_map]
    rfl
  · intro texts htexts
    rcases List.mem_cons.mp htexts with rfl | htexts
    · exact unmarked_columns
    · rcases List.mem_map.mp htexts with ⟨e, -, rfl⟩
      exact unmarked_row e

end Reply

/-! ## Messages -/

/-- The message about a field without blanks is one line. -/
theorem Diagnostic.feed_not_mem_render {raw : String} (kind : FieldKind)
    (hraw : ∀ c ∈ raw.toList, Text.isBlank c = false) (line start stop : Nat) :
    '\n' ∉ (render kind raw line start stop).toList := by
  have hfield : '\n' ∉ raw.toList := by
    intro hmem
    exact absurd (hraw '\n' hmem) (by decide)
  have hnumber : ∀ n, '\n' ∉ (natText n).toList := by
    intro n hmem
    exact absurd (isDigit_of_mem_natText hmem) (by decide)
  have hwords : '\n' ∉ (opening kind).toList ∧
      '\n' ∉ (closing kind).toList := by
    cases kind <;> decide
  rw [toList_render]
  simp only [placeText, String.toList_append, List.mem_append, not_or]
  refine ⟨hwords.1, hfield, hwords.2, ⟨⟨⟨hnumber line, ?_⟩, hnumber start⟩, ?_⟩,
    hnumber stop⟩
  · decide
  · decide

/-- The messages of a submission are lines. -/
theorem Review.feed_not_mem_messages {raw message : String}
    (h : message ∈ (ofRaw raw).diagnostics.messages) :
    '\n' ∉ message.toList := by
  rw [Diagnostics.messages, toList_diagnostics] at h
  rcases List.mem_map.mp h with ⟨d, hd, rfl⟩
  rcases exists_field_of_mem_located hd with ⟨s, hs, kind, rfl⟩
  have hsolid :=
    (Statement.field_solid (occurs_of_mem_statements hs).wellFormed kind).2
  exact Diagnostic.feed_not_mem_render kind hsolid _ _ _

namespace Desk

/-- The reply to a submission. -/
def reply (d : Desk) (raw : String) : Reply :=
  Reply.ofResult (d.process raw).result

variable {d : Desk} {raw : String}

theorem reply_of_rejected {found : Diagnostics}
    (h : ((Review.ofRaw raw).book d.ids).1 = .error found) :
    d.reply raw = .rejected found.messages := by
  rcases hbook : (Review.ofRaw raw).book d.ids with ⟨outcome, ids⟩
  rw [hbook] at h
  simp only at h
  subst h
  simp only [reply, process, hbook]
  rfl

/-- An accepted submission is answered with its entries, or with a failure of
the store. -/
theorem reply_of_accepted {entries : List Entry}
    (h : ((Review.ofRaw raw).book d.ids).1 = .ok entries) :
    d.reply raw = .parsed entries ∨
      ∃ code message, code ≠ .parsed ∧ d.reply raw = .failed code message := by
  rcases hbook : (Review.ofRaw raw).book d.ids with ⟨outcome, ids⟩
  rw [hbook] at h
  simp only at h
  subst h
  simp only [reply, process, hbook, file]
  split
  next error => exact Or.inr ⟨.unexpected, _, by decide, rfl⟩
  next stored =>
    split
    next => exact Or.inl rfl
    next => exact Or.inr ⟨.edgeCase, _, by decide, rfl⟩

end Desk

namespace Reply

/-- Messages without line feeds are the lines of the error output. -/
theorem splitOn_err {messages : List String}
    (h : ∀ m ∈ messages, '\n' ∉ m.toList) :
    (rejected messages).writeTable.err.toList.splitOn '\n' =
      messages.map String.toList ++ [[]] := by
  have hlines : (rejected messages).writeTable.err.toList =
      (messages.map String.toList).flatMap (· ++ ['\n']) := by
    simp only [writeTable, String.toList_join, List.flatMap_map,
      String.toList_append]
    rfl
  rw [hlines, Text.splitOn_lines]
  intro line hline
  rcases List.mem_map.mp hline with ⟨m, hm, rfl⟩
  exact h m hm

theorem err_rejected_ne_empty {messages : List String} (h : messages ≠ []) :
    (rejected messages).writeTable.err ≠ "" := by
  rcases List.exists_cons_of_ne_nil h with ⟨m, rest, rfl⟩
  intro hempty
  have hchars := congrArg String.toList hempty
  simp [writeTable] at hchars

/-- A table starts with the names of the columns. -/
theorem out_parsed_ne_empty (entries : List Entry) :
    (parsed entries).writeTable.out ≠ "" := by
  intro hempty
  have hlines := splitOn_table entries
  have htext : (table entries).text = "" := hempty
  rw [htext] at hlines
  simp at hlines

/-- A reply that went through is written to the first output, every other one to
the second. -/
theorem written_to_one (d : Desk) (raw : String) :
    ((d.reply raw).isSuccess = true ∧ (d.reply raw).writeTable.out ≠ "" ∧
      (d.reply raw).writeTable.err = "") ∨
    ((d.reply raw).isSuccess = false ∧ (d.reply raw).writeTable.out = "" ∧
      (d.reply raw).writeTable.err ≠ "") := by
  cases hbook : ((Review.ofRaw raw).book d.ids).1 with
  | error found =>
      rcases Review.book_eq_error_iff.mp hbook with ⟨rfl, hne⟩
      rw [Desk.reply_of_rejected hbook]
      refine Or.inr ⟨rfl, rfl, err_rejected_ne_empty ?_⟩
      simpa [Diagnostics.messages] using hne
  | ok entries =>
      rcases Desk.reply_of_accepted hbook with
        hreply | ⟨code, message, hcode, hreply⟩
      · rw [hreply]
        exact Or.inl ⟨rfl, out_parsed_ne_empty entries, rfl⟩
      · rw [hreply]
        refine Or.inr ⟨by simpa [isSuccess, Reply.code] using hcode, rfl, ?_⟩
        simp [writeTable]

/-- The table of any entries is read line by line: the names of the columns,
whether or not there is a row, and then the row of each entry, every line with
its line feed.  A rejected submission is answered with its messages, one on each
line.  The reply to a submission is written to one of the two outputs, to the
first one exactly if the submission went through. -/
theorem table_line_by_line (d : Desk) (raw : String) :
    (∀ entries : List Entry, (parsed entries).writeTable.err = "" ∧
      ∃ rows, (parsed entries).writeTable.out.toList.splitOn '\n' =
          "EntryId,SourceCurrency,DestinationCurrency,SellPrice,BuyPrice,CapAmount".toList ::
            (rows ++ [[]]) ∧
        List.Forall₂ IsRowOf rows entries) ∧
    (∀ found, ((Review.ofRaw raw).book d.ids).1 = .error found →
      (d.reply raw).writeTable.err.toList.splitOn '\n' =
        found.messages.map String.toList ++ [[]]) ∧
    ((d.reply raw).writeTable.out = "" ↔ (d.reply raw).writeTable.err ≠ "") ∧
    ((d.reply raw).writeTable.out ≠ "" ↔ (d.reply raw).isSuccess = true) := by
  refine ⟨?_, ?_, ?_⟩
  · intro entries
    refine ⟨rfl, _, splitOn_table entries, ?_⟩
    rw [List.forall₂_map_left_iff, List.forall₂_same]
    exact fun e _ => isRowOf_content e
  · intro found hfound
    rcases Review.book_eq_error_iff.mp hfound with ⟨rfl, -⟩
    rw [Desk.reply_of_rejected hfound]
    exact splitOn_err fun _ => Review.feed_not_mem_messages
  · rcases written_to_one d raw with
      ⟨hsuccess, hout, herr⟩ | ⟨hsuccess, hout, herr⟩
    · simp [hsuccess, hout, herr]
    · simp [hsuccess, hout, herr]

/-- Commas and quotation marks of a rejected field stay in its line. -/
theorem table_line_by_line_two_messages :
    ∃ found,
      ((Review.ofRaw "a-b \x7bBUY 1,\" SELL 2\\nCAP 3\x7d").book .counting).1 =
        .error found ∧
      found.messages =
        ["Currency Pair -a-b is not Valid at Line 1 Character Position - 0-3",
          "BUY Value- 1,\" is not valid at Line: 1 Character Position - 9-12"] ∧
      ((Desk.fresh .counting).reply "a-b \x7bBUY 1,\" SELL 2\\nCAP 3\x7d"
        ).writeTable.err.toList.splitOn '\n' =
          found.messages.map String.toList ++ [[]] := by
  let raw := "a-b \x7bBUY 1,\" SELL 2\\nCAP 3\x7d"
  have hmessages : (Review.ofRaw raw).located.map Diagnostic.message =
      ["Currency Pair -a-b is not Valid at Line 1 Character Position - 0-3",
        "BUY Value- 1,\" is not valid at Line: 1 Character Position - 9-12"] := by decide +kernel
  have hne : (Review.ofRaw raw).diagnostics.toList ≠ [] := by
    rw [Review.toList_diagnostics]
    intro hnil
    simp [hnil] at hmessages
  have hfound : ((Review.ofRaw raw).book .counting).1 =
      .error (Review.ofRaw raw).diagnostics :=
    Review.book_eq_error_iff.mpr ⟨rfl, hne⟩
  refine ⟨_, hfound, ?_,
    (table_line_by_line (Desk.fresh .counting) raw).2.1 _ hfound⟩
  rw [Diagnostics.messages, Review.toList_diagnostics]
  exact hmessages

end Reply

end RateDesk
