import RateDesk.Entry.Source
import RateDesk.Quote

/-!
# Entries

An entry is a quote under an identifier.
-/

namespace RateDesk

/-- A quote and the identifier it is kept under. -/
structure Entry where
  id : EntryId
  quote : Quote
deriving DecidableEq

namespace Entry

/-- Give each quote the next identifier of a source. -/
def label (ids : IdSource) (quotes : List Quote) : List Entry :=
  List.zipWith Entry.mk (ids.next quotes.length) quotes

/-- There is one entry for each quote. -/
@[simp] theorem length_label (ids : IdSource) (quotes : List Quote) :
    (label ids quotes).length = quotes.length := by
  simp [label]

/-- The quotes are kept in order. -/
@[simp] theorem map_quote_label (ids : IdSource) (quotes : List Quote) :
    (label ids quotes).map Entry.quote = quotes := by
  have hlength : quotes.length ≤ (ids.next quotes.length).length := by simp
  rw [label, ← List.map_uncurry_zip_eq_zipWith, List.map_map]
  exact List.map_snd_zip hlength

end Entry

end RateDesk
