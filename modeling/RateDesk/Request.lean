import RateDesk.Json

/-!
# Requests

A request carries a submission as the text under the name `FXQL` of a JSON
object.
-/

namespace RateDesk

/-- A submission as it is sent. -/
structure Request where
  fxql : String
deriving DecidableEq, Repr

namespace Request

/-- The name under which the text is sent. -/
def name : String := "FXQL"

/-- A request as a JSON object. -/
def json (r : Request) : Json :=
  .object [(name, .text r.fxql)]

/-- The text of a request. -/
def body (r : Request) : String :=
  r.json.compactText

end Request

end RateDesk
