import RateDesk.Main
import RateDesk.Request.Reader
import RateDesk.Proofs.Review.Rejection
import RateDesk.Proofs.Review.RoundTrip
import RateDesk.Proofs.Desk.Run
import RateDesk.Proofs.Entry.Codec
import RateDesk.Proofs.Review.PairToken
import RateDesk.Proofs.Prose
import RateDesk.Proofs.Ledger.Batches
import RateDesk.Proofs.Sheet.Escapes
import RateDesk.Proofs.Review.Slices
import RateDesk.Proofs.Surroundings
import RateDesk.Proofs.Review.Identifiers
import RateDesk.Proofs.Sheet.Addresses
import RateDesk.Proofs.FieldValue.Price
import RateDesk.Proofs.FieldValue.Cap
import RateDesk.Proofs.FieldValue.Order
import RateDesk.Proofs.FieldValue.Pair
import RateDesk.Proofs.Review.Skipped
import RateDesk.Proofs.Reply.Table
import RateDesk.Proofs.Ledger.Exchange
import RateDesk.Proofs.Diagnostic.Offers
import RateDesk.Proofs.Request.RoundTrip
import RateDesk.Proofs.Json.Spread
import RateDesk.Proofs.Reply.Envelope
import RateDesk.Proofs.Review.Messages
