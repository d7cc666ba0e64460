import Larder.Api.Account
import Larder.Api.Catalog
import Larder.Api.Failures
import Larder.Api.Lists
import Larder.Api.Pantry
import Larder.Api.Samples
import Larder.ApiError
import Larder.Datum
import Larder.Decode.Collection
import Larder.Decode.Decoder
import Larder.Decode.Fault
import Larder.Decode.Field
import Larder.Decode.Typed
import Larder.Envelope
import Larder.Failure
import Larder.Json.Basic
import Larder.Json.Canonical
import Larder.Json.Malformed
import Larder.Json.NumberText
import Larder.Json.Printer
import Larder.Json.Reader
import Larder.Json.Reread
import Larder.Json.StringText
import Larder.Keyed
import Larder.ListStatus
import Larder.ListStatus.Reader
import Larder.Number.Binary64
import Larder.Number.Decimal
import Larder.Number.Notation
import Larder.Number.Scaling
import Larder.Number.Shortest
import Larder.Path
import Larder.Record
import Larder.RecordSet
import Larder.Schema
import Larder.Text.Escaped
import Larder.Text.Quoted
import Larder.Text.Unprintable
import Larder.Ty
import Larder.Uuid
import Larder.Uuid.Reader
import Larder.Proofs.Complete
import Larder.Proofs.Pruning
import Larder.Proofs.Reports
import Larder.Proofs.Conformance
import Larder.Proofs.Encoding
import Larder.Proofs.RoundTrip
import Larder.Proofs.SchemaLanguage
import Larder.Proofs.IntegerRounding
import Larder.Proofs.NormalForm
import Larder.Proofs.EntryByEntry
import Larder.Proofs.ResponseRecords
import Larder.Proofs.Equality
import Larder.Proofs.RecordSets
import Larder.Proofs.DropReport
import Larder.Proofs.Causes
import Larder.Proofs.ExactDecimal
import Larder.Json.Depth
import Larder.Proofs.NumberSpelling
import Larder.Proofs.Rereading
import Larder.Proofs.StringSpelling
import Larder.Proofs.ReaderLaw
import Larder.Proofs.DocumentSpelling
import Larder.Proofs.Nesting
import Larder.Proofs.NestingLimit
import Larder.Proofs.TextEntry
import Larder.Proofs.PathText
import Larder.Proofs.Refusal
import Larder.Proofs.Declaration
import Larder.Proofs.Spine
import Larder.Proofs.Acknowledgement
import Larder.Proofs.Refill
import Larder.Proofs.Session
import Larder.Proofs.WritePermission
import Larder.Proofs.ByteOrder
import Larder.Proofs.CanonicalForm
import Larder.Proofs.IterationOrder
import Larder.Proofs.ScaledDecimal
