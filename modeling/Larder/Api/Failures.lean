import Larder.Api.Catalog
import Larder.Record

/-!
# Failures by themselves

A response that carries a failure can be read as a record, and then stands for the error of that
failure.
-/

namespace Larder.Api

/-- The failure that a record describes. -/
def failureOfDatum? : Datum → Option Failure
  | .record [(_, .integer code), (_, .string description)] =>
    some ⟨.ofNat code.value.toNat, description⟩
  | _ => none

/-- The failure inside a record of an error response. -/
def failureOfResponse? (d : Datum) : Option Failure := (d.field? "err").bind failureOfDatum?

/-- The error that the text of an error response stands for, or the error of reading it; nothing
only if a record is not as its type says. -/
def errorOfText? (text : String) : Option ApiError :=
  match Record.ofText catalog "ErrResponse" text with
  | .error e => some e
  | .ok d => (failureOfResponse? d).map .service

end Larder.Api
