import Larder.ApiError
import Larder.Decode.Typed

/-!
# Responses

The body of a response is an envelope around a payload or around a failure of the service. Opening
it gives the payload, or the error that stands in its place; what was noted on the way is kept
beside it.
-/

namespace Larder

/-- Something worth noting while a text is read. -/
inductive Event where
  /-- A collection entry was left out. -/
  | dropped (d : Drop)
  /-- A response carried a failure. -/
  | failure (f : Failure)

/-- The payload of a response, and what was noted on the way to it. -/
def openResponse (c : Catalog) (t : Ty) (options : Options) (body : String) :
    Except ApiError (Decoded Datum) × List Event :=
  match readDocument body with
  | .error e => (.error e, [])
  | .ok v =>
    let events := (dropEvents c (.envelope t) options v).map Event.dropped
    match decodeValue c (.envelope t) options v with
    | .error e => (.error (.decode e), events)
    | .ok ⟨.ok d, dropped⟩ => (.ok ⟨d, dropped⟩, events)
    | .ok ⟨.err f, _⟩ => (.error (.service f), events ++ [.failure f])
    | .ok other => (.ok other, events)

/-- The payload of a response, with the collection entries left out. -/
def decodeResponse (c : Catalog) (t : Ty) (options : Options) (body : String) :
    Except ApiError (Decoded Datum) :=
  (openResponse c t options body).1

/-- The payload of a response in which every entry can be read. -/
def decodeResponseStrictly (c : Catalog) (t : Ty) (body : String) : Except ApiError Datum :=
  (decodeResponse c t ⟨.strict⟩ body).map Decoded.value

end Larder
