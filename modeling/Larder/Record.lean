import Larder.ApiError
import Larder.Decode.Typed

/-!
# Reading records

A record is read from a document or from a text. A text is refused if it goes on after its
document: `Record.ofText` looks at that before it looks at the record, `Record.ofLeadingText`
after.
-/

namespace Larder.Record

/-- Reads a document as a record, with the collection entries left out. A document that is no
object is no record, and no error. -/
def ofObjectWith (c : Catalog) (name : String) (options : Options) (v : Json) :
    Except DecodeError (Option (Decoded Datum)) :=
  match v with
  | .object _ => (decodeValue c (.record name) options v).map some
  | _ => .ok none

/-- Reads a document as a record in which every entry can be read. A document that is no object is
no record, and no error. -/
def ofObject (c : Catalog) (name : String) (v : Json) : Except DecodeError (Option Datum) :=
  (ofObjectWith c name ⟨.strict⟩ v).map (·.map Decoded.value)

/-- Reads a document as a record in which every entry can be read. -/
def ofJson (c : Catalog) (name : String) (v : Json) : Except DecodeError Datum :=
  (decodeValue c (.record name) ⟨.strict⟩ v).map Decoded.value

/-- Reads a text as a record. -/
def ofText (c : Catalog) (name : String) (text : String) : Except ApiError Datum :=
  match readDocument text with
  | .error e => .error e
  | .ok v => (ofJson c name v).mapError .decode

/-- Reads the record that a text begins with, and then sees that nothing but blanks follows. -/
def ofLeadingText (c : Catalog) (name : String) (text : String) : Except ApiError Datum :=
  match Json.readFirst text with
  | .error complaint => .error (.malformed complaint)
  | .ok (v, rest) =>
    match ofJson c name v, rest with
    | .error e, _ => .error (.decode e)
    | .ok _, some complaint => .error (.malformed complaint)
    | .ok d, none => .ok d

end Larder.Record
