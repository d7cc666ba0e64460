import Larder.Decode.Decoder
import Larder.Failure
import Larder.Json.Reader

/-!
# Errors of an exchange

A text is first read as a document and then as a value, so two things can go wrong with it; a
response can also carry a failure of the service.
-/

namespace Larder

/-- Why a text gives no value. -/
inductive ApiError where
  /-- The document is not of the type. -/
  | decode (e : DecodeError)
  /-- The text is no document. -/
  | malformed (m : Json.Malformed)
  /-- The service answered with a failure. -/
  | service (f : Failure)
deriving DecidableEq

namespace ApiError

/-- The text of the error behind this one. -/
def source : ApiError → String
  | decode e => e.message
  | malformed m => m.message
  | service f => f.text

/-- The wording of an error. -/
def message : ApiError → String
  | decode e => "decode error: " ++ e.message
  | malformed m => "serialization error: " ++ m.message
  | service f => "api error " ++ Nat.repr f.code.toNat ++ ": " ++ f.description

end ApiError

/-- The document of a text. -/
def readDocument (text : String) : Except ApiError Json :=
  match Json.read text with
  | .ok v => .ok v
  | .error m => .error (.malformed m)

end Larder
