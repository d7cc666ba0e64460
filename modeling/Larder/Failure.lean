import Larder.Json.Printer

/-!
# What a service answers instead of a result

A failure has a code and a description. It is an object of these two members.
-/

namespace Larder

/-- A refusal by the service. -/
structure Failure where
  code : UInt64
  description : String
deriving DecidableEq

namespace Failure

/-- The document of a failure. -/
def encode (f : Failure) : Json :=
  .object [("code", .integer (.ofUInt64 f.code)), ("description", .string f.description)]

/-- The text of a failure. -/
def text (f : Failure) : String := f.encode.compact

end Failure

end Larder
