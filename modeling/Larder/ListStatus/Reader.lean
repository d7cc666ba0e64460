import Larder.Json.Printer
import Larder.ListStatus
import Larder.Text.Quoted

/-!
# Reading a standing by itself

Outside records, a standing is read from a document that has to be a string. Any other document is
refused by a description of it, in which numbers are written as in documents.
-/

namespace Larder

/-- A document in a few words. -/
def Json.described : Json → String
  | .null => "null"
  | .bool b => "boolean `" ++ String.ofList (boolChars b) ++ "`"
  | .number (.integer n) => "integer `" ++ String.ofList n.chars ++ "`"
  | .number (.float x) => "floating point `" ++ String.ofList x.chars ++ "`"
  | .string s => "string " ++ String.ofList (Text.quotation s.toList)
  | .array _ => "sequence"
  | .object _ => "map"

namespace ListStatus

/-- A document that is not the string it should be. -/
structure NotText where
  found : Json

/-- The wording of the refusal. -/
def NotText.message (e : NotText) : String :=
  "invalid type: " ++ e.found.described ++ ", expected a string"

/-- The standing that a document names. -/
def ofJson : Json → Except NotText ListStatus
  | .string name => .ok (ofText name)
  | v => .error ⟨v⟩

/-- The document that names a standing. -/
def toJson (s : ListStatus) : Json := .string s.text

end ListStatus

end Larder
