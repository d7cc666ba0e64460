import Mathlib
import Larder.Proofs.Complete
import Larder.Proofs.DocumentSpelling
import Larder.Proofs.NestingLimit
import Larder.Proofs.ResponseRecords
import Larder.Record

/-!
# Acknowledgements pass their payload through

A response without a result still has a payload, which says nothing and may be any document but
null. `PassesThrough` says that nobody on the way looks into it: it is the same in the record that is
read from the response, in the document that is written for that record, and when a text that spells
the response is opened. Null is refused like a payload that is missing (`Refuses`).

The text of a response is another matter, since writing a document and reading it again can lose
numbers (`Json.reread`), and a text is refused if it nests deeper than the reader goes.
-/

namespace Larder

variable {c : Catalog} {name : String} {members : List (String × Json)} {p : Json}

/-- The response is refused because its payload is null. -/
structure Refuses (c : Catalog) (name : String) (members : List (String × Json)) : Prop where
  record : ∀ mode, Record.ofObjectWith c name ⟨mode⟩ (.object members) =
    .error ⟨.step (.key "ok"), .nullField⟩
  spelled : ∀ body, Json.read body = .ok (.object members) →
    decodeResponseStrictly c .json body = .error (.decode ⟨.step (.key "ok"), .nullField⟩)

/-! ## One payload -/

end Larder
