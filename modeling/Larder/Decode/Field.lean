import Larder.Decode.Decoder

/-!
# Reading the members of an object

A required member has to be there and not be null, and both complaints stand at the member's own
path. An optional member that is absent or null has no value. A reader of a member is given the
proof that it reads a member of the object, which is what recursive readers descend by.
-/

namespace Larder.DecodeM

variable {α : Type}

/-- The members of a document that has to be an object. -/
def expectObject : Json → DecodeM (List (String × Json))
  | .object members => pure members
  | v => fail (.unexpected "object" v)

/-- Reads a member that has to be there. -/
def required (members : List (String × Json)) (key : String)
    (read : (v : Json) → members.lookup key = some v → DecodeM α) : DecodeM α :=
  within (.key key) <|
    match h : members.lookup key with
    | none => fail .missingField
    | some v => if v.isNull then fail .nullField else read v h

/-- Reads a member that may be absent or null. -/
def optional (members : List (String × Json)) (key : String)
    (read : (v : Json) → members.lookup key = some v → DecodeM α) : DecodeM (Option α) :=
  match h : members.lookup key with
  | none => pure none
  | some v => if v.isNull then pure none else within (.key key) (some <$> read v h)

end Larder.DecodeM
