import Larder.Path
import Larder.Ty
import Larder.Uuid.Reader

/-!
# Why a document is not of a type

A fault names its cause; a decode error is a fault and the path of the value at fault. The wording
of every fault is here.
-/

namespace Larder

/-- What is wrong with a value. -/
inductive Fault where
  /-- It is of another type. -/
  | unexpectedType (expected found : String)
  /-- A required member is not there. -/
  | missingField
  /-- A required member is null. -/
  | nullField
  /-- It is an integer that its type does not hold. -/
  | outOfRange (n : Int) (w : Width)
  /-- It is no identifier. -/
  | badUuid (flaw : Uuid.Flaw)
  /-- It is an object with neither a payload nor a failure. -/
  | noEnvelope
  /-- It is refused for a reason of its reader's own. -/
  | refused (reason : String)
deriving DecidableEq

namespace Fault

/-- The wording of a fault. -/
def message : Fault → String
  | unexpectedType expected found => "expected " ++ expected ++ ", found " ++ found
  | missingField => "required field is missing"
  | nullField => "required field is null"
  | outOfRange n w =>
    String.ofList (if n < 0 then '-' :: Nat.toDigits 10 n.natAbs else Nat.toDigits 10 n.natAbs) ++
      " is out of range for " ++ w.name
  | badUuid flaw => "invalid uuid: " ++ flaw.message
  | noEnvelope => "expected an `ok` or `err` key"
  | refused reason => reason

/-- The fault of a document that is not what was expected. -/
def unexpected (expected : String) (found : Json) : Fault :=
  unexpectedType expected found.typeName

/-- Whether a required member is absent or null. -/
def isMissingRequired : Fault → Bool
  | missingField | nullField => true
  | _ => false

end Fault

/-- A fault, and where it is. -/
structure DecodeError where
  path : Path
  fault : Fault
deriving DecidableEq

/-- The path, and the wording of the fault. -/
def DecodeError.message (e : DecodeError) : String := e.path.text ++ ": " ++ e.fault.message

end Larder
