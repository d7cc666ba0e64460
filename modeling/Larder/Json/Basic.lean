import Larder.Number.Binary64
import Larder.Keyed

/-!
# Documents

A document is a JSON value. Numbers are of two kinds that never equal each other: integers, which
64 bits hold with or without a sign, and finite floating point numbers. The members of an object
are a list of pairs; `Json.WellFormed` says that their keys increase strictly at every depth, which
is so for whatever is read from text or written from a value.
-/

namespace Larder

/-- An integer that 64 bits hold, signed or unsigned. -/
structure Integer where
  value : Int
  inRange : -9223372036854775808 ≤ value ∧ value ≤ 18446744073709551615
deriving DecidableEq

namespace Integer

/-- The integer of this value, where there is one. -/
def ofInt? (n : Int) : Option Integer :=
  if h : -9223372036854775808 ≤ n ∧ n ≤ 18446744073709551615 then some ⟨n, h⟩ else none

/-- An integer of 64 bits without a sign. -/
def ofUInt64 (n : UInt64) : Integer := ⟨n.toNat, by have := n.toNat_lt; omega⟩

/-- An integer of 32 bits with a sign. -/
def ofInt32 (n : Int32) : Integer :=
  ⟨n.toInt, by have := n.le_toInt; have := n.toInt_lt; omega⟩

end Integer

/-- A number of a document. -/
inductive Number where
  | integer (n : Integer)
  | float (x : Binary64.Finite)
deriving DecidableEq

namespace Number

/-- Equality of numbers of one kind; an integer is never the same as a float. -/
def same : Number → Number → Bool
  | .integer m, .integer n => m == n
  | .float x, .float y => x.same y
  | _, _ => false

/-- The nearest floating point number. -/
def toBinary64 : Number → Binary64
  | .integer n => .ofInt n.value
  | .float x => .finite x

end Number

/-- A JSON value. -/
inductive Json where
  | null
  | bool (b : Bool)
  | number (n : Number)
  | string (s : String)
  | array (items : List Json)
  | object (members : List (String × Json))

namespace Json

/-- What a document is called in messages about its type. -/
def typeName : Json → String
  | .null => "null"
  | .bool _ => "boolean"
  | .number (.float _) => "number"
  | .number (.integer _) => "integer"
  | .string _ => "string"
  | .array _ => "array"
  | .object _ => "object"

/-- Whether a document is null. -/
def isNull : Json → Bool
  | .null => true
  | _ => false

/-- The document of an integer. -/
def integer (n : Integer) : Json := .number (.integer n)

/-- The object of these members, with its keys in order; of members of one key the last counts. -/
def ofMembers (members : List (String × Json)) : Json :=
  .object (members.foldl (fun acc m => Keyed.insert m.1 m.2 acc) [])

mutual

/-- The keys of every object increase strictly. -/
def WellFormed : Json → Prop
  | .array items => ItemsWellFormed items
  | .object members => Keyed.Sorted members ∧ MembersWellFormed members
  | _ => True

def ItemsWellFormed : List Json → Prop
  | [] => True
  | item :: rest => item.WellFormed ∧ ItemsWellFormed rest

def MembersWellFormed : List (String × Json) → Prop
  | [] => True
  | (_, value) :: rest => value.WellFormed ∧ MembersWellFormed rest

end

theorem itemsWellFormed_iff : ∀ (items : List Json),
    ItemsWellFormed items ↔ ∀ v ∈ items, v.WellFormed
  | [] => by simp [ItemsWellFormed]
  | v :: rest => by simp [ItemsWellFormed, itemsWellFormed_iff rest]

theorem membersWellFormed_iff : ∀ (members : List (String × Json)),
    MembersWellFormed members ↔ ∀ m ∈ members, m.2.WellFormed
  | [] => by simp [MembersWellFormed]
  | (key, v) :: rest => by simp [MembersWellFormed, membersWellFormed_iff rest]

theorem WellFormed.of_lookup {members : List (String × Json)} {key : String} {v : Json}
    (h : (object members).WellFormed) (hv : members.lookup key = some v) : v.WellFormed :=
  (membersWellFormed_iff members).mp h.2 _ (Keyed.mem_of_lookup hv)

end Json

end Larder
