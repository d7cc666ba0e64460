import Larder.Api.Lists
import Larder.Api.Pantry
import Larder.Uuid.Reader

/-!
# Sample documents

Documents and values of each kind, to try things out with.
-/

namespace Larder.Api.Sample

/-- The identifier of a list of groceries. -/
def groceriesId : String := "0b7d4c52-3f0e-4a8b-9d61-2e5c7a9f1b30"

/-- The identifier of a list of hardware. -/
def hardwareId : String := "5e2a9c1d-7b4f-4e3a-8c6d-1f0b2a3c4d5e"

/-- The identifier of the owner of both lists. -/
def ownerId : String := "a3c1e5f7-9b2d-4f6a-8e0c-b1d3f5a7c9e2"

/-- The digits of `ownerId`. -/
def owner : Uuid :=
  ⟨[0xa, 0x3, 0xc, 0x1, 0xe, 0x5, 0xf, 0x7, 0x9, 0xb, 0x2, 0xd, 0x4, 0xf, 0x6, 0xa,
    0x8, 0xe, 0x0, 0xc, 0xb, 0x1, 0xd, 0x3, 0xf, 0x5, 0xa, 0x7, 0xc, 0x9, 0xe, 0x2], rfl⟩

private def int (n : Int32) : Json := .integer (.ofInt32 n)

/-- Two bottles of milk, as a document. -/
def itemJson : Json :=
  .ofMembers [("id", int 1), ("name", .string "Milk"), ("amount", .string "2")]

/-- Two bottles of milk. -/
def item : Item := ⟨1, "Milk", some "2"⟩

/-- A list of two items that may be changed. -/
def readListJson : Json :=
  .ofMembers [
    ("items", .array [itemJson,
      .ofMembers [("id", int 2), ("name", .string "Bread"), ("amount", .null)]]),
    ("readonly", .bool false)]

private def listJson (name status : String) (isPublic : Bool) : Json :=
  .ofMembers [("name", .string name), ("status", .string status), ("public", .bool isPublic),
    ("owner", .string ownerId)]

/-- Two lists: one owned, one shared for reading. -/
def getListsJson : Json :=
  .ofMembers [("results", .ofMembers [
    (groceriesId, listJson "Groceries" "owned" false),
    (hardwareId, listJson "Hardware" "shared_read" true)])]

/-- The list of groceries. -/
def listInfo : ListInfo := ⟨"Groceries", .owned, false, owner⟩

private def stockJson (id : Int32) (name : String) (amount target : Int32) : Json :=
  .ofMembers [("id", int id), ("name", .string name), ("amount", int amount),
    ("target", int target)]

/-- A pantry with too little flour and enough salt. -/
def getPantryJson : Json :=
  .ofMembers [("items", .array [stockJson 10 "Flour" 1 3, stockJson 11 "Salt" 2 1])]

/-- Too little flour. -/
def pantryItem : PantryItem := ⟨10, "Flour", 1, 3⟩

end Larder.Api.Sample
