import Larder.Datum
import Larder.Ty

/-!
# The pantry

The records about the pantry, and how much of each item is missing. Amounts and targets are
integers of 32 bits, and so is what is missing: a difference that 32 bits do not hold stands for the
largest number they do.
-/

namespace Larder.Api

/-- The records about the pantry. -/
def pantryModels : List Model := [
  ⟨"PantryItem", [.req "id" (.integer .i32), .req "name" .string, .req "amount" (.integer .i32),
    .req "target" (.integer .i32)]⟩,
  ⟨"AddToPantryRequest", [.req "name" .string, .req "target" (.integer .i32)]⟩,
  ⟨"EditPantryItemRequest", [.opt "amount" (.integer .i32), .opt "target" (.integer .i32)]⟩,
  ⟨"GetPantryResponse", [.req "items" (.list (.record "PantryItem"))]⟩]

/-- An item whose stock is watched. -/
structure PantryItem where
  id : Int32
  name : String
  amount : Int32
  target : Int32
deriving DecidableEq

/-- The difference of two integers, or the nearest one that 32 bits hold. -/
def saturatingSub (a b : Int32) : Int32 :=
  let difference := a.toInt - b.toInt
  if difference < -2147483648 then Int32.minValue
  else if 2147483647 < difference then Int32.maxValue
  else .ofInt difference

namespace PantryItem

/-- The value of the item. -/
def toDatum (item : PantryItem) : Datum :=
  .record [("id", .integer (.ofInt32 item.id)), ("name", .string item.name),
    ("amount", .integer (.ofInt32 item.amount)), ("target", .integer (.ofInt32 item.target))]

/-- The item that a value describes. -/
def ofDatum? : Datum → Option PantryItem
  | .record [(_, .integer id), (_, .string name), (_, .integer amount), (_, .integer target)] =>
    some ⟨.ofInt id.value, name, .ofInt amount.value, .ofInt target.value⟩
  | _ => none

/-- How much of the item is missing: nothing when there is enough. -/
def shortfall (item : PantryItem) : Int32 := max (saturatingSub item.target item.amount) 0

end PantryItem

/-- The items of a pantry, in order. -/
structure Pantry where
  items : List PantryItem

namespace Pantry

/-- The pantry that a response shows. -/
def ofDatum? (d : Datum) : Option Pantry :=
  match d.field? "items" with
  | some (.list items) => (items.mapM PantryItem.ofDatum?).map Pantry.mk
  | _ => none

/-- The items of which something is missing. -/
def needingRefill (p : Pantry) : List PantryItem := p.items.filter fun item => 0 < item.shortfall

end Pantry

end Larder.Api
