import Larder.Datum
import Larder.Ty

/-!
# Shopping lists

The records about lists and the items on them, and the question which lists a person may write to.
-/

namespace Larder.Api

/-- One entry of a shopping list; its amount is free text, such as `500g`. -/
def itemModel : Model :=
  ⟨"Item", [.req "id" (.integer .i32), .req "name" .string, .opt "amount" .string]⟩

/-- What a person sees of a list without opening it. -/
def listInfoModel : Model :=
  ⟨"ListInfo",
    [.req "name" .string, .req "status" .status, .req "public" .bool, .req "owner" .uuid]⟩

/-- The records about lists. -/
def listModels : List Model := [
  itemModel,
  listInfoModel,
  ⟨"CreateListRequest", [.req "name" .string]⟩,
  ⟨"CreateListResponse", [.req "id" .uuid]⟩,
  ⟨"GetListsResponse", [.req "results" (.map (.record "ListInfo"))]⟩,
  ⟨"ReadListResponse", [.req "items" (.list (.record "Item")), .req "readonly" .bool]⟩,
  ⟨"AddToListRequest", [.req "name" .string, .opt "amount" .string]⟩,
  ⟨"AddToListResponse", [.req "id" (.integer .i32)]⟩,
  ⟨"UpdateItemRequest", [.opt "name" .string, .opt "amount" .string]⟩]

/-- One entry of a shopping list. -/
structure Item where
  id : Int32
  name : String
  amount : Option String
deriving DecidableEq

/-- The value of an entry. -/
def Item.toDatum (item : Item) : Datum :=
  .record [("id", .integer (.ofInt32 item.id)), ("name", .string item.name),
    ("amount", .ofOption (item.amount.map .string))]

/-- What a person sees of a list without opening it. -/
structure ListInfo where
  name : String
  status : ListStatus
  isPublic : Bool
  owner : Uuid
deriving DecidableEq

namespace ListInfo

/-- The value of the list. -/
def toDatum (info : ListInfo) : Datum :=
  .record [("name", .string info.name), ("status", .status info.status),
    ("public", .bool info.isPublic), ("owner", .uuid info.owner)]

/-- The list that a value describes. -/
def ofDatum? : Datum → Option ListInfo
  | .record [(_, .string name), (_, .status status), (_, .bool isPublic), (_, .uuid owner)] =>
    some ⟨name, status, isPublic, owner⟩
  | _ => none

end ListInfo

/-- The lists of a person, by their identifiers. -/
structure ListDirectory where
  lists : List (String × ListInfo)

namespace ListDirectory

/-- The lists that a response names. -/
def ofDatum? (d : Datum) : Option ListDirectory :=
  match d.field? "results" with
  | some (.map entries) =>
    (entries.mapM fun e => (ListInfo.ofDatum? e.2).map (e.1, ·)).map ListDirectory.mk
  | _ => none

/-- The lists that the person may write to. -/
def writable (d : ListDirectory) : List (String × ListInfo) :=
  d.lists.filter fun e => e.2.status.canWrite

end ListDirectory

/-- Whether a request to change an item leaves all as it is. -/
def updateIsEmpty (request : Datum) : Bool :=
  match request.field? "name", request.field? "amount" with
  | some .absent, some .absent => true
  | _, _ => false

end Larder.Api
