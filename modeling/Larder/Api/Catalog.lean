import Larder.Api.Account
import Larder.Api.Lists
import Larder.Api.Pantry
import Larder.Schema

/-!
# All records of the exchange

The catalog of the records, with the envelopes of single responses, and the components of the API
description: the schema of each record under its name, and that of the standing towards a list.
-/

namespace Larder.Api

/-- A failure of the service, and the envelope around it. -/
def failureModels : List Model := [
  ⟨"RspErr", [.req "code" (.integer .u64), .req "description" .string]⟩,
  ⟨"ErrResponse", [.req "err" (.record "RspErr")]⟩]

/-- The envelope around a payload. -/
def okModel (name : String) (payload : Ty) : Model := ⟨name, [.req "ok" payload]⟩

/-- The envelopes whose payload is a record. -/
def payloadModels : List Model :=
  [("OkCreateListResponse", "CreateListResponse"), ("OkGetListsResponse", "GetListsResponse"),
    ("OkReadListResponse", "ReadListResponse"), ("OkAddToListResponse", "AddToListResponse"),
    ("OkGetPantryResponse", "GetPantryResponse"), ("OkLoginResponse", "LoginResponse"),
    ("OkSearchAccountResponse", "SearchAccountResponse")].map fun m => okModel m.1 (.record m.2)

/-- The names of the envelopes whose payload says nothing, and may be any document. -/
def acknowledgements : List String :=
  ["OkUpdateItemResponse", "OkDeleteItemResponse", "OkDeleteListResponse", "OkSetPublicResponse",
    "OkRemovePublicResponse", "OkAddToPantryResponse", "OkEditPantryItemResponse",
    "OkDeletePantryItemResponse", "OkRefillPantryResponse", "OkShareListResponse",
    "OkDeleteShareResponse", "OkRegisterResponse"]

/-- The records of the exchange. -/
def catalog : Catalog :=
  ⟨listModels ++ pantryModels ++ accountModels ++ sharingModels ++ failureModels ++ payloadModels ++
    acknowledgements.map (okModel · .json)⟩

/-- The schema of the standing towards a list. -/
def statusSchema : Schema := .choice ListStatus.known

/-- The components of the API description, in the order of their names. -/
def components : List (String × Json) :=
  Keyed.insert statusComponent statusSchema.toJson
    (catalog.models.foldl (fun acc m => Keyed.insert m.name m.schema.toJson acc) [])

end Larder.Api
