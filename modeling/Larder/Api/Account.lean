import Larder.Datum
import Larder.Ty

/-!
# Accounts and sharing

The records about accounts and about sharing a list with another account.
-/

namespace Larder.Api

/-- The records about accounts. -/
def accountModels : List Model := [
  ⟨"LoginRequest", [.req "username" .string, .req "password" .string]⟩,
  ⟨"LoginResponse", [.req "token" .string]⟩,
  ⟨"RegisterRequest", [.req "username" .string, .req "password" .string]⟩,
  ⟨"SearchAccountResponse", [.req "id" .uuid]⟩]

/-- The records about sharing. -/
def sharingModels : List Model := [
  ⟨"ShareListRequest", [.req "share_with" .uuid, .req "readonly" .bool]⟩]

/-- The name and the password by which a person registers or logs in. -/
structure Credentials where
  username : String
  password : String
deriving DecidableEq

/-- The value of the credentials. -/
def Credentials.toDatum (c : Credentials) : Datum :=
  .record [("username", .string c.username), ("password", .string c.password)]

/-- A wish to share a list with an account. -/
structure ShareRequest where
  shareWith : Uuid
  readOnly : Bool
deriving DecidableEq

namespace ShareRequest

/-- Sharing for reading only. -/
def forReading (account : Uuid) : ShareRequest := ⟨account, true⟩

/-- Sharing for writing too. -/
def forWriting (account : Uuid) : ShareRequest := ⟨account, false⟩

/-- The value of the request. -/
def toDatum (r : ShareRequest) : Datum :=
  .record [("share_with", .uuid r.shareWith), ("readonly", .bool r.readOnly)]

end ShareRequest

end Larder.Api
