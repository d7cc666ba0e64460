/-!
# Types of documents

A type says which documents a value can be read from: scalars, options, lists, maps from strings,
response envelopes, and records by name. What a record is made of stands in a catalog, so that
records may contain themselves.
-/

namespace Larder

/-- The sizes of integers, with and without a sign. -/
inductive Width where
  | i32
  | i64
  | u32
  | u64
deriving DecidableEq

namespace Width

/-- The name of a size in messages. -/
def name : Width → String
  | i32 => "i32"
  | i64 => "i64"
  | u32 => "u32"
  | u64 => "u64"

/-- The least integer of a size. -/
def least : Width → Int
  | i32 => -2147483648
  | i64 => -9223372036854775808
  | u32 | u64 => 0

/-- The greatest integer of a size. -/
def greatest : Width → Int
  | i32 => 2147483647
  | i64 => 9223372036854775807
  | u32 => 4294967295
  | u64 => 18446744073709551615

/-- The integers of this size. -/
def Holds (w : Width) (n : Int) : Prop := w.least ≤ n ∧ n ≤ w.greatest

instance (w : Width) (n : Int) : Decidable (w.Holds n) := by
  unfold Holds; infer_instance

end Width

/-- The types whose values have no parts. A `json` value is any document, taken as it is. -/
inductive Scalar where
  | string
  | bool
  | integer (w : Width)
  | float
  | uuid
  | json
  | status
deriving DecidableEq

/-- The types of values. -/
inductive Ty where
  | scalar (s : Scalar)
  | option (t : Ty)
  | list (t : Ty)
  | map (t : Ty)
  | envelope (t : Ty)
  | record (name : String)
deriving DecidableEq

namespace Ty

def string : Ty := .scalar .string
def bool : Ty := .scalar .bool
def integer (w : Width) : Ty := .scalar (.integer w)
def float : Ty := .scalar .float
def uuid : Ty := .scalar .uuid
def json : Ty := .scalar .json
def status : Ty := .scalar .status

end Ty

/-- One field of a record: its name, the key of its member, its type, and whether a document must
have it. A field that is not required holds an option of its type. -/
structure Field where
  name : String
  key : String
  ty : Ty
  required : Bool
deriving DecidableEq

namespace Field

/-- A field that must be present and not null. -/
def req (key : String) (ty : Ty) : Field := ⟨key, key, ty, true⟩

/-- A field that may be absent or null. -/
def opt (key : String) (ty : Ty) : Field := ⟨key, key, ty, false⟩

/-- The type of what the field holds. -/
def held (f : Field) : Ty := if f.required then f.ty else .option f.ty

end Field

/-- A record type: its name, and its fields in the order in which they are read. -/
structure Model where
  name : String
  fields : List Field

/-- The keys that must be present and not null. -/
def Model.requiredKeys (m : Model) : List String :=
  (m.fields.filter Field.required).map Field.key

/-- The record types that types may name. -/
structure Catalog where
  models : List Model

namespace Catalog

/-- The record type of a name. -/
def find? (c : Catalog) (name : String) : Option Model :=
  c.models.find? fun m => m.name = name

/-- The fields of a record type; a record that the catalog does not have has none. -/
def fields (c : Catalog) (name : String) : List Field :=
  match c.find? name with
  | some m => m.fields
  | none => []

/-- No record type has two fields of one key. -/
def DistinctKeys (c : Catalog) : Prop :=
  ∀ m ∈ c.models, (m.fields.map Field.key).Nodup

instance (c : Catalog) : Decidable c.DistinctKeys := by
  unfold DistinctKeys; infer_instance

theorem DistinctKeys.fields {c : Catalog} (h : c.DistinctKeys) (name : String) :
    ((c.fields name).map Field.key).Nodup := by
  unfold Catalog.fields find?
  split
  · rename_i m hm
    exact h m (List.mem_of_find?_eq_some hm)
  · exact List.nodup_nil

/-- The catalog with more record types. -/
def extend (c : Catalog) (models : List Model) : Catalog := ⟨c.models ++ models⟩

end Catalog

end Larder
