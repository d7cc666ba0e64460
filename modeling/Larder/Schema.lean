import Larder.Json.Basic
import Larder.Ty

/-!
# Schemas

A schema describes the documents of a type for an API description. Records are described once each,
as components; where a record is the type of a field, its schema is a reference. The siblings of a
reference do not count, so a reference that may be null is wrapped.
-/

namespace Larder

/-- The description of a type. -/
inductive Schema where
  | string
  | boolean
  | integer (w : Width)
  | number
  | uuid
  | any
  /-- One of some strings. -/
  | choice (values : List String)
  /-- The component of this name. -/
  | component (name : String)
  /-- A list, by what describes its items. -/
  | array (items : Schema)
  /-- A map, by what describes its values. -/
  | mapping (values : Schema)
  /-- What the inner schema describes, and null. -/
  | nullable (inner : Schema)
  /-- An object, by its properties in the order of their keys, and the keys that must be there. -/
  | object (properties : List (String × Schema)) (required : List String)

namespace Schema

/-- The key of a reference to a component. -/
def referenceKey : String := "$ref"

/-- The reference to the component of this name. -/
def reference (name : String) : Json :=
  .object [(referenceKey, .string ("#/components/schemas/" ++ name))]

/-- The name of an integer's format, which does not tell the sign. -/
def integerFormat : Width → String
  | .i32 | .u32 => "int32"
  | .i64 | .u64 => "int64"

/-- The description of an integer. One without a sign has a minimum. -/
def integerJson (w : Width) : Json :=
  .ofMembers ([("type", .string "integer"), ("format", .string (integerFormat w))] ++
    if w.least = 0 then [("minimum", .integer (.ofUInt64 0))] else [])

/-- The description with null allowed. A reference is wrapped, since its siblings do not count. -/
def allowNull : Json → Json
  | .object members =>
    if (members.lookup referenceKey).isSome then
      .ofMembers [("allOf", .array [.object members]), ("nullable", .bool true)]
    else .object (Keyed.insert "nullable" (.bool true) members)
  | v => v

mutual

/-- The document of a schema. -/
def toJson : Schema → Json
  | string => .object [("type", .string "string")]
  | boolean => .object [("type", .string "boolean")]
  | integer w => integerJson w
  | number => .ofMembers [("type", .string "number"), ("format", .string "double")]
  | uuid => .ofMembers [("type", .string "string"), ("format", .string "uuid")]
  | any => .object []
  | choice values =>
    .ofMembers [("type", .string "string"), ("enum", .array (values.map .string))]
  | component name => reference name
  | array items => .ofMembers [("type", .string "array"), ("items", items.toJson)]
  | mapping values =>
    .ofMembers [("type", .string "object"), ("additionalProperties", values.toJson)]
  | nullable inner => allowNull inner.toJson
  | object properties required =>
    .ofMembers ([("type", .string "object"), ("properties", .object (propertiesJson properties))] ++
      if required.isEmpty then [] else [("required", .array (required.map .string))])

def propertiesJson : List (String × Schema) → List (String × Json)
  | [] => []
  | (key, s) :: rest => (key, s.toJson) :: propertiesJson rest

end

end Schema

/-- The name under which the standing towards a list is described. -/
def statusComponent : String := "ListStatus"

namespace Scalar

/-- The schema of a scalar. -/
def schema : Scalar → Schema
  | string => .string
  | bool => .boolean
  | integer w => .integer w
  | float => .number
  | uuid => .uuid
  | json => .any
  | status => .component statusComponent

end Scalar

namespace Ty

/-- The schema of a type where it is the type of a field. An envelope is no type of fields, and has
no description. -/
def schema : Ty → Schema
  | scalar s => s.schema
  | option t => .nullable t.schema
  | list t => .array t.schema
  | map t => .mapping t.schema
  | envelope _ => .any
  | record name => .component name

end Ty

/-- The schema of the property of a field. -/
def Field.property (f : Field) : Schema :=
  if f.required then f.ty.schema else .nullable f.ty.schema

/-- The schema of an object with these fields; of fields of one key the last counts. -/
def Schema.ofFields (fields : List Field) : Schema :=
  .object (fields.foldl (fun acc f => Keyed.insert f.key f.property acc) [])
    ((fields.filter Field.required).map Field.key)

/-- The schema of a record type. -/
def Model.schema (m : Model) : Schema := .ofFields m.fields

end Larder
