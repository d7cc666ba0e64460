import Larder.Datum
import Larder.Decode.Field

/-!
# Reading documents as values of a type

`decode` reads a document as a value of a type. Scalars are read at once; options take null for no
value; lists and maps take null for empty and read their entries one by one; an envelope is read by
its `ok` member, or by its `err` member if it has no `ok`; a record is read field by field, in the
order of its declaration, and the first field that cannot be read decides.

Every recursive step goes to a smaller document, or to the same document and a smaller type, so a
record may contain itself.
-/

namespace Larder

/-- A scalar value of a document. -/
def Scalar.read : Scalar → Json → Except Fault Datum
  | .string, .string s => .ok (.string s)
  | .bool, .bool b => .ok (.bool b)
  | .integer w, .number (.integer n) =>
    if w.Holds n.value then .ok (.integer n) else .error (.outOfRange n.value w)
  | .float, .number n => .ok (.float n.toBinary64)
  | .uuid, .string s =>
    match Uuid.ofText s with
    | .ok u => .ok (.uuid u)
    | .error flaw => .error (.badUuid flaw)
  | .json, v => .ok (.json v)
  | .status, .string s => .ok (.status (.ofText s))
  | .string, v | .uuid, v | .status, v => .error (.unexpected "string" v)
  | .bool, v => .error (.unexpected "boolean" v)
  | .integer _, v => .error (.unexpected "integer" v)
  | .float, v => .error (.unexpected "number" v)

namespace Failure

/-- A code, which is an integer of 64 bits without a sign. -/
def readCode : Json → Except Fault UInt64
  | .number (.integer n) =>
    if 0 ≤ n.value then .ok (UInt64.ofNat n.value.toNat) else .error (.outOfRange n.value .u64)
  | v => .error (.unexpected "integer" v)

/-- A description, which is a string. -/
def readDescription : Json → Except Fault String
  | .string s => .ok s
  | v => .error (.unexpected "string" v)

/-- Reads a failure, its code before its description. -/
def decode (v : Json) : DecodeM Failure := do
  let members ← DecodeM.expectObject v
  let code ← DecodeM.required members "code" fun v _ => .ofExcept (readCode v)
  let description ← DecodeM.required members "description" fun v _ => .ofExcept (readDescription v)
  pure ⟨code, description⟩

end Failure

theorem sizeOf_lt_of_lookup {key : String} {v : Json} :
    ∀ {members : List (String × Json)}, members.lookup key = some v → sizeOf v < sizeOf members
  | [], h => by simp at h
  | (k, w) :: rest, h => by
    rw [List.lookup_cons] at h
    split at h
    · cases h
      rw [List.cons.sizeOf_spec, Prod.mk.sizeOf_spec]; omega
    · have := sizeOf_lt_of_lookup h
      rw [List.cons.sizeOf_spec]; omega

/-- Reads the member of a field; the value of a field that is not required is an option. -/
def Field.read (f : Field) (members : List (String × Json))
    (read : (v : Json) → members.lookup f.key = some v → DecodeM Datum) : DecodeM Datum :=
  if f.required then DecodeM.required members f.key read
  else Datum.ofOption <$> DecodeM.optional members f.key read

open DecodeM in
mutual

/-- Reads a document as a value of a type. -/
def decode (c : Catalog) : Ty → Json → DecodeM Datum
  | .scalar s, v => ofExcept (s.read v)
  | .option t, v => if v.isNull then pure .absent else Datum.present <$> decode c t v
  | .list _, .null => pure (.list [])
  | .list t, .array items => Datum.list <$> decodeItems c t 0 items
  | .list _, v => fail (.unexpected "array" v)
  | .map _, .null => pure (.map [])
  | .map t, .object members => Datum.map <$> decodeEntries c t members
  | .map _, v => fail (.unexpected "object" v)
  | .envelope t, .object members =>
    if (members.lookup "ok").isSome then
      Datum.ok <$> required members "ok" fun v _h => decode c t v
    else if (members.lookup "err").isSome then
      Datum.err <$> required members "err" fun v _ => Failure.decode v
    else fail .noEnvelope
  | .envelope _, v => fail (.unexpected "object" v)
  | .record name, .object members => Datum.record <$> decodeFields c members (c.fields name)
  | .record _, v => fail (.unexpected "object" v)
termination_by t v => (sizeOf v, sizeOf t)
decreasing_by
  · apply Prod.Lex.right; rw [Ty.option.sizeOf_spec]; omega
  · apply Prod.Lex.left; rw [Json.array.sizeOf_spec]; omega
  · apply Prod.Lex.left; rw [Json.object.sizeOf_spec]; omega
  · apply Prod.Lex.left
    have := sizeOf_lt_of_lookup _h
    rw [Json.object.sizeOf_spec]; omega
  · apply Prod.Lex.left; rw [Json.object.sizeOf_spec]; omega

/-- Reads the items of a list from an index on, and leaves out what the mode lets it. -/
def decodeItems (c : Catalog) (t : Ty) (index : Nat) : List Json → DecodeM (List Datum)
  | [] => pure []
  | v :: rest => do
    let d? ← entry (.index index) (decode c t v)
    let ds ← decodeItems c t (index + 1) rest
    pure (d?.toList ++ ds)
termination_by items => (sizeOf items, 0)
decreasing_by
  · apply Prod.Lex.left; rw [List.cons.sizeOf_spec]; omega
  · apply Prod.Lex.left; rw [List.cons.sizeOf_spec]; omega

/-- Reads the entries of a map, and leaves out what the mode lets it. -/
def decodeEntries (c : Catalog) (t : Ty) :
    List (String × Json) → DecodeM (List (String × Datum))
  | [] => pure []
  | (key, v) :: rest => do
    let d? ← entry (.key key) (decode c t v)
    let ds ← decodeEntries c t rest
    pure (d?.toList.map (key, ·) ++ ds)
termination_by entries => (sizeOf entries, 0)
decreasing_by
  · apply Prod.Lex.left; rw [List.cons.sizeOf_spec, Prod.mk.sizeOf_spec]; omega
  · apply Prod.Lex.left; rw [List.cons.sizeOf_spec, Prod.mk.sizeOf_spec]; omega

/-- Reads the fields of a record from the members of an object. -/
def decodeFields (c : Catalog) (members : List (String × Json)) :
    List Field → DecodeM (List (String × Datum))
  | [] => pure []
  | f :: rest => do
    let d ← f.read members fun v _h => decode c f.ty v
    let ds ← decodeFields c members rest
    pure ((f.key, d) :: ds)
termination_by fields => (sizeOf members, sizeOf fields)
decreasing_by
  · exact Prod.Lex.left _ _ (sizeOf_lt_of_lookup _h)
  · apply Prod.Lex.right; rw [List.cons.sizeOf_spec]; omega

end

/-- Reads a document as a value of a type, with a fresh decoder. -/
def decodeValue (c : Catalog) (t : Ty) (options : Options) (v : Json) :
    Except DecodeError (Decoded Datum) :=
  ((decode c t v).runFresh options).1

/-- The entries that this reading leaves out at one time or another, in order. -/
def dropEvents (c : Catalog) (t : Ty) (options : Options) (v : Json) : List Drop :=
  ((decode c t v).runFresh options).2

end Larder
