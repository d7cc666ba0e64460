import Larder.Json.Canonical
import Larder.Uuid
import Larder.ListStatus
import Larder.Failure

/-!
# Values

A value of any type, and the document that stands for it. Absent options and floating point numbers
that are not finite are written as null; records and maps are objects with their keys in order,
whatever order they are listed in.
-/

namespace Larder

/-- A value. -/
inductive Datum where
  | string (s : String)
  | bool (b : Bool)
  | integer (n : Integer)
  | float (x : Binary64)
  | uuid (u : Uuid)
  | json (v : Json)
  | status (s : ListStatus)
  /-- An option without a value. -/
  | absent
  /-- An option with a value. -/
  | present (d : Datum)
  | list (items : List Datum)
  /-- A map, its entries in any order, each key once. -/
  | map (entries : List (String × Datum))
  /-- The payload of a response. -/
  | ok (d : Datum)
  /-- The failure of a response. -/
  | err (f : Failure)
  /-- A record, by the keys of its fields in their order. -/
  | record (fields : List (String × Datum))

namespace Datum

/-- The value of an option. -/
def ofOption : Option Datum → Datum
  | none => absent
  | some d => present d

/-- The value under a key of a record. -/
def field? (key : String) : Datum → Option Datum
  | record fields => fields.lookup key
  | _ => none

mutual

/-- The document of a value. -/
def encode : Datum → Json
  | .string s => .string s
  | .bool b => .bool b
  | .integer n => .integer n
  | .float (.finite x) => .number (.float x)
  | .float _ => .null
  | .uuid u => .string u.text
  | .json v => v
  | .status s => .string s.text
  | .absent => .null
  | .present d => d.encode
  | .list items => .array (encodeItems items)
  | .map entries => .object (encodeEntries entries)
  | .ok d => .object [("ok", d.encode)]
  | .err f => .object [("err", f.encode)]
  | .record fields => .object (encodeEntries fields)

def encodeItems : List Datum → List Json
  | [] => []
  | d :: rest => d.encode :: encodeItems rest

/-- The members of an object, in the order of their keys; of entries under one key the last is
written. -/
def encodeEntries : List (String × Datum) → List (String × Json)
  | [] => []
  | (key, d) :: rest => Keyed.insertIfNew key d.encode (encodeEntries rest)

end

/-- The canonical text of a value, on one line and with keys in order. -/
def text (d : Datum) : String := d.encode.canonical.compact

mutual

/-- Equality of values. The order of a map's entries does not matter, and opaque documents are
compared as documents. -/
def same : Datum → Datum → Bool
  | .string s, .string t => s == t
  | .bool a, .bool b => a == b
  | .integer m, .integer n => m == n
  | .float x, .float y => x.same y
  | .uuid u, .uuid v => u == v
  | .json v, .json w => v.same w
  | .status s, .status t => s == t
  | .absent, .absent => true
  | .present a, .present b => a.same b
  | .list xs, .list ys => sameItems xs ys
  | .map xs, .map ys => xs.length == ys.length && sameEntries xs ys
  | .ok a, .ok b => a.same b
  | .err f, .err g => f == g
  | .record xs, .record ys => sameFields xs ys
  | _, _ => false

def sameItems : List Datum → List Datum → Bool
  | [], [] => true
  | x :: xs, y :: ys => x.same y && sameItems xs ys
  | _, _ => false

/-- Each entry of the first map has its like, under its key, in the second. -/
def sameEntries : List (String × Datum) → List (String × Datum) → Bool
  | [], _ => true
  | (key, d) :: rest, ys =>
    (match ys.lookup key with
      | some other => d.same other
      | none => false) && sameEntries rest ys

/-- The fields are alike one by one. -/
def sameFields : List (String × Datum) → List (String × Datum) → Bool
  | [], [] => true
  | (j, x) :: xs, (k, y) :: ys => j == k && x.same y && sameFields xs ys
  | _, _ => false

end

end Datum

end Larder
