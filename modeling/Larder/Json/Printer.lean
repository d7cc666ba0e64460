import Larder.Json.Canonical
import Larder.Number.Notation
import Larder.Text.Escaped

/-!
# Documents as text

The compact text of a document has no blanks. The indented text has one item or member to a line,
two blanks for each open container, a blank after each colon, and `[]` or `{}` for an empty
container. Both write numbers and strings alike.
-/

namespace Larder

/-- The digits of an integer, with its sign if it is negative. -/
def Integer.chars (n : Integer) : List Char :=
  (if n.value < 0 then ['-'] else []) ++ Nat.toDigits 10 n.value.natAbs

/-- The text of a number. -/
def Number.chars : Number → List Char
  | .integer n => n.chars
  | .float x => x.chars

namespace Json

/-- The word of a truth value. -/
def boolChars (b : Bool) : List Char := (if b then "true" else "false").toList

mutual

/-- The compact text of a document. -/
def chars : Json → List Char
  | .null => "null".toList
  | .bool b => boolChars b
  | .number n => n.chars
  | .string s => Text.quoted s
  | .array [] => ['[', ']']
  | .array (item :: rest) => '[' :: (item.chars ++ (furtherItems rest ++ [']']))
  | .object [] => ['{', '}']
  | .object ((key, value) :: rest) =>
    '{' :: (Text.quoted key ++ ':' :: (value.chars ++ (furtherMembers rest ++ ['}'])))

/-- The items after the first, each after a comma. -/
def furtherItems : List Json → List Char
  | [] => []
  | item :: rest => ',' :: (item.chars ++ furtherItems rest)

/-- The members after the first, each after a comma. -/
def furtherMembers : List (String × Json) → List Char
  | [] => []
  | (key, value) :: rest =>
    ',' :: (Text.quoted key ++ ':' :: (value.chars ++ furtherMembers rest))

end

/-- The compact text of a document. -/
def compact (v : Json) : String := String.ofList v.chars

/-- The start of a line inside `depth` open containers. -/
def newLine (depth : Nat) : List Char := '\n' :: List.replicate (2 * depth) ' '

mutual

/-- The indented text of a document that stands inside `depth` open containers. -/
def indentedChars : Json → Nat → List Char
  | .null, _ => "null".toList
  | .bool b, _ => boolChars b
  | .number n, _ => n.chars
  | .string s, _ => Text.quoted s
  | .array [], _ => ['[', ']']
  | .array (item :: rest), depth =>
    '[' :: (newLine (depth + 1) ++ indentedChars item (depth + 1) ++
      indentedItems rest (depth + 1) ++ newLine depth ++ [']'])
  | .object [], _ => ['{', '}']
  | .object ((key, value) :: rest), depth =>
    '{' :: (newLine (depth + 1) ++ Text.quoted key ++ ':' :: ' ' ::
      (indentedChars value (depth + 1) ++ indentedMembers rest (depth + 1) ++
        newLine depth ++ ['}']))

def indentedItems : List Json → Nat → List Char
  | [], _ => []
  | item :: rest, depth =>
    ',' :: (newLine depth ++ indentedChars item depth ++ indentedItems rest depth)

def indentedMembers : List (String × Json) → Nat → List Char
  | [], _ => []
  | (key, value) :: rest, depth =>
    ',' :: (newLine depth ++ Text.quoted key ++ ':' :: ' ' ::
      (indentedChars value depth ++ indentedMembers rest depth))

end

/-- The indented text of a document. -/
def indented (v : Json) : String := String.ofList (v.indentedChars 0)

end Json

end Larder
