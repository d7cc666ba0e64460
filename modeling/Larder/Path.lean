import Larder.Json.Basic
import Larder.Text.Quoted

/-!
# Paths into a document

A path leads from the root of a document to a value in it, by the keys of objects and the indices
of arrays. It is written `$.items[1].name`; a key that is not a plain word is quoted in brackets.
-/

namespace Larder

/-- One step into a document. -/
inductive Segment where
  | key (key : String)
  | index (index : Nat)
deriving DecidableEq

/-- The steps from the root of a document, in order. -/
structure Path where
  segments : List Segment
deriving DecidableEq

namespace Segment

/-- Whether a key is written after a dot: letters, digits and underscores of ASCII, beginning with
no digit. -/
def isPlain (key : List Char) : Bool :=
  match key with
  | [] => false
  | c :: _ => !c.isDigit && key.all fun c => c.isAlphanum || c = '_'

/-- One step as it is written. -/
def chars : Segment → List Char
  | .key k =>
    if isPlain k.toList then '.' :: k.toList else '[' :: (Text.quotation k.toList ++ [']'])
  | .index i => '[' :: (Nat.toDigits 10 i ++ [']'])

/-- The value one step into a document. -/
def follow : Segment → Json → Option Json
  | .key k, .object members => members.lookup k
  | .index i, .array items => items[i]?
  | _, _ => none

end Segment

namespace Path

/-- The path to the whole document. -/
def root : Path := ⟨[]⟩

/-- Whether the path leads to the whole document. -/
def isRoot (p : Path) : Bool := p.segments.isEmpty

/-- The path one step deeper. -/
def push (p : Path) (s : Segment) : Path := ⟨p.segments ++ [s]⟩

/-- The path without its last step. -/
def pop (p : Path) : Path := ⟨p.segments.dropLast⟩

/-- The written form of a path, as characters. -/
def chars (p : Path) : List Char := '$' :: p.segments.flatMap Segment.chars

/-- The written form of a path. -/
def text (p : Path) : String := String.ofList p.chars

theorem pop_push (p : Path) (s : Segment) : (p.push s).pop = p := by simp [push, pop]

end Path

/-- The value that a path leads to. -/
def Json.resolve (v : Json) (p : Path) : Option Json :=
  p.segments.foldlM (fun v s => s.follow v) v

theorem Json.resolve_cons (v : Json) (s : Segment) (p : List Segment) :
    v.resolve ⟨s :: p⟩ = (s.follow v).bind fun w => w.resolve ⟨p⟩ := rfl

end Larder
