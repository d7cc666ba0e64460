import Larder.Json.NumberText
import Larder.Json.Printer

/-!
# What numbers are read as from their own text

The text of a number has the fewest digits that tell it from other numbers, and reading scales those
digits, so a floating point number is not always what its text is read as. `Json.reread` is the
document with each number read from its own text: it is what the text of the document is read as,
which is the document itself where that is `Stable`.
-/

namespace Larder

namespace Json.NumberPhase

/-- How far a number has been read after more characters, if all of them belong to it. -/
def after (p : NumberPhase) : List Char → Option NumberPhase
  | [] => some p
  | c :: cs =>
    match p.next? c with
    | some (.ok q) => q.after cs
    | _ => none

/-- How far a number has been read that begins with these characters. -/
def read : List Char → Option NumberPhase
  | [] => none
  | c :: cs => (start? c).bind fun p => p.after cs

end Json.NumberPhase

/-- What the text of the number is read as, and nothing if it is out of range. -/
def Number.reread (n : Number) : Option Number :=
  (Json.NumberPhase.read n.chars).bind fun p => p.finish.toOption

namespace Json

mutual

/-- The document with each number read from its own text, and nothing if one is out of range. -/
def reread : Json → Option Json
  | .number n => n.reread.map .number
  | .array items => (rereadItems items).map .array
  | .object members => (rereadMembers members).map .object
  | v => some v

def rereadItems : List Json → Option (List Json)
  | [] => some []
  | v :: rest => v.reread.bind fun w => (rereadItems rest).map (w :: ·)

def rereadMembers : List (String × Json) → Option (List (String × Json))
  | [] => some []
  | (key, v) :: rest => v.reread.bind fun w => (rereadMembers rest).map ((key, w) :: ·)

end

/-- No number of the document is out of range in its own text. -/
def Legible (v : Json) : Prop := v.reread.isSome = true

/-- Every number of the document is read back from its own text. -/
def Stable (v : Json) : Prop := v.reread = some v

theorem Stable.legible {v : Json} (h : v.Stable) : v.Legible := by
  rw [Legible, h]
  rfl

theorem Legible.exists {v : Json} (h : v.Legible) : ∃ w, v.reread = some w :=
  Option.isSome_iff_exists.mp h

end Json

end Larder
