/-!
# What can be wrong with a text

A text that is not a document is refused with a cause and a position. Positions count lines from
one, and bytes from the start of the line. A complaint about a character stands just after the
character's first byte; a complaint about the end of the text stands there.
-/

namespace Larder.Json

/-- A place between two bytes of a text. -/
structure Position where
  line : Nat
  column : Nat
deriving DecidableEq

namespace Position

/-- The beginning of a text. -/
def start : Position := ⟨1, 0⟩

/-- The place after a whole character. -/
def advance (p : Position) (c : Char) : Position :=
  if c = '\n' then ⟨p.line + 1, 0⟩ else ⟨p.line, p.column + c.utf8Size⟩

/-- The place after the first `bytes` bytes of a character, and after the whole of it at most. -/
def within (p : Position) (c : Char) (bytes : Nat) : Position :=
  if c.utf8Size ≤ bytes then p.advance c else ⟨p.line, p.column + bytes⟩

/-- The place after a character's first byte, where a complaint about the character stands. -/
def touch (p : Position) (c : Char) : Position := p.within c 1

end Position

/-- Why a text is not a document. -/
inductive Cause where
  | endInValue
  | endInList
  | endInObject
  | endInString
  | expectedValue
  | expectedWord
  | invalidNumber
  | numberOutOfRange
  | expectedCommaOrBracket
  | expectedCommaOrBrace
  | expectedColon
  | trailingComma
  | keyNotString
  | controlCharacter
  | invalidEscape
  | loneSurrogate
  | unpairedSurrogate
  | tooDeep
  | trailingCharacters
deriving DecidableEq

namespace Cause

/-- The wording of a cause. -/
def message : Cause → String
  | endInValue => "EOF while parsing a value"
  | endInList => "EOF while parsing a list"
  | endInObject => "EOF while parsing an object"
  | endInString => "EOF while parsing a string"
  | expectedValue => "expected value"
  | expectedWord => "expected ident"
  | invalidNumber => "invalid number"
  | numberOutOfRange => "number out of range"
  | expectedCommaOrBracket => "expected `,` or `]`"
  | expectedCommaOrBrace => "expected `,` or `\x7d`"
  | expectedColon => "expected `:`"
  | trailingComma => "trailing comma"
  | keyNotString => "key must be a string"
  | controlCharacter => "control character (\\u0000-\\u001F) found while parsing a string"
  | invalidEscape => "invalid escape"
  | loneSurrogate => "lone leading surrogate in hex escape"
  | unpairedSurrogate => "unexpected end of hex escape"
  | tooDeep => "recursion limit exceeded"
  | trailingCharacters => "trailing characters"

/-- Whether more text could have made a document of it. -/
def isEnd : Cause → Bool
  | endInValue | endInList | endInObject | endInString => true
  | _ => false

end Cause

/-- A text refused: why, and where. -/
structure Malformed where
  cause : Cause
  position : Position
deriving DecidableEq

/-- The wording of the cause, and the position. -/
def Malformed.message (m : Malformed) : String :=
  m.cause.message ++ " at line " ++ Nat.repr m.position.line ++
    " column " ++ Nat.repr m.position.column

end Larder.Json
