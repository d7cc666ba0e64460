import Larder.Json.Malformed

/-!
# Reading a string

A string is read one character at a time, from after its opening quote. An escape by number takes
the next four bytes of the text before it is judged. Numbers of the surrogate range stand for a
character only in pairs, high before low.
-/

namespace Larder.Json

/-- How far an escape inside a string has been read. -/
inductive EscapePhase where
  /-- No escape is open. -/
  | plain
  /-- A backslash. -/
  | backslash
  /-- `\u` and `bytes` bytes after it, worth `unit` if all of them were hexadecimal digits; `high`
  is the surrogate that the number has to complete. -/
  | hex (high : Option Nat) (bytes : Nat) (unit : Option Nat)
  /-- A high surrogate, whose partner is due. -/
  | pair (high : Nat)
  /-- A high surrogate and a backslash. -/
  | pairBackslash (high : Nat)

/-- A string that is being read: its characters, last first, and the open escape. -/
structure StringPhase where
  text : List Char
  escape : EscapePhase

/-- The value of a hexadecimal digit of either case. -/
def hexValue? (c : Char) : Option Nat :=
  if c.isDigit then some (c.toNat - '0'.toNat)
  else if 'a' ≤ c ∧ c ≤ 'f' then some (c.toNat - 'a'.toNat + 10)
  else if 'A' ≤ c ∧ c ≤ 'F' then some (c.toNat - 'A'.toNat + 10)
  else none

/-- The character of a one-letter escape. -/
def unescape? (c : Char) : Option Char :=
  if c = '"' ∨ c = '\\' ∨ c = '/' then some c
  else if c = 'b' then some '\x08'
  else if c = 'f' then some '\x0c'
  else if c = 'n' then some '\n'
  else if c = 'r' then some '\r'
  else if c = 't' then some '\t'
  else none

/-- What a character does to a string that is being read. -/
inductive StringStep where
  | more (s : StringPhase)
  | closed (s : String)
  | refused (cause : Cause) (position : Position)

namespace StringPhase

/-- A string of which nothing has been read. -/
def opened : StringPhase := ⟨[], .plain⟩

/-- The character of a number without a partner. -/
def single (text : List Char) (unit : Nat) : Except Cause StringPhase :=
  if 0xDC00 ≤ unit ∧ unit ≤ 0xDFFF then .error .loneSurrogate
  else if 0xD800 ≤ unit ∧ unit ≤ 0xDBFF then .ok ⟨text, .pair unit⟩
  else .ok ⟨Char.ofNat unit :: text, .plain⟩

/-- The character of a high surrogate and the number after it. -/
def paired (text : List Char) (high low : Nat) : Except Cause StringPhase :=
  if 0xDC00 ≤ low ∧ low ≤ 0xDFFF then
    .ok ⟨Char.ofNat (0x10000 + (high - 0xD800) * 0x400 + (low - 0xDC00)) :: text, .plain⟩
  else .error .loneSurrogate

/-- The fourth byte of a number is in. -/
def unitRead (text : List Char) (high : Option Nat) (unit : Option Nat) :
    Except Cause StringPhase :=
  match unit, high with
  | none, _ => .error .invalidEscape
  | some u, none => single text u
  | some u, some h => paired text h u

/-- Takes in one more character, which stands at `here`. -/
def step (s : StringPhase) (here : Position) (c : Char) : StringStep :=
  match s.escape with
  | .plain =>
    if c = '"' then .closed (String.ofList s.text.reverse)
    else if c = '\\' then .more { s with escape := .backslash }
    else if c.toNat < 0x20 then .refused .controlCharacter (here.touch c)
    else .more { s with text := c :: s.text }
  | .backslash =>
    if c = 'u' then .more { s with escape := .hex none 0 (some 0) }
    else match unescape? c with
      | some d => .more ⟨d :: s.text, .plain⟩
      | none => .refused .invalidEscape (here.touch c)
  | .hex high bytes unit =>
    let unit' := match unit, hexValue? c with
      | some u, some d => some (16 * u + d)
      | _, _ => none
    if bytes + c.utf8Size < 4 then .more { s with escape := .hex high (bytes + c.utf8Size) unit' }
    else match unitRead s.text high unit' with
      | .ok s' => .more s'
      | .error cause => .refused cause (here.within c (4 - bytes))
  | .pair high =>
    if c = '\\' then .more { s with escape := .pairBackslash high }
    else .refused .unpairedSurrogate (here.touch c)
  | .pairBackslash high =>
    if c = 'u' then .more { s with escape := .hex (some high) 0 (some 0) }
    else .refused .unpairedSurrogate (here.touch c)

end StringPhase

end Larder.Json
