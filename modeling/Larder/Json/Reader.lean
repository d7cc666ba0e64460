import Larder.Json.NumberText
import Larder.Json.StringText

/-!
# Reading documents

The reader takes a text one character at a time. Its state is the containers that wait for a value
and what is due at the place it has come to; there are no more than 127 containers open at a time.
`Json.read` takes the whole text for one document; `Json.readFirst` takes the document that the
text begins with, and says separately what it thinks of the rest.
-/

namespace Larder.Json

/-- A container that waits for the value that is being read. -/
inductive Frame where
  /-- A list, with its items so far, last first. -/
  | list (items : List Json)
  /-- An object, with its other members in order, and the key of the value. -/
  | member (members : List (String × Json)) (key : String)

/-- What is due at a place of the text. -/
inductive Due where
  /-- A value. -/
  | value
  /-- The rest of one of the words `null`, `true` and `false`. -/
  | word (rest : List Char) (meaning : Json)
  /-- More of a number, or what follows it. -/
  | number (n : NumberPhase)
  /-- More of a string that is a value. -/
  | string (s : StringPhase)
  /-- An item or the end of a list that has just begun. -/
  | firstItem
  /-- An item, after a comma. -/
  | nextItem (items : List Json)
  /-- A comma or the end of a list. -/
  | afterItem (items : List Json)
  /-- A key or the end of an object that has just begun. -/
  | firstKey
  /-- A key, after a comma. -/
  | nextKey (members : List (String × Json))
  /-- More of a string that is a key. -/
  | key (members : List (String × Json)) (s : StringPhase)
  /-- The colon after a key. -/
  | colon (members : List (String × Json)) (key : String)
  /-- A comma or the end of an object. -/
  | afterMember (members : List (String × Json))
  /-- Nothing: the document is complete. -/
  | nothing (document : Json)

/-- The reader's state between two characters. -/
structure Reader where
  waiting : List Frame
  due : Due
  position : Position

/-- How many containers may be open at a time. -/
def depthLimit : Nat := 127

/-- The characters that may stand between any two tokens. -/
def isBlank (c : Char) : Bool := c = ' ' || c = '\n' || c = '\t' || c = '\r'

namespace Reader

/-- The state before the first character. -/
def start : Reader := ⟨[], .value, .start⟩

/-- Hands a complete value to the container that waits for it. -/
def deliver (value : Json) : List Frame → List Frame × Due
  | [] => ([], .nothing value)
  | .list items :: waiting => (waiting, .afterItem (value :: items))
  | .member members key :: waiting => (waiting, .afterMember (Keyed.insert key value members))

/-- The first character of a value. -/
def beginValue (waiting : List Frame) (c : Char) : Except Cause (List Frame × Due) :=
  if c = '"' then .ok (waiting, .string .opened)
  else if c = '[' ∨ c = '{' then
    if depthLimit ≤ waiting.length then .error .tooDeep
    else .ok (waiting, if c = '[' then .firstItem else .firstKey)
  else if c = 'n' then .ok (waiting, .word ['u', 'l', 'l'] .null)
  else if c = 't' then .ok (waiting, .word ['r', 'u', 'e'] (.bool true))
  else if c = 'f' then .ok (waiting, .word ['a', 'l', 's', 'e'] (.bool false))
  else match NumberPhase.start? c with
    | some n => .ok (waiting, .number n)
    | none => .error .expectedValue

/-- A character outside strings and numbers, and not a blank. -/
def structural (waiting : List Frame) (due : Due) (c : Char) : Except Cause (List Frame × Due) :=
  match due with
  | .firstItem =>
    if c = ']' then .ok (deliver (.array []) waiting) else beginValue (.list [] :: waiting) c
  | .nextItem items =>
    if c = ']' then .error .trailingComma else beginValue (.list items :: waiting) c
  | .afterItem items =>
    if c = ',' then .ok (waiting, .nextItem items)
    else if c = ']' then .ok (deliver (.array items.reverse) waiting)
    else .error .expectedCommaOrBracket
  | .firstKey =>
    if c = '}' then .ok (deliver (.object []) waiting)
    else if c = '"' then .ok (waiting, .key [] .opened)
    else .error .keyNotString
  | .nextKey members =>
    if c = '}' then .error .trailingComma
    else if c = '"' then .ok (waiting, .key members .opened)
    else .error .keyNotString
  | .colon members key =>
    if c = ':' then .ok (.member members key :: waiting, .value) else .error .expectedColon
  | .afterMember members =>
    if c = ',' then .ok (waiting, .nextKey members)
    else if c = '}' then .ok (deliver (.object members) waiting)
    else .error .expectedCommaOrBrace
  | .nothing _ => .error .trailingCharacters
  | _ => beginValue waiting c

/-- One more letter of a word. -/
def letter (waiting : List Frame) (rest : List Char) (meaning : Json) (c : Char) :
    Except Cause (List Frame × Due) :=
  match rest with
  | [] => .ok (deliver meaning waiting)
  | d :: rest' =>
    if c = d then
      .ok (if rest'.isEmpty then deliver meaning waiting else (waiting, .word rest' meaning))
    else .error .expectedWord

/-- Moves on past a character, with a new state or a complaint about it. -/
def past (r : Reader) (c : Char) : Except Cause (List Frame × Due) → Except Malformed Reader
  | .ok (waiting, due) => .ok ⟨waiting, due, r.position.advance c⟩
  | .error cause => .error ⟨cause, r.position.touch c⟩

/-- Takes in one more character. -/
def step (r : Reader) (c : Char) : Except Malformed Reader :=
  match r.due with
  | .word rest meaning => r.past c (letter r.waiting rest meaning c)
  | .number n =>
    match n.next? c with
    | some (.ok n') => r.past c (.ok (r.waiting, .number n'))
    | some (.error cause) => r.past c (.error cause)
    | none => r.past c (.error .invalidNumber)
  | .string s =>
    match s.step r.position c with
    | .more s' => r.past c (.ok (r.waiting, .string s'))
    | .closed text => r.past c (.ok (deliver (.string text) r.waiting))
    | .refused cause position => .error ⟨cause, position⟩
  | .key members s =>
    match s.step r.position c with
    | .more s' => r.past c (.ok (r.waiting, .key members s'))
    | .closed text => r.past c (.ok (r.waiting, .colon members text))
    | .refused cause position => .error ⟨cause, position⟩
  | due =>
    if isBlank c then r.past c (.ok (r.waiting, due)) else r.past c (structural r.waiting due c)

/-- Hands a number over when nothing more of it comes. -/
def endNumber (r : Reader) (n : NumberPhase) : Except Malformed Reader :=
  match n.finish with
  | .ok value =>
    let (waiting, due) := deliver (.number value) r.waiting
    .ok ⟨waiting, due, r.position⟩
  | .error cause => .error ⟨cause, r.position⟩

/-- Ends a number that the next character does not continue. -/
def settle (r : Reader) (c : Char) : Except Malformed Reader :=
  match r.due with
  | .number n => if (n.next? c).isNone then r.endNumber n else .ok r
  | _ => .ok r

/-- What is missing at the end of a text. -/
def missing : Due → Cause
  | .firstItem | .afterItem _ => .endInList
  | .firstKey | .colon _ _ | .afterMember _ => .endInObject
  | .string _ | .key _ _ => .endInString
  | _ => .endInValue

/-- The complaint about a text that goes on after its document, unless by blanks. -/
def trailing (p : Position) : List Char → Option Malformed
  | [] => none
  | c :: cs => if isBlank c then trailing (p.advance c) cs else some ⟨.trailingCharacters, p.touch c⟩

/-- The document of a text that has come to its end. -/
def finish (r : Reader) : Except Malformed Json := do
  let r ← match r.due with
    | .number n => r.endNumber n
    | _ => .ok r
  match r.due with
  | .nothing document => .ok document
  | due => .error ⟨missing due, r.position⟩

/-- Takes in a text, up to the end of its first document, and then looks at what follows. -/
def run (r : Reader) : List Char → Except Malformed (Json × Option Malformed)
  | [] => r.finish.map (·, none)
  | c :: cs => do
    let r ← r.settle c
    match r.due with
    | .nothing document => .ok (document, trailing r.position (c :: cs))
    | _ => run (← r.step c) cs

end Reader

/-- The document a text begins with, and the complaint about what follows it, if any. -/
def readFirst (text : String) : Except Malformed (Json × Option Malformed) :=
  Reader.start.run text.toList

/-- The document that a text spells. -/
def read (text : String) : Except Malformed Json :=
  match readFirst text with
  | .ok (document, none) => .ok document
  | .ok (_, some complaint) => .error complaint
  | .error complaint => .error complaint

end Larder.Json
