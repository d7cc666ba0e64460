import Larder.Uuid

/-!
# Reading identifiers

Four spellings are read, with digits of either case: 32 digits; the hyphenated form; that form in
braces; and that form after `urn:uuid:`. A text that is none of them is refused with the first
thing that is wrong with it: a character that has no place in it, its length, the number of its
groups, or the length of one group. Offsets and lengths count bytes.
-/

namespace Larder.Uuid

/-- What is wrong with a text that is no identifier. -/
inductive Flaw where
  | length (found : Nat)
  | character (found : Char) (offset : Nat)
  | groupCount (found : Nat)
  | groupLength (group expected found : Nat)
deriving DecidableEq

/-- The wording of a flaw. -/
def Flaw.message : Flaw → String
  | length found => "invalid length: found " ++ Nat.repr found
  | character found offset =>
    "invalid character: found `" ++ String.singleton found ++ "` at " ++ Nat.repr offset
  | groupCount found => "invalid group count: expected 5, found " ++ Nat.repr found
  | groupLength group expected found =>
    "invalid group length in group " ++ Nat.repr group ++ ": expected " ++ Nat.repr expected ++
      ", found " ++ Nat.repr found

/-- The value of a hexadecimal digit of either case. -/
def hexDigit? (c : Char) : Option (Fin 16) :=
  let code := c.toNat
  if h : 48 ≤ code ∧ code ≤ 57 then some ⟨code - 48, by omega⟩
  else if h : 97 ≤ code ∧ code ≤ 102 then some ⟨code - 97 + 10, by omega⟩
  else if h : 65 ≤ code ∧ code ≤ 70 then some ⟨code - 65 + 10, by omega⟩
  else none

/-- The digits of a text that holds nothing else. -/
def hexDigits? (cs : List Char) : Option (List (Fin 16)) := cs.mapM hexDigit?

/-- Takes the hyphens out of groups of the given lengths. -/
def ungrouped? : List Nat → List Char → Option (List Char)
  | [], _ => none
  | [n], cs => if cs.length = n then some cs else none
  | n :: more, cs =>
    match cs.drop n with
    | '-' :: rest =>
      if (cs.take n).length = n then (ungrouped? more rest).map (cs.take n ++ ·) else none
    | _ => none

/-- The identifier of a text of digits alone. -/
def ofPlain? (cs : List Char) : Option Uuid := (hexDigits? cs).bind ofDigits?

/-- The identifier of a text of hyphenated groups. -/
def ofHyphenated? (cs : List Char) : Option Uuid := (ungrouped? groups cs).bind ofPlain?

/-- How many bytes a text takes. -/
def byteLength : List Char → Nat
  | [] => 0
  | c :: cs => c.utf8Size + byteLength cs

/-- The text between braces. -/
def braced? (cs : List Char) : Option (List Char) :=
  match cs with
  | '{' :: rest => if rest.getLast? = some '}' then some rest.dropLast else none
  | _ => none

/-- What comes before an identifier that is written as a resource name. -/
def resourceScheme : List Char := "urn:uuid:".toList

/-- The text after `urn:uuid:`, in any case. -/
def afterScheme? (cs : List Char) : Option (List Char) :=
  if (cs.take resourceScheme.length).map Char.toLower = resourceScheme then
    some (cs.drop resourceScheme.length)
  else none

/-- The part of a text that its length and its frame mark as the hyphenated form. -/
def hyphenatedPart? (cs : List Char) : Option (List Char) :=
  if byteLength cs = 36 then some cs
  else if byteLength cs = 38 then braced? cs
  else if byteLength cs = 45 then afterScheme? cs
  else none

/-- The identifier of a text, if the text is one of the four spellings. -/
def ofChars? (cs : List Char) : Option Uuid :=
  match hyphenatedPart? cs with
  | some part => ofHyphenated? part
  | none => if byteLength cs = 32 then ofPlain? cs else none

/-! ## What is wrong with a text -/

/-- The offsets of the hyphens in a text of digits and hyphens, counted from `offset`, or its
first other character. -/
def hyphens (offset : Nat) : List Char → Except Flaw (List Nat)
  | [] => .ok []
  | c :: cs =>
    if c = '-' then (hyphens (offset + 1) cs).map (offset :: ·)
    else if (hexDigit? c).isSome then hyphens (offset + 1) cs
    else .error (.character c offset)

/-- The first group whose closing hyphen is not where it belongs; `start` is where the group
starts. The last group takes what is left of `total` bytes. -/
def groupFlaw (total : Nat) : Nat → Nat → List Nat → List Nat → Flaw
  | group, start, n :: more, hyphen :: rest =>
    if hyphen = start + n then groupFlaw total (group + 1) (start + n + 1) more rest
    else .groupLength group n (hyphen - start)
  | group, start, n :: _, [] => .groupLength group n (total - start)
  | _, _, [], _ => .length total

/-- What is wrong with the groups of `body`, which stands at `offset` in a text of `total` bytes.
Hyphens count from the start of the body. -/
def bodyFlaw (total offset : Nat) (body : List Char) (mustGroup : Bool) : Flaw :=
  match hyphens offset body with
  | .error flaw => flaw
  | .ok found =>
    if found.isEmpty && !mustGroup then .length total
    else if found.length ≠ 4 then .groupCount (found.length + 1)
    else groupFlaw total 0 0 groups (found.map (· - offset))

/-- What is wrong with a text that is no identifier. -/
def flaw (cs : List Char) : Flaw :=
  match hyphenatedPart? cs with
  | some part => bodyFlaw (byteLength part) 0 part true
  | none =>
    let total := byteLength cs
    if total = 0 ∨ 45 < total then .length total
    else match braced? cs, afterScheme? cs with
      | some body, _ => bodyFlaw total 1 body true
      | none, some body => bodyFlaw total resourceScheme.length body true
      | none, none => bodyFlaw total 0 cs false

/-- The identifier that a text spells, or what is wrong with the text. -/
def ofText (text : String) : Except Flaw Uuid :=
  match ofChars? text.toList with
  | some u => .ok u
  | none => .error (flaw text.toList)

end Larder.Uuid
