import Larder.Text.Unprintable

/-!
# Strings in messages

A message quotes a string between double quotes, in a way that shows every character. The quote,
the backslash and four control characters are written by a letter after a backslash; a character
that does not show what it is stands as its number in braces.
-/

namespace Larder.Text

/-- One character as a quotation shows it. -/
def shown (c : Char) : List Char :=
  if c = '\x00' then ['\\', '0']
  else if c = '\t' then ['\\', 't']
  else if c = '\r' then ['\\', 'r']
  else if c = '\n' then ['\\', 'n']
  else if c = '"' then ['\\', '"']
  else if c = '\\' then ['\\', '\\']
  else if isUnprintable c then
    '\\' :: 'u' :: '{' :: (Nat.toDigits 16 c.toNat ++ ['}'])
  else [c]

/-- A string as a message quotes it. -/
def quotation (s : List Char) : List Char := '"' :: (s.flatMap shown ++ ['"'])

end Larder.Text
