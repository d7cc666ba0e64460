/-!
# Universally unique identifiers

An identifier is 128 bits, kept as 32 hexadecimal digits. It is written in lower case, in groups
of 8, 4, 4, 4 and 12 digits with hyphens between them.
-/

namespace Larder

/-- An identifier of 32 hexadecimal digits. -/
structure Uuid where
  digits : List (Fin 16)
  length_eq : digits.length = 32
deriving DecidableEq

namespace Uuid

/-- The identifier of these digits, if there are 32 of them. -/
def ofDigits? (digits : List (Fin 16)) : Option Uuid :=
  if h : digits.length = 32 then some ⟨digits, h⟩ else none

/-- The numbers of digits between the hyphens. -/
def groups : List Nat := [8, 4, 4, 4, 12]

/-- Cuts a list into groups of the given lengths, with a separator between each two. -/
def grouped {α : Type _} (separator : α) : List Nat → List α → List α
  | [], _ => []
  | [n], xs => xs.take n
  | n :: more, xs => xs.take n ++ separator :: grouped separator more (xs.drop n)

/-- The written form of an identifier. -/
def chars (u : Uuid) : List Char :=
  grouped '-' groups (u.digits.map fun d => Nat.digitChar d.val)

/-- The written form of an identifier, as a string. -/
def text (u : Uuid) : String := String.ofList u.chars

end Uuid

end Larder
