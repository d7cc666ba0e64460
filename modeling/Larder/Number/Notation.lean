import Larder.Number.Shortest

/-!
# How floating point numbers are written

A finite number is written by the digits of its shortest decimal. With `E` the power of ten of
the first digit, the number stands in plain notation for `-5 ≤ E < 16`, with at least one digit
after the point (`1.0`, `0.00001`), and otherwise in scientific notation, where the exponent has
its sign and a single digit has no point (`1e+16`, `1.5e-7`).

The reader of this module takes number texts of every usual spelling, also `inf` and `NaN`, which
documents do not have.
-/

namespace Larder

namespace Decimal

/-- Plain notation of `digits` whose first digit has the power `magnitude`. -/
def plain (digits : List Char) (magnitude : Int) : List Char :=
  if magnitude < 0 then
    '0' :: '.' :: List.replicate (-magnitude - 1).toNat '0' ++ digits
  else
    let whole := magnitude.toNat + 1
    if digits.length ≤ whole then
      digits ++ List.replicate (whole - digits.length) '0' ++ ['.', '0']
    else digits.take whole ++ '.' :: digits.drop whole

/-- Scientific notation: one digit, the others after a point, and the power. -/
def scientific (digits : List Char) (magnitude : Int) : List Char :=
  let fraction := digits.drop 1
  digits.take 1 ++ (if fraction.isEmpty then [] else '.' :: fraction) ++
    'e' :: (if magnitude < 0 then '-' else '+') :: Nat.toDigits 10 magnitude.natAbs

/-- The text of a decimal number. -/
def chars (d : Decimal) : List Char :=
  if -5 ≤ d.magnitude ∧ d.magnitude < 16 then plain d.digits d.magnitude
  else scientific d.digits d.magnitude

end Decimal

namespace Binary64

/-- The text of a finite number. -/
def Finite.chars (x : Finite) : List Char :=
  (if x.negative then ['-'] else []) ++ x.shortest.chars

/-- The two zeros are written `0.0` and `-0.0`. -/
theorem Finite.chars_zero (negative : Bool) :
    (zero negative).chars = (if negative then ['-'] else []) ++ ['0', '.', '0'] := by
  rw [chars, shortest_zero]
  rfl

/-- The value of a run of decimal digits. -/
def natOfDigits (digits : List Char) : Nat := Nat.ofDigitChars 10 digits 0

/-- An exponent after its mark: an optional sign and at least one digit. -/
def exponentOfChars? (cs : List Char) : Option Int :=
  let (negative, digits) := match cs with
    | '+' :: rest => (false, rest)
    | '-' :: rest => (true, rest)
    | rest => (false, rest)
  if digits.isEmpty || !digits.all Char.isDigit then none
  else some (if negative then -(natOfDigits digits : Int) else natOfDigits digits)

/-- An unsigned decimal: digits, a point anywhere among them, and an optional exponent. -/
def decimalOfChars? (cs : List Char) : Option Decimal :=
  let whole := cs.takeWhile Char.isDigit
  let afterWhole := cs.dropWhile Char.isDigit
  let (fraction, rest) := match afterWhole with
    | '.' :: more => (more.takeWhile Char.isDigit, more.dropWhile Char.isDigit)
    | more => ([], more)
  if whole.isEmpty && fraction.isEmpty then none
  else
    let exponent? := match rest with
      | [] => some 0
      | mark :: more => if mark.toLower = 'e' then exponentOfChars? more else none
    exponent?.map fun e => ⟨natOfDigits (whole ++ fraction), e - fraction.length⟩

/-- The nearest number to what a text spells, with `inf`, `infinity` and `nan` in any case. -/
def ofText? (text : String) : Option Binary64 :=
  let (negative, cs) := match text.toList with
    | '+' :: rest => (false, rest)
    | '-' :: rest => (true, rest)
    | rest => (false, rest)
  let word := String.ofList (cs.map Char.toLower)
  if word = "nan" then some .nan
  else if word = "inf" ∨ word = "infinity" then some (.infinite negative)
  else (decimalOfChars? cs).map (ofDecimal negative)

end Binary64

end Larder
