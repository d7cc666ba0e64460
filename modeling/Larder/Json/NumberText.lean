import Larder.Json.Basic
import Larder.Json.Malformed
import Larder.Number.Scaling

/-!
# Reading a number

A number is read one character at a time. Until it ends it is in one of the phases below, which
say what may come next. Where the text has no point and no exponent, and 64 bits hold the number,
it is an integer; `-0` and all others are floating point numbers.

Of these the digits are kept as long as 64 bits hold them as one number. Digits beyond are left out:
those before the point count as powers of ten, those after it not at all. The number that is kept is
then scaled by a power of ten (`Finite.ofScaled`), so what is read is near what the text spells, but
not always the nearest number; it is out of range where scaling finds none.
-/

namespace Larder.Json

/-- What has been read of the digits: the number they make, as far as 64 bits hold it, the power of
ten by which it is to be scaled, and whether digits have been left out on this side of the point. -/
structure Numeral where
  negative : Bool
  significand : Nat
  exponent : Int
  full : Bool

/-- How far a number has been read. -/
inductive NumberPhase where
  /-- A minus sign. -/
  | minus
  /-- A zero that no digit may follow. -/
  | zero (negative : Bool)
  /-- Digits before the point. -/
  | whole (n : Numeral)
  /-- The point. -/
  | point (n : Numeral)
  /-- Digits after the point. -/
  | fraction (n : Numeral)
  /-- The mark of the exponent. -/
  | mark (n : Numeral)
  /-- The exponent's sign. -/
  | sign (n : Numeral) (down : Bool)
  /-- Digits of the exponent. -/
  | exponent (n : Numeral) (down : Bool) (e : Nat)
  /-- Digits of an exponent beyond counting, of a number that is zero all the same. -/
  | vanishing (negative : Bool)

/-- The value of a decimal digit. -/
def digitValue (c : Char) : Nat := c.toNat - '0'.toNat

/-- The greatest number that 64 bits hold. -/
def significandLimit : Nat := 18446744073709551615

namespace Numeral

/-- The numeral of no digits. -/
def empty (negative : Bool) : Numeral := ⟨negative, 0, 0, false⟩

/-- The significand with one more digit, unless that is left out. -/
def append? (n : Numeral) (c : Char) : Option Nat :=
  let longer := 10 * n.significand + digitValue c
  if n.full || significandLimit < longer then none else some longer

/-- One more digit before the point. -/
def digit (n : Numeral) (c : Char) : Numeral :=
  match n.append? c with
  | some longer => { n with significand := longer }
  | none => { n with exponent := n.exponent + 1, full := true }

/-- The point. The digits after it are kept if 64 bits hold the first of them, even where a digit
before it was left out. -/
def point (n : Numeral) : Numeral := { n with full := false }

/-- One more digit after the point. -/
def place (n : Numeral) (c : Char) : Numeral :=
  match n.append? c with
  | some longer => { n with significand := longer, exponent := n.exponent - 1 }
  | none => { n with full := true }

/-- What has been read, times a power of ten. -/
def toFloat? (n : Numeral) (e : Int) : Except Cause Number :=
  match Binary64.Finite.ofScaled n.negative ⟨n.significand, n.exponent + e⟩ with
  | some x => .ok (.float x)
  | none => .error .numberOutOfRange

/-- The number of digits alone: an integer where 64 bits hold one, except that `-0` is none. -/
def toNumber? (n : Numeral) : Except Cause Number :=
  if n.full || n.negative && n.significand == 0 then n.toFloat? 0
  else
    match Integer.ofInt? (if n.negative then -(n.significand : Int) else n.significand) with
    | some i => .ok (.integer i)
    | none => n.toFloat? 0

end Numeral

/-- The largest exponent that is counted. -/
def exponentLimit : Nat := 2147483647

/-- One more digit of an exponent. An exponent beyond counting is out of range if it is positive
and there is anything to scale, and otherwise makes the number zero. -/
def exponentDigit (n : Numeral) (down : Bool) (e : Nat) (c : Char) : Except Cause NumberPhase :=
  let e' := 10 * e + digitValue c
  if e' ≤ exponentLimit then .ok (.exponent n down e')
  else if !down && n.significand != 0 then .error .numberOutOfRange
  else .ok (.vanishing n.negative)

namespace NumberPhase

/-- The number's start, at its first character. -/
def start? (c : Char) : Option NumberPhase :=
  if c = '-' then some minus
  else if c = '0' then some (zero false)
  else if c.isDigit then some (whole ((Numeral.empty false).digit c))
  else none

/-- Takes in one more character; `none` when the number ended before it. -/
def next? (p : NumberPhase) (c : Char) : Option (Except Cause NumberPhase) :=
  match p with
  | minus =>
    if c = '0' then some (.ok (zero true))
    else if c.isDigit then some (.ok (whole ((Numeral.empty true).digit c)))
    else some (.error .invalidNumber)
  | zero negative =>
    if c.isDigit then some (.error .invalidNumber)
    else if c = '.' then some (.ok (point (.empty negative)))
    else if c = 'e' ∨ c = 'E' then some (.ok (mark (.empty negative)))
    else none
  | whole n =>
    if c.isDigit then some (.ok (whole (n.digit c)))
    else if c = '.' then some (.ok (point n.point))
    else if c = 'e' ∨ c = 'E' then some (.ok (mark n))
    else none
  | point n => some (if c.isDigit then .ok (fraction (n.place c)) else .error .invalidNumber)
  | fraction n =>
    if c.isDigit then some (.ok (fraction (n.place c)))
    else if c = 'e' ∨ c = 'E' then some (.ok (mark n))
    else none
  | mark n =>
    if c = '+' then some (.ok (sign n false))
    else if c = '-' then some (.ok (sign n true))
    else if c.isDigit then some (exponentDigit n false 0 c)
    else some (.error .invalidNumber)
  | sign n down =>
    some (if c.isDigit then exponentDigit n down 0 c else .error .invalidNumber)
  | exponent n down e => if c.isDigit then some (exponentDigit n down e c) else none
  | vanishing negative => if c.isDigit then some (.ok (vanishing negative)) else none

/-- The number that has been read, when nothing more of it comes. -/
def finish : NumberPhase → Except Cause Number
  | minus | point _ | mark _ | sign _ _ => .error .endInValue
  | zero negative => (Numeral.empty negative).toNumber?
  | whole n => n.toNumber?
  | fraction n => n.toFloat? 0
  | exponent n down e => n.toFloat? (if down then -(e : Int) else e)
  | vanishing negative => .ok (.float (.zero negative))

end NumberPhase

end Larder.Json
