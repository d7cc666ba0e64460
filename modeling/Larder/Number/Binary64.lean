import Larder.Number.Decimal

/-!
# Binary floating point of 64 bits

A finite number is a sign, a mantissa below `2 ^ 53` and an exponent from `-1074` to `971`; it is
worth `± mantissa · 2 ^ exponent`. The mantissa has its full 53 bits unless the exponent is the
least one, so each number has one representation, and zero has two: `0.0` and `-0.0`.

Quotients of natural numbers are rounded to the nearest number, ties to the even mantissa.
-/

namespace Larder

namespace Binary64

/-- The least number of 54 bits, `2 ^ 53`, which no mantissa reaches. -/
def mantissaBound : Nat := 9007199254740992

/-- The least number of 53 bits, `2 ^ 52`. -/
def fullMantissa : Nat := 4503599627370496

/-- Bounds of mantissa and exponent, with the leading bit set wherever the exponent allows it. -/
def Canonical (mantissa : Nat) (exponent : Int) : Prop :=
  mantissa < mantissaBound ∧ -1074 ≤ exponent ∧ exponent ≤ 971 ∧
    (fullMantissa ≤ mantissa ∨ exponent = -1074)

instance (m : Nat) (e : Int) : Decidable (Canonical m e) := by
  unfold Canonical; infer_instance

/-- A finite number, `± mantissa · 2 ^ exponent`. -/
structure Finite where
  negative : Bool
  mantissa : Nat
  exponent : Int
  canonical : Canonical mantissa exponent
deriving DecidableEq

end Binary64

/-- A number of 64 bits: finite, infinite of either sign, or not a number. -/
inductive Binary64 where
  | finite (x : Binary64.Finite)
  | infinite (negative : Bool)
  | nan
deriving DecidableEq

namespace Binary64

/-- The quotient `n / d` rounded to the nearest natural number, a half going to the even one. -/
def roundQuotient (n d : Nat) : Nat :=
  let q := n / d
  let twice := 2 * (n % d)
  if d < twice ∨ (d = twice ∧ q % 2 = 1) then q + 1 else q

/-- The numerator and denominator of `n / d` counted in units of `2 ^ e`. -/
def inUnits (n d : Nat) (e : Int) : Nat × Nat :=
  (n <<< (-e).toNat, d <<< e.toNat)

/-- The exponent of the units in which `n / d` is counted: the least one, from `-1074` on, that
leaves fewer than 53 bits before the point. -/
def unitExponent (n d : Nat) : Int :=
  let near : Int := (n.log2 : Int) - d.log2 - 53
  let guess := if near < -1074 then -1074 else near
  let (n', d') := inUnits n d guess
  if n' / d' < mantissaBound then guess else guess + 1

namespace Finite

/-- Zero of the given sign. -/
def zero (negative : Bool) : Finite := ⟨negative, 0, -1074, by decide⟩

/-- The number with this mantissa and exponent; a mantissa of 54 bits, which rounding up can give,
carries into the exponent. Nothing when the number is too large. -/
def ofRounded (negative : Bool) (mantissa : Nat) (exponent : Int) : Option Finite :=
  if h : Canonical mantissa exponent then some ⟨negative, mantissa, exponent, h⟩
  else if h : mantissa = mantissaBound ∧ Canonical fullMantissa (exponent + 1) then
    some ⟨negative, fullMantissa, exponent + 1, h.2⟩
  else none

/-- The nearest number to `± n / d`, and nothing when that is beyond the largest. -/
def ofQuotient (negative : Bool) (n d : Nat) : Option Finite :=
  if n = 0 then some (zero negative)
  else
    let e := unitExponent n d
    let (n', d') := inUnits n d e
    ofRounded negative (roundQuotient n' d') e

/-- The nearest number to `± d`. Powers of ten that are out of reach either way are settled by the
magnitude alone, before any power is computed. -/
def ofNormalDecimal (negative : Bool) (d : Decimal) : Option Finite :=
  if d.significand = 0 then some (zero negative)
  else if 310 ≤ d.magnitude then none
  else if d.magnitude ≤ -326 then some (zero negative)
  else
    ofQuotient negative (d.significand * Decimal.tenTo d.exponent.toNat)
      (Decimal.tenTo (-d.exponent).toNat)

/-- The nearest number to `± d`, whatever the spelling of `d`. -/
def ofDecimal (negative : Bool) (d : Decimal) : Option Finite :=
  ofNormalDecimal negative d.normal

/-- The magnitude `m · 2 ^ e` as a quotient of natural numbers. -/
def quotient (x : Finite) : Nat × Nat :=
  (x.mantissa <<< x.exponent.toNat, 1 <<< (-x.exponent).toNat)

/-- Whether the number is one of the two zeros. -/
def isZero (x : Finite) : Bool := x.mantissa == 0

/-- Equality of the numbers: the two zeros are the same number. -/
def same (x y : Finite) : Bool := x == y || (x.isZero && y.isZero)

theorem same_refl (x : Finite) : x.same x = true := by simp [same]

/-- A number depends on its decimal's value only. -/
theorem ofDecimal_mul_ten (negative : Bool) (s : Nat) (e : Int) :
    ofDecimal negative ⟨s * 10, e⟩ = ofDecimal negative ⟨s, e + 1⟩ := by
  rw [ofDecimal, ofDecimal, Decimal.normal_mul_ten]

end Finite

/-- A rounded number, infinite where the finite ones do not reach. -/
def orInfinite (negative : Bool) : Option Finite → Binary64
  | some x => .finite x
  | none => .infinite negative

/-- The nearest number to `± d`. -/
def ofDecimal (negative : Bool) (d : Decimal) : Binary64 :=
  orInfinite negative (Finite.ofDecimal negative d)

/-- The nearest number to an integer. -/
def ofInt (n : Int) : Binary64 :=
  orInfinite (n < 0) (Finite.ofQuotient (n < 0) n.natAbs 1)

/-- Equality of the numbers: the two zeros are the same, and `nan` differs from itself. -/
def same : Binary64 → Binary64 → Bool
  | .finite x, .finite y => x.same y
  | .infinite a, .infinite b => a == b
  | _, _ => false

end Binary64

end Larder
