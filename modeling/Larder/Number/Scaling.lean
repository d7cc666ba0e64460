import Larder.Number.Binary64

/-!
# Numbers scaled by powers of ten

A decimal can be read as a number in steps, each of which is rounded: the significand is rounded to
a number, the power of ten is another, and the one is multiplied or divided by the other. The result
is near the decimal, but it need not be the nearest number to it, which is `ofDecimal`: of
`1 · 10⁻²³` it is the next one.
-/

namespace Larder.Binary64.Finite

/-- The product of two numbers, and nothing when that is beyond the largest. -/
def mul? (x y : Finite) : Option Finite :=
  ofQuotient (x.negative != y.negative) (x.quotient.1 * y.quotient.1)
    (x.quotient.2 * y.quotient.2)

/-- The quotient of two numbers, of which the second is not zero. -/
def div? (x y : Finite) : Option Finite :=
  ofQuotient (x.negative != y.negative) (x.quotient.1 * y.quotient.2)
    (x.quotient.2 * y.quotient.1)

/-- A power of ten as a number. -/
def tenTo? (k : Nat) : Option Finite := ofQuotient false (Decimal.tenTo k) 1

/-- The greatest power of ten that is a number. -/
def greatestPower : Nat := 308

/-- Divides by the greatest power of ten so many times, while anything is left. -/
def sink? : Nat → Finite → Option Finite
  | 0, x => some x
  | k + 1, x =>
    if x.isZero then some x
    else (tenTo? greatestPower).bind fun power => (x.div? power).bind (sink? k)

/-- The number times `10 ^ e`. Up to the greatest power that is one multiplication, beyond it only
zero can be scaled. Down from one it is one division, after as many by the greatest power as it takes
until the rest is in reach. -/
def scale? (x : Finite) (e : Int) : Option Finite :=
  if 0 ≤ e then
    if e ≤ greatestPower then (tenTo? e.toNat).bind x.mul?
    else if x.isZero then some x else none
  else
    let k := (-e).toNat - 1
    (sink? (k / greatestPower) x).bind fun y =>
      (tenTo? (k % greatestPower + 1)).bind y.div?

/-- What the significand of `± d` is scaled to, and nothing when that is beyond the largest. -/
def ofScaled (negative : Bool) (d : Decimal) : Option Finite :=
  (ofQuotient negative d.significand 1).bind fun x => x.scale? d.exponent

end Larder.Binary64.Finite
