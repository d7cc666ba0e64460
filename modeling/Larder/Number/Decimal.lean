/-!
# Decimal numbers

A non-negative decimal number is a significand and a power of ten. Two spellings of one number
(`15 · 10⁻¹` and `150 · 10⁻²`) have one normal form, in which the significand does not end in a
zero digit. Everything that depends on a decimal's value alone is computed from its normal form.
-/

namespace Larder

/-- The number `significand · 10 ^ exponent`. -/
structure Decimal where
  significand : Nat
  exponent : Int
deriving DecidableEq

namespace Decimal

/-- A power of ten. -/
def tenTo (k : Nat) : Nat := Nat.pow 10 k

/-- Moves the zeros at the end of the significand into the exponent; zero itself is `0 · 10⁰`. -/
def trim (significand : Nat) (exponent : Int) : Decimal :=
  if significand = 0 then ⟨0, 0⟩
  else if significand % 10 = 0 then trim (significand / 10) (exponent + 1)
  else ⟨significand, exponent⟩
termination_by significand
decreasing_by omega

/-- The one spelling of a number whose significand does not end in zero. -/
def normal (d : Decimal) : Decimal := trim d.significand d.exponent

/-- The digits of the significand, most significant first. -/
def digits (d : Decimal) : List Char := Nat.toDigits 10 d.significand

/-- The power of ten of the first digit, so that the number is `d.ddd · 10 ^ magnitude`. -/
def magnitude (d : Decimal) : Int := d.exponent + d.digits.length - 1

theorem trim_mul_ten {s : Nat} (h : s ≠ 0) (e : Int) : trim (s * 10) e = trim s (e + 1) := by
  rw [trim, if_neg (by omega), if_pos (by omega), Nat.mul_div_cancel s (by decide)]

/-- A zero digit at the end of the significand changes the spelling only. -/
theorem normal_mul_ten (s : Nat) (e : Int) : normal ⟨s * 10, e⟩ = normal ⟨s, e + 1⟩ := by
  by_cases h : s = 0
  · subst h; simp [normal, trim]
  · exact trim_mul_ten h e

end Decimal

end Larder
