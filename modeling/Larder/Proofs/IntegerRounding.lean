import Mathlib
import Larder.Json.Basic

/-!
# Integers as floating point numbers

An integer of a document may be read as a floating point number, which is then the nearest one.
There always is a finite one: the mantissa of an integer whose leading bit is bit `k` is counted in
units of `2 ^ (k - 52)` (`unitExponent_one`), where it has its full 53 bits, and rounding it up can
give one bit more, which is carried into the exponent (`exists_ofRounded`). Integers that 64 bits
hold are far below the largest finite number.
-/

namespace Larder

namespace Binary64

/-- Counted in units that leave `k` bits after the leading one, a number has `k + 1` bits before
the point. -/
theorem inUnits_bounds {n : Nat} (hn : n ≠ 0) {k : Nat} {e : Int} (he : e = n.log2 - k) :
    2 ^ k ≤ (inUnits n 1 e).1 / (inUnits n 1 e).2 ∧
      (inUnits n 1 e).1 / (inUnits n 1 e).2 < 2 ^ (k + 1) := by
  have hlow : 2 ^ n.log2 ≤ n := Nat.log2_self_le hn
  have hhigh : n < 2 ^ (n.log2 + 1) := Nat.lt_log2_self
  unfold inUnits
  dsimp only
  rw [Nat.shiftLeft_eq, Nat.shiftLeft_eq, Nat.one_mul]
  by_cases hk : k ≤ n.log2
  · -- large units: the number is divided
    obtain ⟨j, hj⟩ := Nat.exists_eq_add_of_le hk
    have hneg : (-e).toNat = 0 := by omega
    have hpos : e.toNat = j := by omega
    rw [hj, Nat.pow_add] at hlow
    rw [hj, show k + j + 1 = k + 1 + j by omega, Nat.pow_add] at hhigh
    rw [hneg, hpos, Nat.pow_zero, Nat.mul_one]
    have hunit : 0 < 2 ^ j := Nat.two_pow_pos j
    exact ⟨(Nat.le_div_iff_mul_le hunit).mpr hlow, (Nat.div_lt_iff_lt_mul hunit).mpr hhigh⟩
  · -- small units: the number is multiplied
    obtain ⟨j, hj⟩ := Nat.exists_eq_add_of_le (Nat.le_of_not_le hk)
    have hneg : (-e).toNat = j := by omega
    have hpos : e.toNat = 0 := by omega
    rw [hneg, hpos, Nat.pow_zero, Nat.div_one, hj, Nat.pow_add,
      show n.log2 + j + 1 = n.log2 + 1 + j by omega, Nat.pow_add]
    exact ⟨Nat.mul_le_mul_right _ hlow, Nat.mul_lt_mul_of_pos_right hhigh (Nat.two_pow_pos j)⟩

/-- The units of a whole number leave 52 bits after the leading one. -/
theorem unitExponent_one {n : Nat} (hn : n ≠ 0) : unitExponent n 1 = n.log2 - 52 := by
  have hone : Nat.log2 1 = 0 := by decide
  have hguess : (if (n.log2 : Int) - Nat.log2 1 - 53 < -1074 then -1074
      else (n.log2 : Int) - Nat.log2 1 - 53) = n.log2 - (53 : Nat) := by
    rw [hone, if_neg (by omega)]
    rfl
  obtain ⟨hlow, -⟩ := inUnits_bounds hn (k := 53) rfl
  unfold unitExponent
  dsimp only
  -- the first guess has a bit too many
  rw [hguess, if_neg (show ¬_ < mantissaBound from Nat.not_lt.mpr hlow)]
  push_cast
  omega

theorem le_roundQuotient (n d : Nat) : n / d ≤ roundQuotient n d := by
  unfold roundQuotient
  dsimp only
  split <;> omega

theorem roundQuotient_le (n d : Nat) : roundQuotient n d ≤ n / d + 1 := by
  unfold roundQuotient
  dsimp only
  split <;> omega

namespace Finite

/-- A mantissa of 53 bits, or the first of 54, makes a number if the exponent leaves room for a
carry. -/
theorem exists_ofRounded (negative : Bool) {mantissa : Nat} {exponent : Int}
    (hlow : fullMantissa ≤ mantissa) (hhigh : mantissa ≤ mantissaBound)
    (hleast : -1074 ≤ exponent) (hgreatest : exponent ≤ 970) :
    ∃ x, ofRounded negative mantissa exponent = some x := by
  unfold ofRounded
  by_cases hcarry : mantissa = mantissaBound
  · have hfull : Canonical fullMantissa (exponent + 1) :=
      ⟨by decide, by omega, by omega, Or.inl (Nat.le_refl _)⟩
    have hnot : ¬Canonical mantissa exponent := fun h => Nat.lt_irrefl _ (hcarry ▸ h.1)
    rw [dif_neg hnot, dif_pos ⟨hcarry, hfull⟩]
    exact ⟨_, rfl⟩
  · have h : Canonical mantissa exponent :=
      ⟨Nat.lt_of_le_of_ne hhigh hcarry, hleast, by omega, Or.inl hlow⟩
    rw [dif_pos h]
    exact ⟨_, rfl⟩

/-- A whole number below `2 ^ 1023` has a nearest finite number. -/
theorem exists_ofQuotient_one (negative : Bool) {n : Nat} (h : n.log2 ≤ 1022) :
    ∃ x, ofQuotient negative n 1 = some x := by
  unfold ofQuotient
  by_cases hn : n = 0
  · rw [if_pos hn]
    exact ⟨_, rfl⟩
  · rw [if_neg hn]
    dsimp only
    rw [unitExponent_one hn]
    obtain ⟨hlow, hhigh⟩ := inUnits_bounds hn (k := 52) rfl
    refine exists_ofRounded negative ?_ ?_ (by omega) (by omega)
    · exact Nat.le_trans hlow (le_roundQuotient _ _)
    · exact Nat.le_trans (roundQuotient_le _ _) hhigh

end Finite

end Binary64

/-- The leading bit of an integer is one of its 64 bits. -/
theorem Integer.log2_lt (n : Integer) : n.value.natAbs.log2 < 64 := by
  have hrange := n.inRange
  by_cases hn : n.value.natAbs = 0
  · rw [hn]
    decide
  · exact (Nat.log2_lt hn).mpr (by omega)

/-- **Every integer of a document has a nearest finite number.** -/
theorem Integer.exists_ofInt (n : Integer) : ∃ x, Binary64.ofInt n.value = .finite x := by
  have hbound : n.value.natAbs.log2 ≤ 1022 := by
    have := n.log2_lt
    omega
  obtain ⟨x, hx⟩ := Binary64.Finite.exists_ofQuotient_one (decide (n.value < 0)) hbound
  refine ⟨x, ?_⟩
  unfold Binary64.ofInt
  rw [hx]
  rfl

/-- A number of a document is read as a finite floating point number. -/
theorem Number.exists_toBinary64 (n : Number) : ∃ x, n.toBinary64 = .finite x := by
  cases n with
  | integer n => exact n.exists_ofInt
  | float x => exact ⟨x, rfl⟩

end Larder
