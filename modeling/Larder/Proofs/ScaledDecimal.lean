import Larder.Number.Scaling
import Larder.Proofs.ExactDecimal

/-!
# Decimals that scaling rounds once

Scaling rounds a significand, a power of ten and the product or quotient of the two. A significand
below `2 ^ 53` is a number itself (`Finite.ofQuotient_whole`), and so is a power of ten up to `10²²`
(`Finite.tenTo?_small`): its factor `5²²` is below `2 ^ 53`. Where both are, only the last step rounds,
and scaling comes to the nearest number (`Finite.ofScaled_eq_ofDecimal`).
-/

namespace Larder.Binary64.Finite

/-! ## Numbers of few bits -/

/-- A mantissa of 53 bits, or fewer, makes a number in all units but extreme ones. -/
theorem exists_worth (negative : Bool) {m : Nat} (hm : m < 2 ^ 53) {e : Int} (hlow : -1000 ≤ e)
    (hhigh : e ≤ 900) : ∃ x : Finite, x.negative = negative ∧ x.worth = m * 2 ^ e := by
  by_cases hzero : m = 0
  · refine ⟨zero negative, rfl, ?_⟩
    rw [hzero, worth_eq_zero_iff.mpr rfl, Nat.cast_zero, zero_mul]
  · -- the mantissa is moved up until its leading bit is the 53rd
    have hbit : m.log2 < 53 := (Nat.log2_lt hzero).mpr hm
    obtain ⟨k, hk⟩ : ∃ k, m.log2 + k = 52 := ⟨52 - m.log2, by omega⟩
    have hfull : fullMantissa ≤ m * 2 ^ k := by
      calc fullMantissa = 2 ^ m.log2 * 2 ^ k := by rw [← Nat.pow_add, hk]; rfl
        _ ≤ m * 2 ^ k := Nat.mul_le_mul_right _ (Nat.log2_self_le hzero)
    have hbound : m * 2 ^ k < mantissaBound := by
      calc m * 2 ^ k < 2 ^ (m.log2 + 1) * 2 ^ k :=
            Nat.mul_lt_mul_of_pos_right Nat.lt_log2_self (Nat.two_pow_pos k)
        _ = mantissaBound := by rw [← Nat.pow_add, show m.log2 + 1 + k = 53 by omega]; rfl
    refine ⟨⟨negative, m * 2 ^ k, e - k, hbound, by omega, by omega, Or.inl hfull⟩, rfl, ?_⟩
    rw [worth, zpow_sub₀ (by norm_num), zpow_natCast]
    push_cast
    field_simp

/-- A whole number of 53 bits, or fewer, is rounded to itself. -/
theorem ofQuotient_whole (negative : Bool) {m : Nat} (hm : m < 2 ^ 53) :
    ∃ x, ofQuotient negative m 1 = some x ∧ x.negative = negative ∧ x.worth = m := by
  obtain ⟨x, rfl, hworth⟩ := exists_worth negative hm (e := 0) (by omega) (by omega)
  rw [zpow_zero, mul_one] at hworth
  refine ⟨x, ofQuotient_of_worth one_ne_zero ?_, rfl, hworth⟩
  rw [hworth, Nat.cast_one, div_one]

/-- The powers of ten up to `10²²` are numbers. -/
theorem tenTo?_small {k : Nat} (hk : k ≤ 22) :
    ∃ x, tenTo? k = some x ∧ x.negative = false ∧ x.worth = 10 ^ k := by
  -- `10 ^ k` is `5 ^ k` counted in units of `2 ^ k`
  have hfive : 5 ^ k < 2 ^ 53 := by
    calc 5 ^ k ≤ 5 ^ 22 := Nat.pow_le_pow_right (by decide) hk
      _ < 2 ^ 53 := by decide
  obtain ⟨x, hx, hworth⟩ := exists_worth false hfive (e := k) (by omega) (by omega)
  have hten : x.worth = 10 ^ k := by
    rw [hworth, zpow_natCast, Nat.cast_pow, ← mul_pow]
    norm_num
  refine ⟨x, ?_, hx, hten⟩
  rw [tenTo?, ← hx]
  refine ofQuotient_of_worth one_ne_zero ?_
  rw [hten, Decimal.tenTo_cast, Nat.cast_one, div_one]

/-! ## Products and quotients -/

variable {x y : Finite} {n m : Nat}

/-- A product is rounded like any quotient that is worth as much. -/
theorem mul?_eq (hm : m ≠ 0) (h : (n : ℚ) / m = x.worth * y.worth) :
    x.mul? y = ofQuotient (x.negative != y.negative) n m := by
  refine ofQuotient_congr (Nat.mul_ne_zero x.quotient_ne_zero y.quotient_ne_zero) hm ?_ _
  rw [h, Nat.cast_mul, Nat.cast_mul, mul_div_mul_comm, x.worth_quotient, y.worth_quotient]

/-- So is a quotient of numbers. -/
theorem div?_eq (hy : y.mantissa ≠ 0) (hm : m ≠ 0) (h : (n : ℚ) / m = x.worth / y.worth) :
    x.div? y = ofQuotient (x.negative != y.negative) n m := by
  have hnumerator : y.quotient.1 ≠ 0 := by
    intro hzero
    have hworth := y.worth_quotient
    rw [hzero, Nat.cast_zero, zero_div] at hworth
    exact hy (worth_eq_zero_iff.mp hworth.symm)
  refine ofQuotient_congr (Nat.mul_ne_zero x.quotient_ne_zero hnumerator) hm ?_ _
  rw [h, ← x.worth_quotient, ← y.worth_quotient, Nat.cast_mul, Nat.cast_mul, div_div_div_eq]

/-! ## Scaling -/

/-- Scaling rounds once if the significand and the power of ten are numbers themselves. -/
theorem ofScaled_eq_ofQuotient {d : Decimal} (hs : d.significand < 2 ^ 53)
    (he : d.exponent.natAbs ≤ 22) (hm : m ≠ 0) (h : (n : ℚ) / m = d.worth) (negative : Bool) :
    ofScaled negative d = ofQuotient negative n m := by
  obtain ⟨x, hx, rfl, hworth⟩ := ofQuotient_whole negative hs
  unfold ofScaled scale?
  rw [hx, Option.bind_some]
  by_cases hsign : 0 ≤ d.exponent
  · obtain ⟨k, hk⟩ := Int.eq_ofNat_of_zero_le hsign
    obtain ⟨power, hpower, hpositive, hten⟩ := tenTo?_small (k := k) (by omega)
    have hreach : d.exponent ≤ greatestPower := by
      unfold greatestPower
      omega
    rw [if_pos hsign, if_pos hreach, hk, Int.toNat_natCast, hpower, Option.bind_some,
      mul?_eq hm (by rw [h, Decimal.worth, hworth, hten, hk, zpow_natCast]), hpositive,
      Bool.bne_false]
  · obtain ⟨k, hk⟩ : ∃ k : Nat, d.exponent = -((k + 1 : Nat) : Int) :=
      ⟨(-d.exponent).toNat - 1, by omega⟩
    obtain ⟨power, hpower, hpositive, hten⟩ := tenTo?_small (k := k + 1) (by omega)
    -- the power is in reach, so nothing is divided by the greatest power before
    have hcount : (-d.exponent).toNat - 1 = k := by omega
    have hsmall : k < greatestPower := by
      unfold greatestPower
      omega
    have hpowerzero : power.mantissa ≠ 0 := by
      rw [Ne, ← worth_eq_zero_iff, hten]
      positivity
    rw [if_neg hsign]
    dsimp only
    rw [hcount, Nat.div_eq_of_lt hsmall, Nat.mod_eq_of_lt hsmall, sink?, Option.bind_some, hpower,
      Option.bind_some, div?_eq hpowerzero hm ?_, hpositive, Bool.bne_false]
    rw [h, Decimal.worth, hworth, hten, hk, zpow_neg, zpow_natCast, div_eq_mul_inv]

/-- **Scaling comes to the nearest number** if the significand is below `2 ^ 53` and the power of ten
is one of the first on either side. -/
theorem ofScaled_eq_ofDecimal {d : Decimal} (hs : d.significand < 2 ^ 53)
    (he : d.exponent.natAbs ≤ 22) (negative : Bool) :
    ofScaled negative d = ofDecimal negative d := by
  by_cases hzero : d.significand = 0
  · have hworth : ((0 : Nat) : ℚ) / (1 : Nat) = d.worth := by
      rw [Decimal.worth, hzero, Nat.cast_zero, zero_mul, zero_div]
    obtain ⟨s, e⟩ := d
    obtain rfl : s = 0 := hzero
    rw [ofScaled_eq_ofQuotient hs he one_ne_zero hworth, ofDecimal_zero]
    rfl
  · -- the decimal as a quotient of whole numbers
    have hworth : ((d.significand * 10 ^ d.exponent.toNat : Nat) : ℚ) /
        ((10 ^ (-d.exponent).toNat : Nat)) = d.worth := by
      push_cast
      rw [Decimal.worth, mul_div_assoc, ← zpow_natCast, ← zpow_natCast, ← zpow_sub₀ (by norm_num)]
      congr 2
      omega
    have hm : 10 ^ (-d.exponent).toNat ≠ 0 := by positivity
    have hone : (1 : ℚ) ≤ d.significand := by exact_mod_cast Nat.one_le_iff_ne_zero.mpr hzero
    have hbound : (d.significand : ℚ) < 10 ^ (16 : Int) := by
      calc (d.significand : ℚ) < (2 ^ 53 : Nat) := by exact_mod_cast hs
        _ < 10 ^ (16 : Int) := by norm_num
    rw [ofScaled_eq_ofQuotient hs he hm hworth, ofDecimal_eq_ofQuotient ?_ ?_ hm hworth]
    · calc (10 : ℚ) ^ (-325 : Int) < 10 ^ d.exponent :=
            zpow_lt_zpow_right₀ (by norm_num) (by omega)
        _ ≤ d.worth := le_mul_of_one_le_left (by positivity) hone
    · calc d.worth < 10 ^ (16 : Int) * 10 ^ d.exponent :=
            mul_lt_mul_of_pos_right hbound (by positivity)
        _ = 10 ^ (16 + d.exponent) := (zpow_add₀ (by norm_num) _ _).symm
        _ ≤ 10 ^ (310 : Int) := zpow_le_zpow_right₀ (by norm_num) (by omega)

end Larder.Binary64.Finite
