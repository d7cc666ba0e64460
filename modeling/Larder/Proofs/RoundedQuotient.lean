import Mathlib
import Larder.Number.Binary64

/-!
# Quotients that are rounded

A quotient is rounded in the units in which it has 53 bits before the point, or in the least units
(`Units`). There is one such unit for each quotient, so its rounding depends on what it is worth and
on nothing else (`Finite.ofQuotient_congr`), and a quotient that is worth just what a number is worth
is rounded to that number: counted in its units it is the number's own mantissa, and nothing is left
to round (`Finite.ofQuotient_of_worth`).
-/

namespace Larder

/-- What the magnitude of a number is worth. -/
def Binary64.Finite.worth (x : Finite) : ℚ := x.mantissa * 2 ^ x.exponent

namespace Binary64

/-! ## Units -/

/-- Counted in units of `2 ^ e`. -/
theorem inUnits_ratio (n d : Nat) (e : Int) :
    ((inUnits n d e).1 : ℚ) / (inUnits n d e).2 = (n : ℚ) / d / 2 ^ e := by
  unfold inUnits
  dsimp only
  rw [Nat.shiftLeft_eq, Nat.shiftLeft_eq]
  push_cast
  rcases le_total 0 e with he | he
  · obtain ⟨k, rfl⟩ := Int.eq_ofNat_of_zero_le he
    have hk : (-(k : Int)).toNat = 0 := by omega
    rw [hk, Int.toNat_natCast, pow_zero, mul_one, zpow_natCast, div_div]
  · obtain ⟨k, hk⟩ : ∃ k : Nat, e = -(k : Int) := ⟨(-e).toNat, by omega⟩
    have hk' : (-(k : Int)).toNat = 0 := by omega
    rw [hk, neg_neg, hk', Int.toNat_natCast, pow_zero, mul_one, zpow_neg, zpow_natCast,
      div_inv_eq_mul, div_mul_eq_mul_div]

theorem inUnits_pos {n d : Nat} (hd : 0 < d) (e : Int) : 0 < (inUnits n d e).2 := by
  unfold inUnits
  dsimp only
  rw [Nat.shiftLeft_eq]
  exact Nat.mul_pos hd (Nat.two_pow_pos _)

/-- Leading bits bound a quotient from both sides. -/
theorem quotient_bounds {n d : Nat} (hn : n ≠ 0) (hd : d ≠ 0) :
    (2 : ℚ) ^ ((n.log2 : Int) - d.log2 - 1) < (n : ℚ) / d ∧
      (n : ℚ) / d < 2 ^ ((n.log2 : Int) - d.log2 + 1) := by
  have hn1 : ((2 ^ n.log2 : Nat) : ℚ) ≤ n := by exact_mod_cast Nat.log2_self_le hn
  have hn2 : (n : ℚ) < (2 ^ (n.log2 + 1) : Nat) := by exact_mod_cast Nat.lt_log2_self
  have hd1 : ((2 ^ d.log2 : Nat) : ℚ) ≤ d := by exact_mod_cast Nat.log2_self_le hd
  have hd2 : (d : ℚ) < (2 ^ (d.log2 + 1) : Nat) := by exact_mod_cast Nat.lt_log2_self
  push_cast at hn1 hn2 hd1 hd2
  have hdpos : (0 : ℚ) < d := by exact_mod_cast Nat.pos_of_ne_zero hd
  constructor
  · rw [lt_div_iff₀ hdpos]
    calc (2 : ℚ) ^ ((n.log2 : Int) - d.log2 - 1) * d
        < 2 ^ ((n.log2 : Int) - d.log2 - 1) * 2 ^ (d.log2 + 1) :=
          mul_lt_mul_of_pos_left hd2 (by positivity)
      _ = 2 ^ n.log2 := by
          rw [← zpow_natCast, ← zpow_natCast, ← zpow_add₀ (by norm_num)]
          congr 1
          push_cast
          ring
      _ ≤ n := hn1
  · rw [div_lt_iff₀ hdpos]
    calc (n : ℚ) < 2 ^ (n.log2 + 1) := hn2
      _ = 2 ^ ((n.log2 : Int) - d.log2 + 1) * 2 ^ d.log2 := by
          rw [← zpow_natCast, ← zpow_natCast, ← zpow_add₀ (by norm_num)]
          congr 1
          push_cast
          ring
      _ ≤ 2 ^ ((n.log2 : Int) - d.log2 + 1) * d := mul_le_mul_of_nonneg_left hd1 (by positivity)

/-- Counted in units of `2 ^ e`, the quotient has fewer than 54 bits before the point, and just 53
unless the units are the least. -/
structure Units (q : ℚ) (e : Int) : Prop where
  least : -1074 ≤ e
  fits : q / 2 ^ e < 2 ^ 53
  full : e = -1074 ∨ 2 ^ 52 ≤ q / 2 ^ e

/-- In smaller units a quotient would have a bit too many. -/
theorem Units.le {q : ℚ} {e e' : Int} (h : Units q e) (h' : Units q e') : e' ≤ e := by
  by_contra hlt
  have hfull : 2 ^ 52 ≤ q / 2 ^ e' := h'.full.resolve_left (by have := h.least; omega)
  have hscale : (2 : ℚ) ≤ 2 ^ (e' - e) := by
    calc (2 : ℚ) = 2 ^ (1 : Int) := by norm_num
      _ ≤ 2 ^ (e' - e) := zpow_le_zpow_right₀ (by norm_num) (by omega)
  have hbits : (2 : ℚ) ^ 53 ≤ q / 2 ^ e := by
    calc (2 : ℚ) ^ 53 = 2 ^ 52 * 2 := by norm_num
      _ ≤ q / 2 ^ e' * 2 ^ (e' - e) := mul_le_mul hfull hscale (by norm_num) (by linarith)
      _ = q / 2 ^ e := by
          rw [zpow_sub₀ (by norm_num), div_mul_div_comm, mul_comm q, mul_div_mul_left _ _ (by positivity)]
  exact absurd h.fits (not_lt.mpr hbits)

/-- A quotient has one unit only. -/
theorem Units.unique {q : ℚ} {e e' : Int} (h : Units q e) (h' : Units q e') : e = e' :=
  le_antisymm (h'.le h) (h.le h')

/-- A quotient is counted in its units. -/
theorem unitExponent_spec {n d : Nat} (hn : n ≠ 0) (hd : d ≠ 0) :
    Units ((n : ℚ) / d) (unitExponent n d) := by
  obtain ⟨hlow, hhigh⟩ := quotient_bounds hn hd
  have hcount : ∀ e, (inUnits n d e).1 / (inUnits n d e).2 = ⌊(n : ℚ) / d / 2 ^ e⌋₊ := fun e => by
    rw [← inUnits_ratio, Nat.floor_div_eq_div]
  have hfits : ∀ e, (inUnits n d e).1 / (inUnits n d e).2 < mantissaBound ↔
      (n : ℚ) / d / 2 ^ e < 2 ^ 53 := fun e => by
    rw [hcount, Nat.floor_lt (by positivity)]
    norm_num [mantissaBound]
  unfold unitExponent
  dsimp only
  simp only [hfits]
  generalize (n : ℚ) / d = q at hlow hhigh
  generalize hnear : (n.log2 : Int) - d.log2 - 53 = near
  rw [show (n.log2 : Int) - d.log2 - 1 = 52 + near by omega, zpow_add₀ (by norm_num)] at hlow
  rw [show (n.log2 : Int) - d.log2 + 1 = 54 + near by omega, zpow_add₀ (by norm_num)] at hhigh
  have hunit : (0 : ℚ) < 2 ^ near := by positivity
  by_cases hleast : near < -1074
  · -- even in the least units few bits are left before the point
    have hfit : q / 2 ^ (-1074 : Int) < 2 ^ 53 := by
      rw [div_lt_iff₀ (by positivity)]
      calc q < 2 ^ (54 : Int) * 2 ^ near := hhigh
        _ = 2 ^ 53 * 2 ^ (near + 1) := by rw [zpow_add_one₀ (by norm_num)]; norm_num; ring
        _ ≤ 2 ^ 53 * 2 ^ (-1074 : Int) := by
            refine mul_le_mul_of_nonneg_left (zpow_le_zpow_right₀ (by norm_num) (by omega)) ?_
            positivity
    rw [if_pos hleast, if_pos hfit]
    exact ⟨le_rfl, hfit, Or.inl rfl⟩
  · rw [if_neg hleast]
    by_cases hfit : q / 2 ^ near < 2 ^ 53
    · rw [if_pos hfit]
      refine ⟨by omega, hfit, Or.inr ?_⟩
      rw [le_div_iff₀ hunit]
      exact_mod_cast hlow.le
    · -- a bit too many: the next units
      rw [if_neg hfit]
      rw [not_lt, le_div_iff₀ hunit] at hfit
      refine ⟨by omega, ?_, Or.inr ?_⟩ <;> rw [zpow_add_one₀ (by norm_num)]
      · rw [div_lt_iff₀ (by positivity)]
        calc q < 2 ^ (54 : Int) * 2 ^ near := hhigh
          _ = 2 ^ 53 * (2 ^ near * 2) := by norm_num; ring
      · rw [le_div_iff₀ (by positivity)]
        calc (2 : ℚ) ^ 52 * (2 ^ near * 2) = 2 ^ 53 * 2 ^ near := by ring
          _ ≤ q := hfit

/-! ### What a mantissa is worth -/

namespace Finite

theorem worth_eq_zero_iff {x : Finite} : x.worth = 0 ↔ x.mantissa = 0 := by
  unfold worth
  rw [mul_eq_zero, or_iff_left (by positivity), Nat.cast_eq_zero]

/-- A number is worth its quotient. -/
theorem worth_quotient (x : Finite) : (x.quotient.1 : ℚ) / x.quotient.2 = x.worth := by
  have hunits : x.quotient = inUnits x.mantissa 1 (-x.exponent) := by
    unfold quotient inUnits
    rw [neg_neg]
  rw [hunits, inUnits_ratio, Nat.cast_one, div_one, zpow_neg, div_inv_eq_mul, worth]

theorem quotient_ne_zero (x : Finite) : x.quotient.2 ≠ 0 := by
  unfold quotient
  dsimp only
  rw [Nat.one_shiftLeft]
  exact (Nat.two_pow_pos _).ne'

theorem mantissa_lt (x : Finite) : (x.mantissa : ℚ) < 2 ^ 53 := by
  have h : (x.mantissa : ℚ) < (mantissaBound : Nat) := by exact_mod_cast x.canonical.1
  norm_num [mantissaBound] at h ⊢
  exact h

/-- The mantissa is full unless the units are the least. -/
theorem le_mantissa {x : Finite} (h : x.exponent ≠ -1074) : (2 : ℚ) ^ 52 ≤ x.mantissa := by
  obtain ⟨-, -, -, hfull⟩ := x.canonical
  have hle : ((fullMantissa : Nat) : ℚ) ≤ x.mantissa := by exact_mod_cast hfull.resolve_right h
  norm_num [fullMantissa] at hle ⊢
  exact hle

/-- A number is counted in the units of its worth. -/
theorem units (x : Finite) : Units x.worth x.exponent := by
  have hcount : x.worth / 2 ^ x.exponent = x.mantissa := by
    rw [worth, mul_div_assoc, div_self (by positivity), mul_one]
  refine ⟨x.canonical.2.1, ?_, ?_⟩
  · rw [hcount]
    exact x.mantissa_lt
  · rw [hcount]
    exact or_iff_not_imp_left.mpr le_mantissa

end Finite

/-! ## Rounding -/

/-- A common factor does not count. -/
theorem roundQuotient_mul_right {c : Nat} (hc : 0 < c) (n d : Nat) :
    roundQuotient (n * c) (d * c) = roundQuotient n d := by
  unfold roundQuotient
  simp only [Nat.mul_div_mul_right n d hc, Nat.mul_mod_mul_right, ← Nat.mul_assoc,
    Nat.mul_lt_mul_right hc, Nat.mul_left_inj hc.ne']

/-- The rounding of a quotient depends on its worth only. -/
theorem roundQuotient_congr {n d n' d' : Nat} (hd : 0 < d) (hd' : 0 < d')
    (h : (n : ℚ) / d = n' / d') : roundQuotient n d = roundQuotient n' d' := by
  have hcross : n * d' = n' * d := by
    have hd0 : (d : ℚ) ≠ 0 := by exact_mod_cast hd.ne'
    have hd0' : (d' : ℚ) ≠ 0 := by exact_mod_cast hd'.ne'
    exact_mod_cast (div_eq_div_iff hd0 hd0').mp h
  rw [← roundQuotient_mul_right hd' n d, hcross, Nat.mul_comm d, roundQuotient_mul_right hd]

theorem roundQuotient_mul {d : Nat} (hd : 0 < d) (m : Nat) : roundQuotient (m * d) d = m := by
  unfold roundQuotient
  dsimp only
  rw [Nat.mul_mod_left, Nat.mul_div_cancel m hd, if_neg (by omega)]

namespace Finite

theorem eq_zero_of_mantissa {x : Finite} (h : x.mantissa = 0) : x = zero x.negative := by
  have hexponent : x.exponent = -1074 := by
    obtain ⟨-, -, -, hfull⟩ := x.canonical
    rw [h] at hfull
    exact hfull.resolve_left (by decide)
  obtain ⟨negative, mantissa, exponent, hcanonical⟩ := x
  cases h
  cases hexponent
  rfl

/-- **The number a quotient is rounded to depends on its worth only.** -/
theorem ofQuotient_congr {n d n' d' : Nat} (hd : d ≠ 0) (hd' : d' ≠ 0)
    (h : (n : ℚ) / d = n' / d') (negative : Bool) :
    ofQuotient negative n d = ofQuotient negative n' d' := by
  have hzero : n = 0 ↔ n' = 0 := by
    have hcount : (n : ℚ) / d = 0 ↔ (n' : ℚ) / d' = 0 := by rw [h]
    simpa [hd, hd'] using hcount
  unfold ofQuotient
  by_cases hn : n = 0
  · rw [if_pos hn, if_pos (hzero.mp hn)]
  · have hn' : n' ≠ 0 := fun h0 => hn (hzero.mpr h0)
    have hunits : unitExponent n d = unitExponent n' d' :=
      (unitExponent_spec hn hd).unique (h ▸ unitExponent_spec hn' hd')
    rw [if_neg hn, if_neg hn', hunits]
    dsimp only
    have hcount : ((inUnits n d (unitExponent n' d')).1 : ℚ) / (inUnits n d (unitExponent n' d')).2 =
        (inUnits n' d' (unitExponent n' d')).1 / (inUnits n' d' (unitExponent n' d')).2 := by
      rw [inUnits_ratio, inUnits_ratio, h]
    rw [roundQuotient_congr (inUnits_pos (Nat.pos_of_ne_zero hd) _)
      (inUnits_pos (Nat.pos_of_ne_zero hd') _) hcount]

/-- **A quotient that is worth what a number is worth is rounded to the number.** -/
theorem ofQuotient_of_worth {x : Finite} {n d : Nat} (hd : d ≠ 0) (h : (n : ℚ) / d = x.worth) :
    ofQuotient x.negative n d = some x := by
  unfold ofQuotient
  by_cases hx : x.mantissa = 0
  · have hn : n = 0 := by
      rw [worth_eq_zero_iff.mpr hx, div_eq_zero_iff, Nat.cast_eq_zero, Nat.cast_eq_zero] at h
      exact h.resolve_right hd
    rw [if_pos hn, ← eq_zero_of_mantissa hx]
  · have hn : n ≠ 0 := by
      rintro rfl
      exact hx (worth_eq_zero_iff.mp (by rw [← h]; simp))
    rw [if_neg hn]
    dsimp only
    have hunits : unitExponent n d = x.exponent :=
      (unitExponent_spec hn hd).unique (h ▸ x.units)
    rw [hunits]
    have hpos := inUnits_pos (n := n) (Nat.pos_of_ne_zero hd) x.exponent
    have hratio : ((inUnits n d x.exponent).1 : ℚ) / (inUnits n d x.exponent).2 = x.mantissa := by
      rw [inUnits_ratio, h, worth, mul_div_assoc, div_self (by positivity), mul_one]
    have hexact : (inUnits n d x.exponent).1 = x.mantissa * (inUnits n d x.exponent).2 := by
      have : ((inUnits n d x.exponent).2 : ℚ) ≠ 0 := by exact_mod_cast hpos.ne'
      rw [div_eq_iff this] at hratio
      exact_mod_cast hratio
    rw [hexact, roundQuotient_mul hpos, ofRounded, dif_pos x.canonical]

end Finite

end Binary64

end Larder
