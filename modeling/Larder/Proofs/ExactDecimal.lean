import Larder.Number.Notation
import Larder.Proofs.RoundedQuotient

/-!
# Decimals that are read back

A decimal is rounded like any quotient of its worth (`Finite.ofDecimal_eq_ofQuotient`), and one that
is worth just what a number is worth is rounded to that number (`Finite.ofDecimal_of_worth`). Every
finite number has such a decimal, its exact expansion, so the shortest decimal, which is searched
among those that read back and is the exact one if the search finds none, reads back as well
(`Finite.ofDecimal_shortest`).
-/

namespace Larder

/-- What a decimal is worth. -/
def Decimal.worth (d : Decimal) : ℚ := d.significand * 10 ^ d.exponent

namespace Decimal

theorem tenTo_cast (k : Nat) : (tenTo k : ℚ) = 10 ^ k := by
  show ((10 ^ k : Nat) : ℚ) = 10 ^ k
  push_cast
  rfl

theorem tenTo_ne_zero (k : Nat) : tenTo k ≠ 0 := (Nat.pow_pos (by decide)).ne'

/-! ## Normal forms -/

theorem worth_trim (s : Nat) (e : Int) : (trim s e).worth = s * 10 ^ e := by
  induction s using Nat.strongRecOn generalizing e with
  | ind s ih =>
    unfold trim
    split
    · rename_i hs
      subst hs
      simp [worth]
    · split
      · rename_i hs hten
        obtain ⟨k, rfl⟩ := Nat.dvd_of_mod_eq_zero hten
        rw [Nat.mul_div_cancel_left k (by decide), ih k (by omega), zpow_add_one₀ (by norm_num)]
        push_cast
        ring
      · rfl

/-- A normal form is worth what the decimal is worth. -/
theorem worth_normal (d : Decimal) : d.normal.worth = d.worth := worth_trim _ _

theorem normal_trim (s : Nat) (e : Int) : (trim s e).normal = trim s e := by
  induction s using Nat.strongRecOn generalizing e with
  | ind s ih =>
    rw [trim]
    split
    · rw [normal, trim, if_pos rfl]
    · split
      · rename_i hs hten
        exact ih _ (by omega) _
      · rename_i hs hten
        rw [normal, trim, if_neg hs, if_neg hten]

theorem normal_normal (d : Decimal) : d.normal.normal = d.normal := normal_trim _ _

theorem trim_significand_eq_zero {s : Nat} {e : Int} :
    (trim s e).significand = 0 → trim s e = ⟨0, 0⟩ := by
  induction s using Nat.strongRecOn generalizing e with
  | ind s ih =>
    rw [trim]
    split
    · exact fun _ => rfl
    · split
      · rename_i hs hten
        exact ih _ (by omega)
      · rename_i hs hten
        exact fun h => absurd h hs

/-- Zero has one normal form. -/
theorem normal_eq_zero {d : Decimal} (h : d.normal.significand = 0) : d.normal = ⟨0, 0⟩ :=
  trim_significand_eq_zero h

/-! ## Magnitudes -/

/-- The first digit of a decimal stands at its magnitude. -/
theorem worth_bounds {d : Decimal} (h : d.significand ≠ 0) :
    (10 : ℚ) ^ d.magnitude ≤ d.worth ∧ d.worth < 10 ^ (d.magnitude + 1) := by
  have hpos : 0 < d.digits.length := Nat.length_toDigits_pos
  obtain ⟨k, hk⟩ : ∃ k, d.digits.length = k + 1 := ⟨d.digits.length - 1, by omega⟩
  have hmagnitude : d.magnitude = k + d.exponent := by
    unfold magnitude
    omega
  have hlow : 10 ^ k ≤ d.significand := by
    by_contra hlt
    by_cases hzero : k = 0
    · subst hzero
      omega
    · have hlength : d.digits.length ≤ k :=
        (Nat.length_toDigits_le_iff (by decide) (by omega)).mpr (by omega)
      omega
  have hhigh : d.significand < 10 ^ (k + 1) :=
    (Nat.length_toDigits_le_iff (by decide) (by omega)).mp (Nat.le_of_eq hk)
  have hunit : (0 : ℚ) < 10 ^ d.exponent := by positivity
  rw [hmagnitude, add_right_comm, zpow_add₀ (by norm_num), zpow_add₀ (by norm_num)]
  unfold worth
  constructor
  · refine mul_le_mul_of_nonneg_right ?_ hunit.le
    exact_mod_cast hlow
  · refine mul_lt_mul_of_pos_right ?_ hunit
    exact_mod_cast hhigh

end Decimal

namespace Binary64

namespace Finite

/-! ## Decimals -/

theorem worth_lt (x : Finite) : x.worth < 10 ^ (310 : Int) := by
  have hexponent : x.exponent ≤ 971 := x.canonical.2.2.1
  calc x.worth < 2 ^ 53 * 2 ^ x.exponent := mul_lt_mul_of_pos_right x.mantissa_lt (by positivity)
    _ ≤ 2 ^ 53 * 2 ^ (971 : Int) :=
        mul_le_mul_of_nonneg_left (zpow_le_zpow_right₀ (by norm_num) hexponent) (by positivity)
    _ = 2 ^ (1024 : Nat) := by
        rw [← zpow_natCast, ← zpow_natCast, ← zpow_add₀ (by norm_num)]
        rfl
    _ ≤ 10 ^ (310 : Nat) := by exact_mod_cast (by decide +kernel : 2 ^ 1024 ≤ 10 ^ 310)

theorem lt_worth {x : Finite} (h : x.mantissa ≠ 0) : (10 : ℚ) ^ (-325 : Int) < x.worth := by
  obtain ⟨-, hexponent, -, -⟩ := x.canonical
  have hmantissa : (1 : ℚ) ≤ x.mantissa := by exact_mod_cast Nat.one_le_iff_ne_zero.mpr h
  have hleast : (10 : ℚ) ^ (-325 : Int) < 2 ^ (-1074 : Int) := by
    rw [zpow_neg, zpow_neg]
    refine inv_strictAnti₀ (by positivity) ?_
    exact_mod_cast (by decide +kernel : 2 ^ 1074 < 10 ^ 325)
  calc (10 : ℚ) ^ (-325 : Int) < 1 * 2 ^ (-1074 : Int) := by rwa [one_mul]
    _ ≤ 1 * 2 ^ x.exponent :=
        mul_le_mul_of_nonneg_left (zpow_le_zpow_right₀ (by norm_num) hexponent) (by norm_num)
    _ ≤ x.worth := mul_le_mul_of_nonneg_right hmantissa (by positivity)

/-- **A decimal is rounded like any quotient of its worth**, if it is within reach. -/
theorem ofDecimal_eq_ofQuotient {d : Decimal} (hlow : (10 : ℚ) ^ (-325 : Int) < d.worth)
    (hhigh : d.worth < 10 ^ (310 : Int)) {n m : Nat} (hm : m ≠ 0) (h : (n : ℚ) / m = d.worth)
    (negative : Bool) : ofDecimal negative d = ofQuotient negative n m := by
  rw [← d.worth_normal] at hlow hhigh h
  unfold ofDecimal ofNormalDecimal
  generalize d.normal = d at hlow hhigh h
  have hpos : (0 : ℚ) < d.worth := lt_trans (by positivity) hlow
  have hd : d.significand ≠ 0 := by
    intro hzero
    rw [Decimal.worth, hzero, Nat.cast_zero, zero_mul] at hpos
    exact lt_irrefl _ hpos
  obtain ⟨hbelow, habove⟩ := Decimal.worth_bounds hd
  -- the magnitude is between those that are settled without a power
  have hless : d.magnitude < 310 :=
    (zpow_lt_zpow_iff_right₀ (by norm_num)).mp (hbelow.trans_lt hhigh)
  have hgreater : -325 < d.magnitude + 1 :=
    (zpow_lt_zpow_iff_right₀ (by norm_num)).mp (hlow.trans habove)
  rw [if_neg hd, if_neg (by omega), if_neg (by omega)]
  refine ofQuotient_congr (Decimal.tenTo_ne_zero _) hm ?_ negative
  rw [h, Decimal.worth, Nat.cast_mul, Decimal.tenTo_cast, Decimal.tenTo_cast, mul_div_assoc,
    ← zpow_natCast, ← zpow_natCast, ← zpow_sub₀ (by norm_num)]
  congr 2
  omega

theorem ofDecimal_zero (negative : Bool) (e : Int) :
    ofDecimal negative ⟨0, e⟩ = some (zero negative) := by
  rw [ofDecimal, Decimal.normal, Decimal.trim, if_pos rfl, ofNormalDecimal, if_pos rfl]

/-- **A decimal that is worth what a number is worth is read as the number.** -/
theorem ofDecimal_of_worth {x : Finite} {d : Decimal} (h : d.worth = x.worth) :
    ofDecimal x.negative d = some x := by
  by_cases hx : x.mantissa = 0
  · have hd : d.significand = 0 := by
      rw [worth_eq_zero_iff.mpr hx, Decimal.worth, mul_eq_zero, or_iff_left (by positivity)] at h
      exact_mod_cast h
    obtain ⟨s, e⟩ := d
    obtain rfl : s = 0 := hd
    rw [ofDecimal_zero, ← eq_zero_of_mantissa hx]
  · have hratio : (x.quotient.1 : ℚ) / x.quotient.2 = d.worth := x.worth_quotient.trans h.symm
    rw [ofDecimal_eq_ofQuotient (h ▸ lt_worth hx) (h ▸ x.worth_lt) x.quotient_ne_zero hratio]
    exact ofQuotient_of_worth x.quotient_ne_zero x.worth_quotient

/-- The exact expansion is worth what the number is worth. -/
theorem worth_exactDecimal (x : Finite) : x.exactDecimal.worth = x.worth := by
  unfold exactDecimal quotient Decimal.worth worth
  dsimp only
  rw [Nat.shiftLeft_eq, Nat.cast_mul, Nat.cast_mul]
  rcases le_total 0 x.exponent with he | he
  · obtain ⟨k, hk⟩ := Int.eq_ofNat_of_zero_le he
    have hk' : (-(k : Int)).toNat = 0 := by omega
    rw [hk, hk', Int.toNat_natCast, zpow_natCast]
    simp
  · obtain ⟨k, hk⟩ : ∃ k : Nat, x.exponent = -(k : Int) := ⟨(-x.exponent).toNat, by omega⟩
    have hk' : (-(k : Int)).toNat = 0 := by omega
    rw [hk, neg_neg, hk', Int.toNat_natCast, zpow_neg, zpow_neg, zpow_natCast, zpow_natCast]
    have hten : (10 : ℚ) ^ k = 5 ^ k * 2 ^ k := by rw [← mul_pow]; norm_num
    show (x.mantissa : ℚ) * ((2 ^ 0 : Nat) : ℚ) * ((5 ^ k : Nat) : ℚ) * (10 ^ k)⁻¹ = _
    rw [hten, mul_inv]
    push_cast
    have hfive : (5 : ℚ) ^ k ≠ 0 := by positivity
    field_simp

/-! ## The shortest decimal -/

/-- Whatever the search finds reads back. -/
theorem readsBack_of_search {x : Finite} {magnitude : Int} {grids digits : Nat} {d : Decimal}
    (h : x.search magnitude digits grids = some d) : x.readsBack d = true := by
  induction grids generalizing digits with
  | zero => cases h
  | succ grids ih =>
      rw [search] at h
      split at h
      · rename_i d' hgrid
        cases h
        exact List.find?_some hgrid
      · exact ih h

/-- **A number is read back from its shortest decimal.** -/
theorem ofDecimal_shortest (x : Finite) : ofDecimal x.negative x.shortest = some x := by
  have hnormal : ∀ d, ofDecimal x.negative d.normal = ofDecimal x.negative d := fun d => by
    rw [ofDecimal, ofDecimal, Decimal.normal_normal]
  unfold shortest
  dsimp only
  split
  · rename_i d hsearch
    rw [hnormal]
    exact beq_iff_eq.mp (readsBack_of_search hsearch)
  · rw [hnormal]
    exact ofDecimal_of_worth x.worth_exactDecimal

theorem normal_shortest (x : Finite) : x.shortest.normal = x.shortest := by
  unfold shortest
  dsimp only
  split
  · exact Decimal.normal_normal _
  · exact Decimal.normal_normal _

/-- The shortest decimal is zero, or its first digit stands neither very high nor very low. -/
theorem shortest_cases (x : Finite) :
    x.shortest = ⟨0, 0⟩ ∨
      x.shortest.significand ≠ 0 ∧ -326 < x.shortest.magnitude ∧ x.shortest.magnitude < 310 := by
  have hback := x.ofDecimal_shortest
  rw [ofDecimal, x.normal_shortest, ofNormalDecimal] at hback
  have hzero : x.shortest.significand = 0 → x.shortest = ⟨0, 0⟩ := fun h => by
    rw [← x.normal_shortest] at h ⊢
    exact Decimal.normal_eq_zero h
  split at hback
  · rename_i h
    exact Or.inl (hzero h)
  · rename_i hne
    split at hback
    · cases hback
    · split at hback
      · -- what is that small is read as zero, whose shortest decimal is zero
        refine Or.inl ?_
        rw [← Option.some.inj hback, shortest_zero]
      · exact Or.inr ⟨hne, by omega, by omega⟩

end Finite

end Binary64

end Larder
