import Mathlib
import Larder.Api.Pantry

/-!
# How much a refill adds

Amounts and targets are integers of 32 bits, whose differences need 33. What an item is short of is
the difference where 32 bits hold it, and as much as they hold where they do not, so it is still
safe to add: a refill never overflows and never goes past the target, and it reaches the target
unless the item was short of more than 32 bits can say.

* `saturatingSub_toInt`, `shortfall_toInt`: the operations of 32 bits, as operations on integers;
* `shortfall_pos_iff`: an item is short of something just when its amount is below its target;
* `refill_exact`: what follows for pantries and for refilled items.
-/

namespace Larder.Api

theorem toInt_max (a b : Int32) : (max a b).toInt = max a.toInt b.toInt := by
  show (if a ≤ b then b else a).toInt = _
  split
  · rename_i h
    exact (max_eq_right (Int32.le_iff_toInt_le.mp h)).symm
  · rename_i h
    rw [Int32.le_iff_toInt_le, not_le] at h
    exact (max_eq_left h.le).symm

/-- The nearest integer that 32 bits hold is the difference cut off at both ends. -/
theorem saturatingSub_toInt (a b : Int32) :
    (saturatingSub a b).toInt = max (-2 ^ 31) (min (a.toInt - b.toInt) (2 ^ 31 - 1)) := by
  unfold saturatingSub
  dsimp only
  split
  · rw [Int32.toInt_minValue]
    omega
  · split
    · rw [Int32.toInt_maxValue]
      omega
    · rw [Int32.toInt_ofInt_of_le (by omega) (by omega)]
      omega

namespace PantryItem

variable (item : PantryItem)

theorem shortfall_toInt :
    item.shortfall.toInt = min (max (item.target.toInt - item.amount.toInt) 0) (2 ^ 31 - 1) := by
  rw [shortfall, toInt_max, saturatingSub_toInt, Int32.toInt_zero]
  omega

/-- Where the difference saturates it is still positive, so no item is overlooked. -/
theorem shortfall_pos_iff : 0 < item.shortfall ↔ item.amount.toInt < item.target.toInt := by
  rw [Int32.lt_iff_toInt_lt, shortfall_toInt, Int32.toInt_zero]
  omega

/-- What an item is short of, and what it comes to when that is added, in terms of integers. -/
structure RefillExact : Prop where
  shortfall :
    item.shortfall.toInt = min (max (item.target.toInt - item.amount.toInt) 0) (2 ^ 31 - 1)
  /-- 32 bits hold the sum, so it is the sum of the integers. -/
  noOverflow : (item.amount + item.shortfall).toInt = item.amount.toInt + item.shortfall.toInt
  bounded : item.amount.toInt + item.shortfall.toInt ≤ max item.amount.toInt item.target.toInt
  /-- The greater of amount and target is reached unless the difference saturates. -/
  reached : item.amount.toInt + item.shortfall.toInt = max item.amount.toInt item.target.toInt ↔
    item.target.toInt - item.amount.toInt ≤ 2 ^ 31 - 1

/-- An amount and what is missing lie within the range of the greater of amount and target. -/
theorem toInt_amount_add_shortfall :
    (item.amount + item.shortfall).toInt = item.amount.toInt + item.shortfall.toInt := by
  have hshort := item.shortfall_toInt
  have hamount := item.amount.le_toInt
  have hamount' := item.amount.toInt_lt
  have htarget := item.target.toInt_lt
  rw [Int32.toInt_add]
  exact Int.bmod_eq_of_le (by omega) (by omega)

end PantryItem

/-- **Refills are exact up to saturation.** A pantry needs just the items whose amounts are below
their targets, each as often and in the order in which it is there, and what each of them is short of
can be added to it. -/
theorem refill_exact (p : Pantry) :
    p.needingRefill = p.items.filter (fun item => item.amount.toInt < item.target.toInt) ∧
      ∀ item : PantryItem, item.RefillExact := by
  refine ⟨?_, fun item => ?_⟩
  · unfold Pantry.needingRefill
    simp only [PantryItem.shortfall_pos_iff]
  · have hshort := item.shortfall_toInt
    refine ⟨hshort, item.toInt_amount_add_shortfall, ?_, ?_⟩
    · rw [hshort]
      omega
    · rw [hshort]
      omega

/-- Two thousand million too much oil, and as much too little: what is missing saturates, and the
refill stops short of the target. -/
example : (PantryItem.mk 1 "Oil" (-2000000000) 2000000000).shortfall = 2147483647 := by decide

end Larder.Api
