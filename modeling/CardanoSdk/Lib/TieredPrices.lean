import Mathlib.Algebra.BigOperators.Intervals
import Mathlib.Algebra.Order.BigOperators.Group.Finset
import Mathlib.Algebra.Order.Floor.Ring
import Mathlib.Tactic

/-!
Prices that grow from tier to tier, each dearer by one factor, and what rounding every
tier up adds.
-/

namespace CardanoSdk.Lib

variable {K : Type} [Field K]

def tieredPrice (multiplier : K) (tier : ℕ) (price : K) (size : ℕ) : K :=
  ∑ i ∈ Finset.range size, price * multiplier ^ (i / tier)

section Exact

variable {multiplier price : K} {tier size : ℕ}

theorem tieredPrice_zero : tieredPrice multiplier tier price 0 = 0 := Finset.sum_range_zero _

theorem tieredPrice_first (h : size ≤ tier) :
    tieredPrice multiplier tier price size = size * price := by
  have hunit : ∀ i ∈ Finset.range size, price * multiplier ^ (i / tier) = price := by
    intro i hi
    have hless := Finset.mem_range.mp hi
    have hfirst : i / tier = 0 := Nat.div_eq_of_lt (by omega)
    rw [hfirst, pow_zero, mul_one]
  rw [tieredPrice, Finset.sum_congr rfl hunit, Finset.sum_const, Finset.card_range, nsmul_eq_mul]

theorem tieredPrice_step (htier : 0 < tier) : tieredPrice multiplier tier price size =
    (min tier size : ℕ) * price +
      tieredPrice multiplier tier (price * multiplier) (size - tier) := by
  rcases le_total size tier with hfirst | hmore
  · rw [tieredPrice_first hfirst, Nat.sub_eq_zero_of_le hfirst, tieredPrice_zero,
      min_eq_right hfirst, add_zero]
  · obtain ⟨rest, rfl⟩ := Nat.exists_eq_add_of_le hmore
    have hlater : ∀ i ∈ Finset.range rest, price * multiplier ^ ((tier + i) / tier) =
        price * multiplier * multiplier ^ (i / tier) := by
      intro i _
      rw [Nat.add_div_left i htier, pow_succ]
      ring
    have hfull : tieredPrice multiplier tier price tier = tier * price := tieredPrice_first le_rfl
    unfold tieredPrice at hfull ⊢
    rw [Finset.sum_range_add, hfull, Finset.sum_congr rfl hlater, min_eq_left hmore,
      Nat.add_sub_cancel_left]

end Exact

section Rounding

variable [LinearOrder K] [FloorRing K]

def tierAmount (tier size j : ℕ) : ℕ := min tier (size - j * tier)

def tierCount (tier size : ℕ) : ℕ := (size + tier - 1) / tier

def excess (amount : K) : K := ⌈amount⌉ - amount

/-- What is added in all where the price of every tier is rounded up. -/
def roundingUp (multiplier : K) (tier : ℕ) (price : K) (size : ℕ) : K :=
  ∑ j ∈ Finset.range (tierCount tier size),
    excess (tierAmount tier size j * (price * multiplier ^ j))

variable {multiplier price : K} {tier size : ℕ}

theorem roundingUp_nonneg [IsStrictOrderedRing K] : 0 ≤ roundingUp multiplier tier price size :=
  Finset.sum_nonneg fun _ _ => sub_nonneg.mpr (Int.le_ceil _)

theorem roundingUp_zero (htier : 0 < tier) : roundingUp multiplier tier price 0 = 0 := by
  have hcount : tierCount tier 0 = 0 := Nat.div_eq_of_lt (by omega)
  rw [roundingUp, hcount, Finset.sum_range_zero]

theorem tierCount_step (htier : 0 < tier) (hsize : 0 < size) :
    tierCount tier size = tierCount tier (size - tier) + 1 := by
  unfold tierCount
  rcases le_total tier size with hmore | hless
  · rw [show size + tier - 1 = size - tier + tier - 1 + tier by omega, Nat.add_div_right _ htier]
  · rw [show size + tier - 1 = size - 1 + tier by omega, Nat.add_div_right _ htier,
      Nat.div_eq_of_lt (by omega), Nat.div_eq_of_lt (by omega)]

theorem roundingUp_step (htier : 0 < tier) (hsize : 0 < size) :
    roundingUp multiplier tier price size = excess ((min tier size : ℕ) * price) +
      roundingUp multiplier tier (price * multiplier) (size - tier) := by
  unfold roundingUp
  rw [tierCount_step htier hsize, Finset.sum_range_succ', add_comm]
  congr 1
  · simp [tierAmount]
  · refine Finset.sum_congr rfl fun j _ => ?_
    have hamount : tierAmount tier size (j + 1) = tierAmount tier (size - tier) j := by
      unfold tierAmount
      rw [Nat.sub_sub, add_mul, one_mul, add_comm (j * tier)]
    rw [hamount, pow_succ, mul_assoc price, mul_comm multiplier]

end Rounding

end CardanoSdk.Lib
