import Mathlib

/-!
# Rates and their mean

A count `num` is looked at when a clock shows `den 0 < den 1 < …`. Its rate in an interval
is its increase divided by that of the clock, and the mean rate weighs every interval with
its length.

* `meanRate_eq`: over all intervals the increases telescope, so the mean rate is that of
  the last values against the first.
* `inf_le_meanRate`, `meanRate_le_sup`: it lies between the smallest and the largest rate.
-/

namespace Pcitop.Common

variable {K : Type} [Field K] [LinearOrder K] (num den : ℕ → K)

/-- The rate in interval `i`. -/
def rate (i : ℕ) : K := (num (i + 1) - num i) / (den (i + 1) - den i)

/-- The mean of the rates in the first `k` intervals, weighted with their lengths. -/
def meanRate (k : ℕ) : K :=
  (Finset.range k).centerMass (fun i => den (i + 1) - den i) (rate num den)

variable {num den} {k : ℕ}

theorem meanRate_eq (h : ∀ i < k, den i < den (i + 1)) :
    meanRate num den k = (num k - num 0) / (den k - den 0) := by
  have hsum : ∑ i ∈ Finset.range k, (den (i + 1) - den i) • rate num den i =
      ∑ i ∈ Finset.range k, (num (i + 1) - num i) := by
    apply Finset.sum_congr rfl
    intro i hi
    have hne : den (i + 1) - den i ≠ 0 := sub_ne_zero.mpr (h i (Finset.mem_range.mp hi)).ne'
    rw [rate, smul_eq_mul, mul_div_cancel₀ _ hne]
  rw [meanRate, Finset.centerMass, hsum, Finset.sum_range_sub, Finset.sum_range_sub, smul_eq_mul,
    inv_mul_eq_div]

variable [IsStrictOrderedRing K]

/-- The weights of the mean rate have a positive sum. -/
theorem sum_weights_pos (h : ∀ i < k, den i < den (i + 1)) (hk : 0 < k) :
    0 < ∑ i ∈ Finset.range k, (den (i + 1) - den i) := by
  apply Finset.sum_pos
  · intro i hi
    exact sub_pos.mpr (h i (Finset.mem_range.mp hi))
  · exact Finset.nonempty_range_iff.mpr hk.ne'

/-- The mean rate lies between the smallest and the largest rate. -/
theorem inf_le_meanRate (h : ∀ i < k, den i < den (i + 1)) (hk : 0 < k) :
    (Finset.range k).inf' (Finset.nonempty_range_iff.mpr hk.ne') (rate num den) ≤
      meanRate num den k :=
  Finset.inf_le_centerMass (fun i hi => (sub_pos.mpr (h i (Finset.mem_range.mp hi))).le)
    (sum_weights_pos h hk)

theorem meanRate_le_sup (h : ∀ i < k, den i < den (i + 1)) (hk : 0 < k) :
    meanRate num den k ≤
      (Finset.range k).sup' (Finset.nonempty_range_iff.mpr hk.ne') (rate num den) :=
  Finset.centerMass_le_sup (fun i hi => (sub_pos.mpr (h i (Finset.mem_range.mp hi))).le)
    (sum_weights_pos h hk)

end Pcitop.Common
