import Mathlib

/-!
# Narrow counters in wide words

A counter counts without bound, a register shows its low `k` bits, and a reader
subtracts two readings as unsigned words of `w` bits.

* `counter_sub_eq_iff`: for `k < w`, the difference is the true advance exactly
  when the register did not wrap between the readings.
* `counter_sub_of_wrap`: after a wrap it is off by `2 ^ w - 2 ^ k`.
-/

namespace Pcitop.Common

/-- The reading, in a word of `w` bits, of a `k`-bit register over the count `t`. -/
def reading (w k t : ℕ) : BitVec w := BitVec.ofNat w (t % 2 ^ k)

variable {w k t t' : ℕ}

theorem toNat_reading (h : k ≤ w) (t : ℕ) : (reading w k t).toNat = t % 2 ^ k := by
  rw [reading, BitVec.toNat_ofNat]
  exact Nat.mod_eq_of_lt ((Nat.mod_lt _ (Nat.two_pow_pos k)).trans_le
    (Nat.pow_le_pow_right (by norm_num) h))

/-- Without a wrap the difference of two readings is the advance. -/
theorem counter_sub_of_no_wrap (hk : k ≤ w) (hle : t ≤ t') (hq : t / 2 ^ k = t' / 2 ^ k) :
    (reading w k t' - reading w k t).toNat = t' - t := by
  have ht := Nat.div_add_mod t (2 ^ k)
  have ht' := Nat.div_add_mod t' (2 ^ k)
  have hlt : t' % 2 ^ k < 2 ^ w :=
    (Nat.mod_lt _ (Nat.two_pow_pos k)).trans_le (Nat.pow_le_pow_right (by norm_num) hk)
  rw [← hq] at ht'
  rw [BitVec.toNat_sub, toNat_reading hk, toNat_reading hk,
    show 2 ^ w - t % 2 ^ k + t' % 2 ^ k = t' - t + 2 ^ w by omega, Nat.add_mod_right,
    Nat.mod_eq_of_lt (by omega)]

/-- After one wrap the difference exceeds the advance by `2 ^ w - 2 ^ k`. -/
theorem counter_sub_of_wrap (hk : k ≤ w) (hadv : t' - t < 2 ^ k)
    (hq : t / 2 ^ k + 1 = t' / 2 ^ k) :
    (reading w k t' - reading w k t).toNat + 2 ^ k = t' - t + 2 ^ w := by
  have ht := Nat.div_add_mod t (2 ^ k)
  have ht' := Nat.div_add_mod t' (2 ^ k)
  have hp := Nat.two_pow_pos k
  have hkw : 2 ^ k ≤ 2 ^ w := Nat.pow_le_pow_right (by norm_num) hk
  have hm := Nat.mod_lt t hp
  rw [← hq, Nat.mul_add, Nat.mul_one] at ht'
  rw [BitVec.toNat_sub, toNat_reading hk, toNat_reading hk, Nat.mod_eq_of_lt (by omega)]
  omega

/-- An advance below `2 ^ k` wraps the register at most once. -/
theorem wraps_at_most_once (hle : t ≤ t') (hadv : t' - t < 2 ^ k) :
    t / 2 ^ k = t' / 2 ^ k ∨ t / 2 ^ k + 1 = t' / 2 ^ k := by
  have hp := Nat.two_pow_pos k
  have h1 : t / 2 ^ k ≤ t' / 2 ^ k := Nat.div_le_div_right hle
  have h2 : t' / 2 ^ k ≤ t / 2 ^ k + 1 := by
    rw [← Nat.add_div_right _ hp]
    exact Nat.div_le_div_right (by omega)
  omega

/-- The difference of two readings is the true advance exactly when the register
    did not wrap in between. -/
theorem counter_sub_eq_iff (hk : k < w) (hle : t ≤ t') (hadv : t' - t < 2 ^ k) :
    (reading w k t' - reading w k t).toNat = t' - t ↔ t / 2 ^ k = t' / 2 ^ k := by
  constructor
  · intro h
    rcases wraps_at_most_once hle hadv with hq | hq
    · exact hq
    · have := counter_sub_of_wrap hk.le hadv hq
      have : 2 ^ k < 2 ^ w := Nat.pow_lt_pow_right (by norm_num) hk
      omega
  · exact counter_sub_of_no_wrap hk.le hle

end Pcitop.Common
