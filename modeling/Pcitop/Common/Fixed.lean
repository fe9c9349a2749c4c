import Pcitop.Common.Printf

/-!
# Fixed-point output

`%0w.pf` of a finite `double`, which is a rational: the value rounded to `p` decimals,
halves to the even neighbour, and filled up with zeros after its sign.

* `length_fixed`: a value from 0 to `10 ^ k` takes at most `k + 2 + p` characters, and
  exactly the width when that is enough.
-/

namespace Pcitop.Common

/-- The nearest integer, of two the even one. -/
def roundHalfEven (x : ℚ) : ℤ :=
  if x - ⌊x⌋ < 1 / 2 then ⌊x⌋
  else if 1 / 2 < x - ⌊x⌋ then ⌊x⌋ + 1
  else if ⌊x⌋ % 2 = 0 then ⌊x⌋ else ⌊x⌋ + 1

/-- The digits of `%.pf` of a value of so many units of the last of `p` decimals. -/
def fixedDigits (p units : ℕ) : CString :=
  dec (units / 10 ^ p) ++ '.' :: padLeft p '0' (dec (units % 10 ^ p))

/-- `%0w.pf`, for `p` at least 1. -/
def fixed (w p : ℕ) (v : ℚ) : CString :=
  let digits := fixedDigits p (roundHalfEven (|v| * 10 ^ p)).natAbs
  if v < 0 then '-' :: padLeft (w - 1) '0' digits else padLeft w '0' digits

/-! ## Lengths -/

/-- Rounding does not pass an integer. -/
theorem roundHalfEven_le {x : ℚ} {n : ℤ} (h : x ≤ n) : roundHalfEven x ≤ n := by
  have hfloor : ⌊x⌋ ≤ n := Int.floor_le_iff.mpr (by linarith)
  rcases hfloor.lt_or_eq with hlt | heq
  · unfold roundHalfEven
    split_ifs <;> omega
  · have hx : x - ⌊x⌋ < 1 / 2 := by
      rw [heq]
      linarith
    rw [roundHalfEven, if_pos hx]
    exact hfloor

theorem roundHalfEven_nonneg {x : ℚ} (h : 0 ≤ x) : 0 ≤ roundHalfEven x := by
  have hfloor : 0 ≤ ⌊x⌋ := Int.floor_nonneg.mpr h
  unfold roundHalfEven
  split_ifs <;> omega

theorem length_padLeft (w : ℕ) (c : Char) (s : CString) :
    (padLeft w c s).length = max w s.length := by
  rw [padLeft, List.length_append, List.length_replicate]
  omega

theorem length_fixedDigits {p units k : ℕ} (hp : 0 < p) (h : units < 10 ^ (k + 1 + p)) :
    (fixedDigits p units).length ≤ k + 2 + p := by
  have hint : (dec (units / 10 ^ p)).length ≤ k + 1 := by
    apply length_dec_le (Nat.succ_pos k)
    rw [Nat.div_lt_iff_lt_mul (by positivity), ← pow_add]
    exact h
  have hfrac : (dec (units % 10 ^ p)).length ≤ p :=
    length_dec_le hp (Nat.mod_lt _ (by positivity))
  rw [fixedDigits, List.length_append, List.length_cons, length_padLeft]
  omega

/-- A value from 0 to `10 ^ k` fills the field, if that is wide enough. -/
theorem length_fixed {w p k : ℕ} (hp : 0 < p) (hw : k + 2 + p ≤ w) {v : ℚ} (h0 : 0 ≤ v)
    (h : v ≤ 10 ^ k) : (fixed w p v).length = w := by
  have hround : roundHalfEven (|v| * 10 ^ p) ≤ ((10 ^ (k + p) : ℕ) : ℤ) := by
    apply roundHalfEven_le
    rw [abs_of_nonneg h0]
    push_cast
    rw [pow_add]
    exact mul_le_mul_of_nonneg_right h (by positivity)
  have hpos : 0 ≤ roundHalfEven (|v| * 10 ^ p) := roundHalfEven_nonneg (by positivity)
  have hunits : (roundHalfEven (|v| * 10 ^ p)).natAbs < 10 ^ (k + 1 + p) := by
    have hpow : 10 ^ (k + p) < 10 ^ (k + 1 + p) := Nat.pow_lt_pow_right (by norm_num) (by omega)
    omega
  have hlen := length_fixedDigits hp hunits
  rw [fixed, if_neg (not_lt.mpr h0), length_padLeft]
  omega

/-- Exact halves go to the even hundredth. -/
example : fixed 6 2 (1 / 8) = "000.12".toList ∧ fixed 6 2 100 = "100.00".toList := by
  decide +kernel

end Pcitop.Common
