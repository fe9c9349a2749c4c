import Mathlib

/-!
# Bit fields of a machine word

A field of a `w`-bit word is a mask moved up by a shift that loses none of its
bits. It is read by shifting and masking, and written by clearing the field
with an and-not and setting it with an exclusive or. For a value inside the
mask:

* `BitField.get_put`: the field reads back what was written.
* `BitField.getLsbD_put`: every other bit keeps its value.
-/

namespace Pcitop.Common

/-- A field of a `w`-bit word: the bits of `mask`, moved up by `shift`. -/
structure BitField (w : ℕ) where
  shift : ℕ
  mask : BitVec w
  /-- The shift pushes no bit of the mask out of the word. -/
  fits : (mask <<< shift) >>> shift = mask

namespace BitField

variable {w : ℕ}

/-- The bits of the word that belong to the field. -/
def bits (f : BitField w) : BitVec w := f.mask <<< f.shift

/-- `(word >> shift) & mask`. -/
def get (f : BitField w) (word : BitVec w) : BitVec w := (word >>> f.shift) &&& f.mask

/-- `(word & ~(mask << shift)) ^ (value << shift)`. -/
def put (f : BitField w) (value word : BitVec w) : BitVec w :=
  (word &&& ~~~(f.mask <<< f.shift)) ^^^ (value <<< f.shift)

/-- `value` has no bit outside the mask. -/
def Holds (f : BitField w) (value : BitVec w) : Prop := value &&& f.mask = value

instance (f : BitField w) (value : BitVec w) : Decidable (f.Holds value) :=
  inferInstanceAs (Decidable (_ = _))

theorem Holds.getLsbD {f : BitField w} {value : BitVec w} (h : f.Holds value) (i : ℕ) :
    value.getLsbD i = (value.getLsbD i && f.mask.getLsbD i) := by
  have hbit := congrArg (fun v : BitVec w => v.getLsbD i) h
  simp only [BitVec.getLsbD_and] at hbit
  exact hbit.symm

theorem Holds.mask_of_bit {f : BitField w} {value : BitVec w} (h : f.Holds value) {i : ℕ}
    (hi : value.getLsbD i = true) : f.mask.getLsbD i = true := by
  have hbit := h.getLsbD i
  rw [hi, Bool.true_and] at hbit
  exact hbit.symm

/-- A bit of the mask lands inside the word. -/
theorem add_shift_lt (f : BitField w) {i : ℕ} (h : f.mask.getLsbD i = true) : i + f.shift < w := by
  by_contra hge
  have hbit := congrArg (fun v : BitVec w => v.getLsbD i) f.fits
  simp only [BitVec.getLsbD_ushiftRight, BitVec.getLsbD_shiftLeft, h] at hbit
  have : ¬ f.shift + i < w := by omega
  simp [this] at hbit

theorem getLsbD_bits (f : BitField w) (i : ℕ) :
    f.bits.getLsbD i = (decide (f.shift ≤ i) && f.mask.getLsbD (i - f.shift)) := by
  rw [bits, BitVec.getLsbD_shiftLeft]
  by_cases hs : f.shift ≤ i
  · by_cases hm : f.mask.getLsbD (i - f.shift) = true
    · have := f.add_shift_lt hm
      have hi : i < w := by omega
      simp [hs, hm, hi]
    · simp [hm]
  · have : i < f.shift := by omega
    simp [this]

/-- The word after a write, bit by bit. -/
theorem getLsbD_put {f : BitField w} {value : BitVec w} (hv : f.Holds value) (word : BitVec w)
    {i : ℕ} (hi : i < w) :
    (f.put value word).getLsbD i =
      if f.bits.getLsbD i then value.getLsbD (i - f.shift) else word.getLsbD i := by
  have hb := f.getLsbD_bits i
  unfold bits at hb ⊢
  rw [put, BitVec.getLsbD_xor, BitVec.getLsbD_and, BitVec.getLsbD_not, hb,
    BitVec.getLsbD_shiftLeft]
  by_cases hs : f.shift ≤ i
  · have hlt : ¬ i < f.shift := by omega
    by_cases hm : f.mask.getLsbD (i - f.shift) = true
    · simp [hs, hlt, hm, hi]
    · have hval : value.getLsbD (i - f.shift) = false := by
        by_contra hc
        exact hm (hv.mask_of_bit (by simpa using hc))
      simp [hs, hm, hi, hval]
  · have hlt : i < f.shift := by omega
    simp [hs, hlt, hi]

/-- A bit outside the field keeps its value. -/
theorem getLsbD_put_of_not_mem {f : BitField w} {value : BitVec w} (hv : f.Holds value)
    (word : BitVec w) {i : ℕ} (hi : f.bits.getLsbD i = false) :
    (f.put value word).getLsbD i = word.getLsbD i := by
  rcases Nat.lt_or_ge i w with h | h
  · rw [getLsbD_put hv word h, hi]
    rfl
  · rw [BitVec.getLsbD_of_ge _ _ h, BitVec.getLsbD_of_ge _ _ h]

/-- The field reads back what was written to it. -/
theorem get_put {f : BitField w} {value : BitVec w} (hv : f.Holds value) (word : BitVec w) :
    f.get (f.put value word) = value := by
  apply BitVec.eq_of_getLsbD_eq
  intro i hi
  rw [get, BitVec.getLsbD_and, BitVec.getLsbD_ushiftRight]
  by_cases hm : f.mask.getLsbD i = true
  · have hlt := f.add_shift_lt hm
    have hbits : f.bits.getLsbD (f.shift + i) = true := by
      rw [getLsbD_bits]
      simp [hm]
    rw [getLsbD_put hv word (by omega), hbits, hm]
    simp
  · have hval : value.getLsbD i = false := by
      by_contra hc
      exact hm (hv.mask_of_bit (by simpa using hc))
    simp [hm, hval]

end BitField

end Pcitop.Common
