import Pcitop.Common.Writer

/-!
# Filling an array

A copy into an array of fixed size stores some bytes from its start on. It keeps the rest of
memory intact when there are no more bytes than the array has, and leaves a string in it
when one of its cells is NUL afterwards.

* `fills_iff_of_length_eq`: a copy of just the size of the array.
* `fills_strncpyBytes_iff`, `fills_scanBytes_iff`: `strncpy` with the size of the array, and
  `%s`.
-/

namespace Pcitop.Common

/-- The bytes that `strncpy(dst, src, n)` stores. -/
def strncpyBytes (src : CString) (n : ℕ) : CString := (cstr src ++ List.replicate n nul).take n

/-- The bytes that a `%s` conversion stores for a word. -/
def scanBytes (word : CString) : CString := word ++ [nul]

/-- Stored at `p`, the bytes stay within an array of the given size, which then holds a
    terminated string. -/
structure Fills (mem : Memory) (p size : ℕ) (bytes : CString) : Prop where
  within : bytes.length ≤ size
  terminated : ∃ i < size, store mem p bytes (p + i) = nul

/-! ## Cells -/

theorem store_add (mem : Memory) (p i : ℕ) (bytes : CString) :
    store mem p bytes (p + i) = bytes[i]?.getD (mem (p + i)) := by
  rw [store, if_neg (by omega), Nat.add_sub_cancel_left]

/-- A byte NUL inside the array terminates what the copy has stored. -/
theorem Fills.of_nul_mem {mem : Memory} {p size : ℕ} {bytes : CString}
    (h : bytes.length ≤ size) (hnul : nul ∈ bytes) : Fills mem p size bytes := by
  obtain ⟨i, hi, hc⟩ := List.getElem_of_mem hnul
  refine ⟨h, i, by omega, ?_⟩
  rw [store_add, List.getElem?_eq_getElem hi, Option.getD_some, hc]

/-- What was there is gone where the copy stores as many bytes as the array has. -/
theorem fills_iff_of_length_eq {mem : Memory} {p size : ℕ} {bytes : CString}
    (h : bytes.length = size) : Fills mem p size bytes ↔ nul ∈ bytes := by
  constructor
  · rintro ⟨-, i, hi, hnul⟩
    rw [store_add, List.getElem?_eq_getElem (by omega), Option.getD_some] at hnul
    exact hnul ▸ List.getElem_mem _
  · exact Fills.of_nul_mem h.le

/-! ## `strncpy` -/

theorem strncpy_eq (dst src : CString) (n : ℕ) :
    strncpy dst src n = strncpyBytes src n ++ dst.drop n := rfl

@[simp] theorem length_strncpyBytes (src : CString) (n : ℕ) :
    (strncpyBytes src n).length = n := by
  simp [strncpyBytes]

/-- The array behind the `n` bytes is left as it was. -/
theorem drop_strncpy (dst src : CString) (n : ℕ) : (strncpy dst src n).drop n = dst.drop n := by
  rw [strncpy_eq, List.drop_left' (length_strncpyBytes src n)]

/-- `strncpy` sees a source up to its terminator. -/
theorem strncpy_congr {src src' : CString} (h : cstr src = cstr src') (dst : CString) (n : ℕ) :
    strncpy dst src n = strncpy dst src' n := by
  rw [strncpy_eq, strncpy_eq, strncpyBytes, strncpyBytes, h]

/-- What the first `n` bytes were has no influence. -/
theorem strncpy_congr_drop {dst dst' : CString} {n : ℕ} (h : dst.drop n = dst'.drop n)
    (src : CString) : strncpy dst src n = strncpy dst' src n := by
  rw [strncpy_eq, strncpy_eq, h]

/-- A copy over an array of `n` cells replaces them all. -/
theorem strncpy_zeroed (src : CString) (n : ℕ) : strncpy (zeroed n) src n = strncpyBytes src n := by
  rw [strncpy_eq, zeroed, List.drop_replicate, Nat.sub_self, List.replicate_zero, List.append_nil]

/-- There is a terminator among the bytes when the source is shorter. -/
theorem nul_mem_strncpyBytes_iff (src : CString) (n : ℕ) :
    nul ∈ strncpyBytes src n ↔ strlen src < n := by
  rw [strncpyBytes, strlen]
  constructor
  · intro h
    by_contra hle
    rw [List.take_append_of_le_length (by omega)] at h
    exact noNul_cstr src (List.mem_of_mem_take h)
  · intro h
    rw [List.take_append, List.mem_append]
    right
    rw [List.take_replicate, List.mem_replicate]
    refine ⟨?_, rfl⟩
    omega

/-- `strncpy` with the size of the array leaves no room for a terminator of its own. -/
theorem fills_strncpyBytes_iff (mem : Memory) (p size : ℕ) (src : CString) :
    Fills mem p size (strncpyBytes src size) ↔ strlen src < size := by
  rw [fills_iff_of_length_eq (length_strncpyBytes src size), nul_mem_strncpyBytes_iff]

/-! ## `%s` -/

/-- `%s` stores the whole word and a terminator, whatever the size of the array. -/
theorem fills_scanBytes_iff (mem : Memory) (p size : ℕ) (word : CString) :
    Fills mem p size (scanBytes word) ↔ word.length < size := by
  have hlen : (scanBytes word).length = word.length + 1 := by simp [scanBytes]
  constructor
  · intro h
    have := h.within
    omega
  · intro h
    apply Fills.of_nul_mem
    · omega
    · exact List.mem_append_right _ (List.mem_singleton_self nul)

end Pcitop.Common
