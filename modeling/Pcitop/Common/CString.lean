import Mathlib

/-!
# C strings and `char` arrays

A `char` array is the list of its characters, one `Char` a byte. Functions of
`<string.h>` see such an array up to its first NUL; the end of the list stands
for the terminator of an array that holds none.

* `strneq_iff`: `strncmp(a, b, n) == 0` compares the first `n` characters of the
  two strings.
* `cstr_strncpy`: what `strncpy` leaves in the destination, read back as a
  string.
-/

namespace Pcitop.Common

/-- The characters a `char *` points at. -/
abbrev CString := List Char

/-- The terminator `'\0'`. -/
def nul : Char := '\x00'

/-- The string held in a `char` array: its characters before the first NUL. -/
def cstr (buf : CString) : CString := buf.takeWhile (· ≠ nul)

/-- A string without embedded NUL, such as a file name. -/
def NoNul (s : CString) : Prop := nul ∉ s

instance (s : CString) : Decidable (NoNul s) := inferInstanceAs (Decidable (nul ∉ s))

/-- `strlen`. -/
def strlen (s : CString) : ℕ := (cstr s).length

/-- `strcmp(a, b) == 0`. -/
def streq (a b : CString) : Bool := cstr a == cstr b

/-- `strncmp(a, b, n) == 0`. -/
def strneq (a b : CString) (n : ℕ) : Bool := (cstr a).take n == (cstr b).take n

/-- The character `s[i]` of a string, the terminator at its end. -/
def charAt (s : CString) (i : ℕ) : Char := (cstr s).getD i nul

/-- `strncpy(dst, src, n)`: the first `n` characters of `src`, filled up with
    NULs, over the first `n` bytes of `dst`. No terminator is added when `src`
    has `n` characters or more. -/
def strncpy (dst src : CString) (n : ℕ) : CString :=
  (cstr src ++ List.replicate n nul).take n ++ dst.drop n

/-- `memset(buf, 0, n)` over an array of `n` bytes, and `calloc`. -/
def zeroed (n : ℕ) : CString := List.replicate n nul

/-! ## The string in an array -/

theorem noNul_cstr (buf : CString) : NoNul (cstr buf) := by
  intro h
  have := List.mem_takeWhile_imp h
  simp at this

theorem cstr_eq_self {s : CString} (h : NoNul s) : cstr s = s := by
  unfold cstr
  rw [List.takeWhile_eq_self_iff]
  intro c hc
  have : c ≠ nul := fun e => h (e ▸ hc)
  simpa using this

@[simp] theorem cstr_nil : cstr [] = [] := rfl

theorem cstr_append {s : CString} (h : NoNul s) (t : CString) : cstr (s ++ t) = s ++ cstr t := by
  unfold cstr
  rw [List.takeWhile_append_of_pos]
  intro c hc
  have : c ≠ nul := fun e => h (e ▸ hc)
  simpa using this

theorem cstr_append_nul {s : CString} (h : NoNul s) (t : CString) :
    cstr (s ++ nul :: t) = s := by
  rw [cstr_append h]
  simp [cstr]

theorem NoNul.append {s t : CString} (hs : NoNul s) (ht : NoNul t) : NoNul (s ++ t) := by
  simp only [NoNul, List.mem_append, not_or] at *
  exact ⟨hs, ht⟩

theorem NoNul.take {s : CString} (h : NoNul s) (n : ℕ) : NoNul (s.take n) :=
  fun hs => h (List.mem_of_mem_take hs)

/-- Padding a string with NULs does not change it. -/
theorem cstr_append_replicate {s : CString} (h : NoNul s) (n : ℕ) :
    cstr (s ++ List.replicate n nul) = s := by
  cases n with
  | zero => simpa using cstr_eq_self h
  | succ n => rw [List.replicate_succ]; exact cstr_append_nul h _

/-! ## Comparing -/

theorem strneq_iff (a b : CString) (n : ℕ) :
    strneq a b n = true ↔ (cstr a).take n = (cstr b).take n := by
  simp [strneq]

theorem strneq_eq_decide (a b : CString) (n : ℕ) :
    strneq a b n = decide ((cstr a).take n = (cstr b).take n) := by
  rw [Bool.eq_iff_iff, strneq_iff, decide_eq_true_iff]

/-! ## Copying -/

/-- A source shorter than `n` arrives whole and terminated. -/
theorem cstr_strncpy {dst src : CString} {n : ℕ} (h : strlen src < n) :
    cstr (strncpy dst src n) = cstr src := by
  unfold strlen at h
  have hsplit : (cstr src ++ List.replicate n nul).take n =
      cstr src ++ nul :: List.replicate (n - (cstr src).length - 1) nul := by
    rw [List.take_append, List.take_of_length_le (by omega), List.take_replicate,
      ← List.replicate_succ]
    congr 2
    omega
  rw [strncpy, hsplit, List.append_assoc, List.cons_append]
  exact cstr_append_nul (noNul_cstr src) _

/-- A source of `n` characters or more is cut, without a terminator. -/
theorem strncpy_of_le {dst src : CString} {n : ℕ} (h : n ≤ strlen src) :
    strncpy dst src n = (cstr src).take n ++ dst.drop n := by
  unfold strlen at h
  rw [strncpy, List.take_append_of_le_length h]

end Pcitop.Common
