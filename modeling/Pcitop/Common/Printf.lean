import Pcitop.Common.CString

/-!
# Conversions of the `printf` family

The conversions used by formatted output, each as the characters it writes.
Numbers are written with `Nat.toDigits`, whose digits above nine are lower case
as those of `%x`.

* `length_hexPad`: a number below `16 ^ w` takes exactly `w` characters under
  `%0wx`.
* `hexPad_injective`: two such numbers with the same text are equal.
-/

namespace Pcitop.Common

/-- `s` right-justified in a field of `w` characters filled with `c`. -/
def padLeft (w : ℕ) (c : Char) (s : CString) : CString := List.replicate (w - s.length) c ++ s

/-- `%*s`: right-justified in the width, left-justified when it is negative. -/
def padStr (width : ℤ) (s : CString) : CString :=
  if width < 0 then s ++ List.replicate (width.natAbs - s.length) ' '
  else padLeft width.toNat ' ' s

/-- `%0wx`. -/
def hexPad (w v : ℕ) : CString := padLeft w '0' (Nat.toDigits 16 v)

/-- `%lu`, and `%d` of a non-negative number. -/
def dec (v : ℕ) : CString := Nat.toDigits 10 v

/-- `%d`. -/
def decInt (v : ℤ) : CString := if v < 0 then '-' :: dec v.natAbs else dec v.toNat

/-- `snprintf(buf, n, …)` over the `n` bytes of `buf`: the text cut to `n - 1`
    characters and terminated. -/
def snprintf (buf : CString) (n : ℕ) (text : CString) : CString :=
  strncpy buf (text.take (n - 1)) ((text.take (n - 1)).length + 1)

/-! ## The value of a digit string -/

/-- The value of a digit in bases up to 16, and 16 for any other character. -/
def digitVal (c : Char) : ℕ :=
  if '0' ≤ c ∧ c ≤ '9' then c.toNat - 48
  else if 'a' ≤ c ∧ c ≤ 'f' then c.toNat - 87
  else if 'A' ≤ c ∧ c ≤ 'F' then c.toNat - 55
  else 16

/-- `c` is a digit in base `b`. -/
def isDigitOf (b : ℕ) (c : Char) : Bool := decide (digitVal c < b)

/-- The value of a digit string, most significant digit first. -/
def digitsVal (b : ℕ) (ds : CString) : ℕ := ds.foldl (fun v c => b * v + digitVal c) 0

theorem digitVal_digitChar {d : ℕ} (h : d < 16) : digitVal d.digitChar = d := by
  interval_cases d <;> rfl

@[simp] theorem digitsVal_nil (b : ℕ) : digitsVal b [] = 0 := rfl

theorem digitsVal_append_singleton (b : ℕ) (ds : CString) (c : Char) :
    digitsVal b (ds ++ [c]) = b * digitsVal b ds + digitVal c := by
  simp [digitsVal, List.foldl_append]

/-- Leading zeros do not change the value. -/
theorem digitsVal_replicate_zero (b k : ℕ) (ds : CString) :
    digitsVal b (List.replicate k '0' ++ ds) = digitsVal b ds := by
  unfold digitsVal
  rw [List.foldl_append]
  congr 1
  induction k with
  | zero => rfl
  | succ k ih =>
    rw [List.replicate_succ', List.foldl_append, ih]
    rfl

/-- A digit string is below the power of its length. -/
theorem digitsVal_lt {b : ℕ} {ds : CString} (h : ∀ c ∈ ds, isDigitOf b c = true) :
    digitsVal b ds < b ^ ds.length := by
  induction ds using List.reverseRecOn with
  | nil => simp
  | append_singleton ds c ih =>
    have hds := ih fun d hd => h d (List.mem_append_left _ hd)
    have hc : digitVal c < b := by simpa [isDigitOf] using h c (by simp)
    rw [digitsVal_append_singleton, List.length_append, List.length_singleton, pow_succ]
    calc b * digitsVal b ds + digitVal c < b * (digitsVal b ds + 1) := by rw [mul_add]; omega
      _ ≤ b * b ^ ds.length := Nat.mul_le_mul_left b hds
      _ = b ^ ds.length * b := Nat.mul_comm _ _

/-- Reading back the digits of a number. -/
theorem digitsVal_toDigits {b : ℕ} (hb : 1 < b) (hb' : b ≤ 16) (v : ℕ) :
    digitsVal b (Nat.toDigits b v) = v := by
  induction v using Nat.strong_induction_on with
  | _ v ih =>
    rcases Nat.lt_or_ge v b with h | h
    · rw [Nat.toDigits_of_lt_base h]
      simp [digitsVal, digitVal_digitChar (show v < 16 by omega)]
    · have hd : v / b < v := Nat.div_lt_self (by omega) hb
      have hm : v % b < b := Nat.mod_lt _ (by omega)
      rw [Nat.toDigits_of_base_le hb h, digitsVal_append_singleton, ih _ hd,
        digitVal_digitChar (by omega)]
      exact Nat.div_add_mod v b

theorem isDigitOf_toDigits {b : ℕ} (hb : 1 < b) (hb' : b ≤ 16) (v : ℕ) :
    ∀ c ∈ Nat.toDigits b v, isDigitOf b c = true := by
  induction v using Nat.strong_induction_on with
  | _ v ih =>
    intro c hc
    rcases Nat.lt_or_ge v b with h | h
    · rw [Nat.toDigits_of_lt_base h, List.mem_singleton] at hc
      subst hc
      simp [isDigitOf, digitVal_digitChar (show v < 16 by omega), h]
    · have hm : v % b < b := Nat.mod_lt _ (by omega)
      rw [Nat.toDigits_of_base_le hb h, List.mem_append, List.mem_singleton] at hc
      rcases hc with hc | rfl
      · exact ih _ (Nat.div_lt_self (by omega) hb) c hc
      · simp [isDigitOf, digitVal_digitChar (show v % b < 16 by omega), hm]

/-! ## Padded hexadecimal -/

theorem length_hexPad {w v : ℕ} (hw : 0 < w) (h : v < 16 ^ w) : (hexPad w v).length = w := by
  have := (Nat.length_toDigits_le_iff (b := 16) (by norm_num) hw).mpr h
  simp [hexPad, padLeft]
  omega

theorem hexPad_ne_nil (w v : ℕ) : hexPad w v ≠ [] := by
  simp [hexPad, padLeft, Nat.toDigits_ne_nil]

theorem isDigitOf_hexPad (w v : ℕ) : ∀ c ∈ hexPad w v, isDigitOf 16 c = true := by
  intro c hc
  rw [hexPad, padLeft, List.mem_append, List.mem_replicate] at hc
  rcases hc with ⟨-, rfl⟩ | hc
  · rfl
  · exact isDigitOf_toDigits (by norm_num) le_rfl v c hc

theorem digitsVal_hexPad (w v : ℕ) : digitsVal 16 (hexPad w v) = v := by
  rw [hexPad, padLeft, digitsVal_replicate_zero, digitsVal_toDigits (by norm_num) le_rfl]

theorem hexPad_injective {w v v' : ℕ} (h : hexPad w v = hexPad w v') : v = v' := by
  rw [← digitsVal_hexPad w v, h, digitsVal_hexPad]

theorem isDigitOf_dec (v : ℕ) : ∀ c ∈ dec v, isDigitOf 10 c = true :=
  isDigitOf_toDigits (by norm_num) (by norm_num) v

theorem digitsVal_dec (v : ℕ) : digitsVal 10 (dec v) = v :=
  digitsVal_toDigits (by norm_num) (by norm_num) v

theorem dec_ne_nil (v : ℕ) : dec v ≠ [] := Nat.toDigits_ne_nil

/-- A number below `10 ^ k` takes at most `k` characters under `%lu`. -/
theorem length_dec_le {v k : ℕ} (hk : 0 < k) (h : v < 10 ^ k) : (dec v).length ≤ k :=
  (Nat.length_toDigits_le_iff (b := 10) (by norm_num) hk).mpr h

/-! ## Digits are ordinary characters -/

/-- No character outside `[0-9A-Fa-f]` is a digit. -/
theorem ne_of_isDigitOf {b : ℕ} (hb : b ≤ 16) {c d : Char} (hc : isDigitOf b c = true)
    (hd : digitVal d = 16) : c ≠ d := by
  rintro rfl
  simp [isDigitOf, hd] at hc
  omega

theorem noNul_of_digits {b : ℕ} (hb : b ≤ 16) {ds : CString}
    (h : ∀ c ∈ ds, isDigitOf b c = true) : NoNul ds :=
  fun hn => ne_of_isDigitOf hb (h nul hn) rfl rfl

theorem noNul_hexPad (w v : ℕ) : NoNul (hexPad w v) :=
  noNul_of_digits le_rfl (isDigitOf_hexPad w v)

theorem noNul_dec (v : ℕ) : NoNul (dec v) := noNul_of_digits (by norm_num) (isDigitOf_dec v)

theorem noNul_decInt (v : ℤ) : NoNul (decInt v) := by
  unfold decInt
  split_ifs
  · intro hmem
    rcases List.mem_cons.mp hmem with hminus | hmem
    · exact absurd hminus (by decide)
    · exact noNul_dec _ hmem
  · exact noNul_dec _

/-! ## `snprintf` -/

/-- A text shorter than the array arrives whole. -/
theorem cstr_snprintf {buf text : CString} {n : ℕ} (hn : NoNul text) (h : text.length < n) :
    cstr (snprintf buf n text) = text := by
  have ht : text.take (n - 1) = text := List.take_of_length_le (by omega)
  rw [snprintf, ht, cstr_strncpy (by simp [strlen, cstr_eq_self hn]), cstr_eq_self hn]

/-- A longer text is cut. -/
theorem strlen_snprintf_le (buf text : CString) (n : ℕ) : strlen (snprintf buf n text) ≤ n - 1 := by
  have hsrc : strlen (text.take (n - 1)) ≤ (text.take (n - 1)).length :=
    (List.takeWhile_prefix _).length_le
  rw [snprintf, strlen, cstr_strncpy (by omega)]
  exact hsrc.trans (List.length_take_le _ _)

end Pcitop.Common
