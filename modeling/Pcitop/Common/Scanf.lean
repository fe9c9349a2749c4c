import Pcitop.Common.Printf

/-!
# `sscanf`, `strtoul` and `atoi`

A format is a list of directives: literal characters and conversions. `sscanf`
returns the values it assigned, in order, so that the number of items is the
length of the list (a return of `EOF` shows as no items). As ISO C has it, a
conversion takes the longest prefix of the input that begins a matching
sequence, and fails when that prefix is not one itself: `0x` with no digit
after it is no number.

* `scan_x_hexPad`: `%wx` reads back the text of `%0wx`, whatever follows it.
* `scan_lu_dec`: `%lu` reads back the text of `%lu` when no digit follows it.
* `length_sscanf_le`: a format assigns no more items than it has conversions.
* `sscanf_lits_of_not_prefix`: a format assigns nothing to an input that does
  not start with its leading literal characters.
-/

namespace Pcitop.Common

/-- `isspace` of the C locale. -/
def isspace (c : Char) : Bool := c == ' ' || ('\t' ≤ c && c ≤ '\r')

/-- The optional sign of a number: whether it is `-`, and what follows. -/
def scanSign : CString → Bool × CString
  | '-' :: s => (true, s)
  | '+' :: s => (false, s)
  | s => (false, s)

/-- The optional `0x` or `0X` of a number in base 16. -/
def skipHexPrefix : ℕ → CString → CString
  | 16, '0' :: 'x' :: s => s
  | 16, '0' :: 'X' :: s => s
  | _, s => s

/-- A number in base `b` of at most `width` characters after white space: its
    sign, its magnitude and the rest of the input. A `0x` without a digit after it is a
    matching failure, as ISO C has it; glibc reads it as 0. -/
def scanNumeral (b width : ℕ) (s : CString) : Option (Bool × ℕ × CString) :=
  let s := s.dropWhile isspace
  let field := s.take width
  let sign := scanSign field
  let body := skipHexPrefix b sign.2
  let ds := body.takeWhile (isDigitOf b)
  if ds = [] then none
  else some (sign.1, digitsVal b ds, s.drop (field.length - body.length + ds.length))

/-- The value of `strtoul`: `ULONG_MAX` when out of range, and the negation in
    `unsigned long` after a minus sign. -/
def strtoulValue (neg : Bool) (mag : ℕ) : BitVec 64 :=
  if 2 ^ 64 ≤ mag then BitVec.allOnes 64
  else if neg then -BitVec.ofNat 64 mag else BitVec.ofNat 64 mag

/-- The value of `strtol`: clamped to the range of `long`. -/
def strtolValue (neg : Bool) (mag : ℕ) : ℤ :=
  if neg then max (-(mag : ℤ)) (-2 ^ 63) else min (mag : ℤ) (2 ^ 63 - 1)

/-- The conversions, with their maximum field widths. -/
inductive Conv where
  /-- `%x` into an `unsigned int` -/
  | x (width : Option ℕ)
  /-- `%d` into an `int` -/
  | d
  /-- `%lu` into an `unsigned long` -/
  | lu
  /-- `%s` into a `char` array -/
  | s (width : Option ℕ)
  deriving DecidableEq, Repr

/-- A directive of a format. -/
inductive Directive where
  | lit (c : Char)
  | conv (k : Conv)
  deriving DecidableEq, Repr

/-- A value assigned by a conversion. -/
inductive Value where
  | uint (v : BitVec 32)
  | int (v : BitVec 32)
  | ulong (v : BitVec 64)
  | str (s : CString)
  deriving DecidableEq, Repr

/-- The literal characters of a format. -/
def lits (s : CString) : List Directive := s.map .lit

/-- One conversion: the value it assigns and the rest of the input. -/
def Conv.scan : Conv → CString → Option (Value × CString)
  | .x width, inp => (scanNumeral 16 (width.getD inp.length) inp).map fun r =>
      (.uint ((strtoulValue r.1 r.2.1).setWidth 32), r.2.2)
  | .d, inp => (scanNumeral 10 inp.length inp).map fun r =>
      (.int (BitVec.ofInt 32 (strtolValue r.1 r.2.1)), r.2.2)
  | .lu, inp => (scanNumeral 10 inp.length inp).map fun r =>
      (.ulong (strtoulValue r.1 r.2.1), r.2.2)
  | .s width, inp =>
    let inp := inp.dropWhile isspace
    let word := (inp.take (width.getD inp.length)).takeWhile (fun c => !isspace c)
    if word = [] then none else some (.str word, inp.drop word.length)

/-- The directives carried out in order up to the first that fails. -/
def runDirectives : List Directive → CString → List Value
  | [], _ => []
  | .lit _ :: _, [] => []
  | .lit c :: fs, a :: s => if a = c then runDirectives fs s else []
  | .conv k :: fs, s =>
    match k.scan s with
    | none => []
    | some (v, s) => v :: runDirectives fs s

/-- The directive assigns a value when it is carried out. -/
def Directive.isConv : Directive → Bool
  | .lit _ => false
  | .conv _ => true

/-- `sscanf`: the values assigned. -/
def sscanf (fmt : List Directive) (s : CString) : List Value := runDirectives fmt (cstr s)

/-- The `i`-th variable of a call whose conversions are all `%x`: assigned by the
    call, or still what it held. -/
def assignUint (vals : List Value) (i : ℕ) (old : BitVec 32) : BitVec 32 :=
  match vals[i]? with
  | some (.uint v) => v
  | _ => old

/-- `atoi`: `strtol` in base 10, converted to `int`. -/
def atoi (s : CString) : ℤ :=
  let sign := scanSign ((cstr s).dropWhile isspace)
  (BitVec.ofInt 32 (strtolValue sign.1 (digitsVal 10 (sign.2.takeWhile (isDigitOf 10))))).toInt

/-- The base of a number and its digits: hexadecimal after `0x`, octal after `0`. -/
def detectBase : CString → ℕ × CString
  | '0' :: 'x' :: s => (16, s)
  | '0' :: 'X' :: s => (16, s)
  | '0' :: s => (8, '0' :: s)
  | s => (10, s)

/-- `strtol` in base 0. -/
def strtol0 (s : CString) : ℤ :=
  let sign := scanSign ((cstr s).dropWhile isspace)
  let num := detectBase sign.2
  strtolValue sign.1 (digitsVal num.1 (num.2.takeWhile (isDigitOf num.1)))

/-- `strtoul` in base 10. -/
def strtoul10 (s : CString) : BitVec 64 :=
  let sign := scanSign ((cstr s).dropWhile isspace)
  strtoulValue sign.1 (digitsVal 10 (sign.2.takeWhile (isDigitOf 10)))

/-! ## Scanning digits -/

/-- What may stand after a number for it to end there: the field is full, or the
    next character is neither a digit nor an `x`. -/
def EndsNumber (b : ℕ) (rest : CString) : Prop :=
  ∀ c ∈ rest.head?, isDigitOf b c = false ∧ c ≠ 'x' ∧ c ≠ 'X'

theorem isDigitOf_not_isspace {b : ℕ} (hb : b ≤ 16) {c : Char} (h : isDigitOf b c = true) :
    isspace c = false := by
  by_contra hs
  have hs : isspace c = true := by simpa using hs
  have hv : digitVal c = 16 := by
    simp only [isspace, Bool.or_eq_true, Bool.and_eq_true, decide_eq_true_eq, beq_iff_eq] at hs
    rcases hs with rfl | ⟨h1, h2⟩
    · rfl
    · have h3 : c.toNat ≤ 13 := h2
      simp only [digitVal]
      rw [if_neg (fun h => by have : 48 ≤ c.toNat := h.1; omega),
        if_neg (fun h => by have : 97 ≤ c.toNat := h.1; omega),
        if_neg (fun h => by have : 65 ≤ c.toNat := h.1; omega)]
  exact ne_of_isDigitOf hb h hv rfl

theorem dropWhile_isspace_digits {b : ℕ} (hb : b ≤ 16) {ds : CString} (hne : ds ≠ [])
    (h : ∀ c ∈ ds, isDigitOf b c = true) (rest : CString) :
    (ds ++ rest).dropWhile isspace = ds ++ rest := by
  obtain ⟨c, ds, rfl⟩ := List.exists_cons_of_ne_nil hne
  have := isDigitOf_not_isspace hb (h c (by simp))
  simp [this]

theorem scanSign_digits {b : ℕ} (hb : b ≤ 16) {ds : CString} (hne : ds ≠ [])
    (h : ∀ c ∈ ds, isDigitOf b c = true) (rest : CString) :
    scanSign (ds ++ rest) = (false, ds ++ rest) := by
  obtain ⟨c, ds, rfl⟩ := List.exists_cons_of_ne_nil hne
  have hc := h c (by simp)
  have h1 : c ≠ '-' := ne_of_isDigitOf hb hc rfl
  have h2 : c ≠ '+' := ne_of_isDigitOf hb hc rfl
  rw [List.cons_append, scanSign.eq_3]
  · rintro s ⟨⟩; exact h1 rfl
  · rintro s ⟨⟩; exact h2 rfl

theorem skipHexPrefix_digits {b : ℕ} (hb : b ≤ 16) {ds : CString} (hne : ds ≠ [])
    (h : ∀ c ∈ ds, isDigitOf b c = true) {rest : CString} (hrest : EndsNumber b rest) :
    skipHexPrefix b (ds ++ rest) = ds ++ rest := by
  have hsnd : ∀ c d s, ds ++ rest = c :: d :: s → d ≠ 'x' ∧ d ≠ 'X' := by
    intro c d s hs
    match ds, hne, h, hs with
    | [a], _, _, hs =>
      have : rest.head? = some d := by simp_all
      exact (hrest d this).2
    | a :: a' :: ds, _, h, hs =>
      have : a' = d := by simp_all
      subst this
      have hd := h a' (by simp)
      exact ⟨ne_of_isDigitOf hb hd rfl, ne_of_isDigitOf hb hd rfl⟩
  unfold skipHexPrefix
  split
  · rename_i _ s hs; exact absurd rfl (hsnd _ _ _ hs).1
  · rename_i _ s hs; exact absurd rfl (hsnd _ _ _ hs).2
  · rfl

theorem takeWhile_isDigitOf {b : ℕ} {ds rest : CString}
    (h : ∀ c ∈ ds, isDigitOf b c = true) (hrest : EndsNumber b rest) :
    (ds ++ rest).takeWhile (isDigitOf b) = ds := by
  rw [List.takeWhile_append_of_pos h]
  cases rest with
  | nil => simp
  | cons c rest => simp [(hrest c rfl).1]

/-- A digit string followed by something else is read as its value. -/
theorem scanNumeral_digits {b w : ℕ} (hb : b ≤ 16) {ds rest : CString} (hne : ds ≠ [])
    (h : ∀ c ∈ ds, isDigitOf b c = true) (hw : ds.length ≤ w)
    (hrest : EndsNumber b (rest.take (w - ds.length))) :
    scanNumeral b w (ds ++ rest) = some (false, digitsVal b ds, rest) := by
  have hfield : (ds ++ rest).take w = ds ++ rest.take (w - ds.length) := by
    rw [List.take_append, List.take_of_length_le hw]
  unfold scanNumeral
  simp only [dropWhile_isspace_digits hb hne h, hfield, scanSign_digits hb hne h,
    skipHexPrefix_digits hb hne h hrest, takeWhile_isDigitOf h hrest, Nat.sub_self, Nat.zero_add,
    List.drop_left', if_neg hne]

theorem length_scanSign_le (s : CString) : (scanSign s).2.length ≤ s.length := by
  unfold scanSign
  split <;> simp

theorem length_skipHexPrefix_le (b : ℕ) (s : CString) :
    (skipHexPrefix b s).length ≤ s.length := by
  unfold skipHexPrefix
  split <;> simp <;> omega

/-- A numeral has no more digits than its width. -/
theorem scanNumeral_lt {b w mag : ℕ} (hb : 0 < b) {s rest : CString} {neg : Bool}
    (h : scanNumeral b w s = some (neg, mag, rest)) : mag < b ^ w := by
  unfold scanNumeral at h
  simp only at h
  split_ifs at h
  obtain ⟨-, hmag, -⟩ := by simpa only [Option.some.injEq, Prod.mk.injEq] using h
  generalize hbody : skipHexPrefix b (scanSign ((s.dropWhile isspace).take w)).2 = body at hmag
  have hlen : (body.takeWhile (isDigitOf b)).length ≤ w := by
    calc (body.takeWhile (isDigitOf b)).length ≤ body.length :=
        (List.takeWhile_sublist _).length_le
      _ ≤ (scanSign ((s.dropWhile isspace).take w)).2.length := by
        rw [← hbody]
        exact length_skipHexPrefix_le b _
      _ ≤ ((s.dropWhile isspace).take w).length := length_scanSign_le _
      _ ≤ w := List.length_take_le ..
  rw [← hmag]
  exact (digitsVal_lt fun c hc => List.mem_takeWhile_imp hc).trans_le
    (Nat.pow_le_pow_right hb hlen)

theorem endsNumber_nil (b : ℕ) : EndsNumber b [] := by
  intro c hc
  simp at hc

/-- A number ends before a character that is no digit and no `x`. -/
theorem endsNumber_cons {b : ℕ} (hb : b ≤ 16) {c : Char} (hc : digitVal c = 16) (h1 : c ≠ 'x')
    (h2 : c ≠ 'X') (rest : CString) (k : ℕ) : EndsNumber b ((c :: rest).take k) := by
  intro d hd
  cases k with
  | zero => simp at hd
  | succ k =>
    have hcd : c = d := by simpa using hd
    subst hcd
    refine ⟨?_, h1, h2⟩
    simp [isDigitOf, hc]
    omega

/-! ## Reading back what was printed -/

theorem strtoulValue_of_lt {v : ℕ} (h : v < 2 ^ 64) :
    strtoulValue false v = BitVec.ofNat 64 v := by
  rw [strtoulValue, if_neg (by omega)]
  simp

/-- `%wx` reads back `%0wx`. -/
theorem scan_x_hexPad {w v : ℕ} (hw : 0 < w) (h : v < 16 ^ w) (hw8 : w ≤ 8) (rest : CString) :
    (Conv.x (some w)).scan (hexPad w v ++ rest) = some (.uint (BitVec.ofNat 32 v), rest) := by
  have hlen := length_hexPad hw h
  have hv : v < 2 ^ 64 := by
    calc v < 16 ^ w := h
      _ ≤ 16 ^ 8 := Nat.pow_le_pow_right (by norm_num) hw8
      _ ≤ 2 ^ 64 := by norm_num
  have hscan : scanNumeral 16 w (hexPad w v ++ rest) = some (false, v, rest) := by
    rw [scanNumeral_digits le_rfl (hexPad_ne_nil w v) (isDigitOf_hexPad w v) hlen.le
      (by rw [hlen, Nat.sub_self, List.take_zero]; exact endsNumber_nil 16), digitsVal_hexPad]
  simp only [Conv.scan, Option.getD_some, hscan, Option.map_some, strtoulValue_of_lt hv]
  rw [BitVec.setWidth_ofNat_of_le (by norm_num)]

/-- `%d` reads a string of digits up to something else. -/
theorem scan_d_digits {ds rest : CString} (hne : ds ≠ []) (h : ∀ c ∈ ds, isDigitOf 10 c = true)
    (hval : digitsVal 10 ds < 2 ^ 63) (hrest : ∀ k, EndsNumber 10 (rest.take k)) :
    Conv.d.scan (ds ++ rest) = some (.int (BitVec.ofInt 32 (digitsVal 10 ds)), rest) := by
  have hscan : scanNumeral 10 (ds ++ rest).length (ds ++ rest) =
      some (false, digitsVal 10 ds, rest) :=
    scanNumeral_digits (by norm_num) hne h (by simp) (hrest _)
  have hclamp : strtolValue false (digitsVal 10 ds) = digitsVal 10 ds := by
    rw [strtolValue, if_neg (by decide), min_eq_left]
    omega
  simp only [Conv.scan, hscan, Option.map_some, hclamp]

/-- `%lu` reads back `%lu`. -/
theorem scan_lu_dec {v : ℕ} (h : v < 2 ^ 64) (rest : CString)
    (hrest : ∀ k, EndsNumber 10 (rest.take k)) :
    Conv.lu.scan (dec v ++ rest) = some (.ulong (BitVec.ofNat 64 v), rest) := by
  have hscan : scanNumeral 10 (dec v ++ rest).length (dec v ++ rest) = some (false, v, rest) := by
    rw [scanNumeral_digits (by norm_num) (dec_ne_nil v) (isDigitOf_dec v) (by simp) (hrest _),
      digitsVal_dec]
  simp only [Conv.scan, hscan, Option.map_some, strtoulValue_of_lt h]

/-- `%x` reads a string of hexadecimal digits to its end. -/
theorem scan_x_toDigits {v : ℕ} (h : v < 2 ^ 32) :
    (Conv.x none).scan (Nat.toDigits 16 v) = some (.uint (BitVec.ofNat 32 v), []) := by
  have hscan : scanNumeral 16 (Nat.toDigits 16 v).length (Nat.toDigits 16 v ++ []) =
      some (false, digitsVal 16 (Nat.toDigits 16 v), []) :=
    scanNumeral_digits le_rfl Nat.toDigits_ne_nil (isDigitOf_toDigits (by norm_num) le_rfl v)
      le_rfl (by simp [endsNumber_nil])
  rw [List.append_nil, digitsVal_toDigits (by norm_num) le_rfl] at hscan
  have hv : v < 2 ^ 64 := h.trans (by norm_num)
  simp only [Conv.scan, Option.getD_none, hscan, Option.map_some, strtoulValue_of_lt hv]
  rw [BitVec.setWidth_ofNat_of_le (by norm_num)]

/-! ## `strtol`, `strtoul` and `atoi` -/

theorem dropWhile_isspace_decInt (v : ℤ) : (decInt v).dropWhile isspace = decInt v := by
  unfold decInt
  split_ifs
  · rfl
  · have hdrop := dropWhile_isspace_digits (by norm_num) (dec_ne_nil v.toNat)
      (isDigitOf_dec v.toNat) []
    rwa [List.append_nil] at hdrop

theorem scanSign_decInt (v : ℤ) : scanSign (decInt v) = (decide (v < 0), dec v.natAbs) := by
  unfold decInt
  split_ifs with h
  · rw [scanSign, decide_eq_true h]
  · have hscan := scanSign_digits (by norm_num) (dec_ne_nil v.toNat) (isDigitOf_dec v.toNat) []
    rw [List.append_nil] at hscan
    rw [hscan, decide_eq_false h]
    congr 2
    omega

theorem takeWhile_dec (n : ℕ) : (dec n).takeWhile (isDigitOf 10) = dec n := by
  have hwhile := takeWhile_isDigitOf (isDigitOf_dec n) (endsNumber_nil 10)
  rwa [List.append_nil] at hwhile

theorem strtolValue_natAbs {v : ℤ} (h : -2 ^ 63 ≤ v) (h' : v < 2 ^ 63) :
    strtolValue (decide (v < 0)) v.natAbs = v := by
  unfold strtolValue
  by_cases hneg : v < 0
  · rw [decide_eq_true hneg, if_pos rfl]
    omega
  · rw [decide_eq_false hneg, if_neg Bool.false_ne_true]
    omega

/-- The text of a number that is not zero has no leading zero. -/
theorem head?_dec_ne {n : ℕ} (h : n ≠ 0) : (dec n).head? ≠ some '0' := by
  induction n using Nat.strong_induction_on with
  | _ n ih =>
    unfold dec
    rcases Nat.lt_or_ge n 10 with hlt | hge
    · rw [Nat.toDigits_of_lt_base hlt]
      interval_cases n <;> first | exact absurd rfl h | decide
    · have hdiv : n / 10 ≠ 0 := by omega
      rw [Nat.toDigits_of_base_le (by norm_num) hge,
        List.head?_append_of_ne_nil _ Nat.toDigits_ne_nil]
      exact ih _ (Nat.div_lt_self (by omega) (by norm_num)) hdiv

theorem detectBase_dec {n : ℕ} (h : n ≠ 0) : detectBase (dec n) = (10, dec n) := by
  have hhead := head?_dec_ne h
  generalize dec n = s at hhead
  unfold detectBase
  split <;> first | exact absurd rfl hhead | rfl

/-- `strtol` in base 0 reads back `%d`. -/
theorem strtol0_decInt {s : CString} {v : ℤ} (hs : cstr s = decInt v) (h : -2 ^ 63 ≤ v)
    (h' : v < 2 ^ 63) : strtol0 s = v := by
  rw [strtol0, hs, dropWhile_isspace_decInt, scanSign_decInt]
  by_cases hz : v.natAbs = 0
  · obtain rfl : v = 0 := Int.natAbs_eq_zero.mp hz
    decide
  · simp only [detectBase_dec hz, takeWhile_dec, digitsVal_dec, strtolValue_natAbs h h']

/-- `atoi` reads back `%d` of an `int`. -/
theorem atoi_decInt {s : CString} {v : ℤ} (hs : cstr s = decInt v) (h : -2 ^ 31 ≤ v)
    (h' : v < 2 ^ 31) : atoi s = v := by
  have hvalue : strtolValue (decide (v < 0)) v.natAbs = v :=
    strtolValue_natAbs (by omega) (by omega)
  rw [atoi, hs, dropWhile_isspace_decInt, scanSign_decInt]
  simp only [takeWhile_dec, digitsVal_dec, hvalue]
  rw [BitVec.toInt_ofInt]
  exact Int.bmod_eq_of_le (by omega) (by omega)

theorem decInt_natCast (v : ℕ) : decInt v = dec v := by
  rw [decInt, if_neg (by omega), Int.toNat_natCast]

theorem atoi_dec {s : CString} {v : ℕ} (hs : cstr s = dec v) (h : v < 2 ^ 31) : atoi s = v :=
  atoi_decInt (hs.trans (decInt_natCast v).symm) (by omega) (by omega)

/-- `strtoul` in base 10 reads back `%lu`. -/
theorem strtoul10_dec {s : CString} {n : ℕ} (hs : cstr s = dec n) (h : n < 2 ^ 64) :
    (strtoul10 s).toNat = n := by
  rw [strtoul10, hs, ← decInt_natCast, dropWhile_isspace_decInt, scanSign_decInt,
    decide_eq_false (by omega : ¬ (n : ℤ) < 0)]
  simp only [Int.natAbs_natCast, takeWhile_dec, digitsVal_dec, strtoulValue_of_lt h]
  rw [BitVec.toNat_ofNat, Nat.mod_eq_of_lt h]

/-! ## The number of items -/

/-- A call assigns at most one value a conversion. -/
theorem length_runDirectives_le (fs : List Directive) (s : CString) :
    (runDirectives fs s).length ≤ fs.countP Directive.isConv := by
  induction fs generalizing s with
  | nil => simp [runDirectives]
  | cons f fs ih =>
    cases f with
    | lit c =>
      rw [List.countP_cons_of_neg Bool.false_ne_true]
      cases s with
      | nil => exact Nat.zero_le _
      | cons a s =>
        rw [runDirectives]
        split_ifs
        · exact ih s
        · exact Nat.zero_le _
    | conv k =>
      rw [List.countP_cons_of_pos rfl, runDirectives]
      cases k.scan s with
      | none => exact Nat.zero_le _
      | some r => exact Nat.succ_le_succ (ih r.2)

theorem length_sscanf_le (fmt : List Directive) (s : CString) :
    (sscanf fmt s).length ≤ fmt.countP Directive.isConv :=
  length_runDirectives_le fmt (cstr s)

/-! ## Formats that start with literal characters -/

theorem runDirectives_lits (p : CString) (fs : List Directive) (s : CString) :
    runDirectives (lits p ++ fs) (p ++ s) = runDirectives fs s := by
  induction p with
  | nil => rfl
  | cons c p ih => simpa [lits, runDirectives] using ih

theorem runDirectives_lits_of_not_prefix {p s : CString} (h : ¬ p <+: s) (fs : List Directive) :
    runDirectives (lits p ++ fs) s = [] := by
  induction p generalizing s with
  | nil => exact absurd (List.nil_prefix) h
  | cons c p ih =>
    cases s with
    | nil => rfl
    | cons a s =>
      simp only [lits, List.map_cons, List.cons_append, runDirectives]
      split_ifs with hac
      · subst hac
        exact ih fun hp => h (by simpa using hp)
      · rfl

theorem sscanf_lits_of_not_prefix {p s : CString} (h : ¬ p <+: s) (fs : List Directive) :
    sscanf (lits p ++ fs) s = [] :=
  runDirectives_lits_of_not_prefix
    (fun hp => h (hp.trans (List.takeWhile_prefix _))) fs

@[simp] theorem runDirectives_nil (s : CString) : runDirectives [] s = [] := rfl

theorem runDirectives_lit (c : Char) (fs : List Directive) (s : CString) :
    runDirectives (.lit c :: fs) (c :: s) = runDirectives fs s := by
  simp [runDirectives]

theorem runDirectives_conv {k : Conv} {s s' : CString} {v : Value} (h : k.scan s = some (v, s'))
    (fs : List Directive) : runDirectives (.conv k :: fs) s = v :: runDirectives fs s' := by
  simp [runDirectives, h]

end Pcitop.Common
