import Pcitop.Tool.Integrity

/-!
# The names of slots

The comment over `integrity_parse_slot` gives the grammar of a slot name: one to five
digits, of which the last two are the slot and those before them, from right to left,
the chassis, the bay and the cabinet. The function never reports that a name is not of
that form.

* `integrityParseSlot_digits`: names of the grammar are parsed.
* `parsesSlotName_iff`: they are the only ones for which the function does what it
  should.
-/

namespace Pcitop.Tool

open Pcitop.Common

/-- A call of `integrity_parse_slot`: the return value, 0 at both of its `return`
    statements, and what it stores. -/
def integrityParseSlotCall (slotName : CString) : ℤ × SlotLocation :=
  (0, integrityParseSlot slotName)

/-- One to five decimal digits. -/
def SlotGrammar (s : CString) : Prop :=
  1 ≤ s.length ∧ s.length ≤ 5 ∧ ∀ c ∈ s, isDigitOf 10 c = true

instance (s : CString) : Decidable (SlotGrammar s) :=
  decidable_of_iff (1 ≤ s.length ∧ s.length ≤ 5 ∧ s.all (isDigitOf 10) = true)
    (by rw [SlotGrammar, List.all_eq_true])

/-- The digit at a place counted from the right, 0 where there is none. -/
def digitFromRight (s : CString) (k : ℕ) : ℤ := (s.reverse[k]?.map digitVal).getD 0

/-- The location a name of the grammar stands for. -/
def slotLocation (s : CString) : SlotLocation where
  cabinet := digitFromRight s 4
  bay := digitFromRight s 3
  chassis := digitFromRight s 2
  slot := digitsVal 10 (s.drop (s.length - 2))

/-- A name of the grammar is parsed, any other is reported. -/
def ParsesSlotName (slotName : CString) : Prop :=
  if SlotGrammar (cstr slotName) then
    integrityParseSlotCall slotName = (0, slotLocation (cstr slotName))
  else (integrityParseSlotCall slotName).1 ≠ 0

/-! ## Digits -/

/-- The decimal digits and their values. -/
theorem toNat_of_digit {c : Char} (h : isDigitOf 10 c = true) :
    c.toNat = 48 + digitVal c ∧ digitVal c < 10 := by
  have hv : digitVal c < 10 := by simpa [isDigitOf] using h
  refine ⟨?_, hv⟩
  unfold digitVal at hv ⊢
  simp only [Char.le_def, UInt32.le_iff_toNat_le] at hv ⊢
  have h0 : ('0' : Char).val.toNat = 48 := rfl
  have ha : ('a' : Char).val.toNat = 97 := rfl
  have hA : ('A' : Char).val.toNat = 65 := rfl
  rw [h0, ha, hA] at hv ⊢
  have hc : c.toNat = c.val.toNat := rfl
  split_ifs at hv ⊢ with h1 h2 h3 <;> omega

theorem charDigit_of_digit {c : Char} (h : isDigitOf 10 c = true) : charDigit c = digitVal c := by
  obtain ⟨hc, hv⟩ := toNat_of_digit h
  have hnat : (BitVec.ofNat 8 c.toNat).toInt = (c.toNat : ℤ) := by
    rw [BitVec.toInt_eq_toNat_of_lt] <;> rw [BitVec.toNat_ofNat] <;> omega
  rw [charDigit, hnat]
  omega

theorem charAt_cons_zero {c : Char} (hc : c ≠ nul) (s : CString) : charAt (c :: s) 0 = c := by
  simp [charAt, cstr, hc]

/-- `"%d"` reads two digits. -/
theorem sscanf_d_digits {s : CString} (hne : s ≠ []) (h : ∀ c ∈ s, isDigitOf 10 c = true)
    (hval : digitsVal 10 s < 2 ^ 63) :
    sscanf [.conv .d] s = [.int (BitVec.ofInt 32 (digitsVal 10 s))] := by
  have hscan : Conv.d.scan (s ++ []) = some (.int (BitVec.ofInt 32 (digitsVal 10 s)), []) :=
    scan_d_digits hne h hval (by simpa using endsNumber_nil 10)
  rw [List.append_nil] at hscan
  rw [sscanf, cstr_eq_self (noNul_of_digits (by norm_num) h), runDirectives_conv hscan,
    runDirectives_nil]

theorem ne_nul_of_digit {c : Char} (h : isDigitOf 10 c = true) : c ≠ nul :=
  ne_of_isDigitOf (by norm_num) h rfl

/-- The value of two digits. -/
theorem digitsVal_two (a b : Char) : digitsVal 10 [a, b] = 10 * digitVal a + digitVal b := by
  simp [digitsVal]

/-- It fits in an `int`. -/
theorem toInt_two_digits {a b : Char} (ha : isDigitOf 10 a = true) (hb : isDigitOf 10 b = true) :
    (BitVec.ofInt 32 (digitsVal 10 [a, b])).toInt = digitsVal 10 [a, b] := by
  obtain ⟨-, hva⟩ := toNat_of_digit ha
  obtain ⟨-, hvb⟩ := toNat_of_digit hb
  rw [digitsVal_two, BitVec.toInt_ofInt]
  apply Int.bmod_eq_of_le <;> omega

/-! ## Names of the grammar -/

section Parse

variable {a b : Char}

/-- The slot: a leading zero is skipped, and else `sscanf` reads both digits. -/
theorem parse_slot_digits (cabinet chassis bay : ℤ) (ha : isDigitOf 10 a = true)
    (hb : isDigitOf 10 b = true) :
    (if charAt [a, b] 0 = '0' then ⟨cabinet, chassis, bay, charDigit (charAt [b] 0)⟩
    else
      match sscanf [.conv .d] [a, b] with
      | [.int slot] => ⟨cabinet, chassis, bay, slot.toInt⟩
      | _ => ⟨cabinet, chassis, bay, 0⟩ : SlotLocation) =
      ⟨cabinet, chassis, bay, digitsVal 10 [a, b]⟩ := by
  have hdigits : ∀ c ∈ [a, b], isDigitOf 10 c = true := by simp [ha, hb]
  rw [charAt_cons_zero (ne_nul_of_digit ha), charAt_cons_zero (ne_nul_of_digit hb)]
  split_ifs with h0
  · have hzero : digitVal a = 0 := by
      rw [h0]
      rfl
    rw [charDigit_of_digit hb, digitsVal_two, hzero]
    simp
  · have hval : digitsVal 10 [a, b] < 2 ^ 63 := by
      obtain ⟨-, hva⟩ := toNat_of_digit ha
      obtain ⟨-, hvb⟩ := toNat_of_digit hb
      rw [digitsVal_two]
      omega
    rw [sscanf_d_digits (List.cons_ne_nil a [b]) hdigits hval]
    simp only [toInt_two_digits ha hb]

/-- The cabinet, the bay and the chassis are the digits before these. -/
theorem integrityParseSlot_append {slotName front : CString} (hs : cstr slotName = front ++ [a, b])
    (hlen : front.length ≤ 3) (h : ∀ c ∈ front ++ [a, b], isDigitOf 10 c = true) :
    integrityParseSlot slotName = slotLocation (front ++ [a, b]) := by
  have ha : isDigitOf 10 a = true := h a (by simp)
  have hb : isDigitOf 10 b = true := h b (by simp)
  have hfront : ∀ c ∈ front, ∀ t, charDigit (charAt (c :: t) 0) = digitVal c := by
    intro c hc t
    have hd := h c (by simp [hc])
    rw [charAt_cons_zero (ne_nul_of_digit hd), charDigit_of_digit hd]
  have hslot := fun cabinet chassis bay => parse_slot_digits cabinet chassis bay ha hb
  -- One case for each length of a name.
  rcases front with _ | ⟨c, _ | ⟨d, _ | ⟨e, _ | ⟨f, front⟩⟩⟩⟩
  · simp [integrityParseSlot, strlen, hs, slotLocation, digitFromRight]
    exact hslot 0 0 0
  · simp [integrityParseSlot, strlen, hs, slotLocation, digitFromRight, hfront c (by simp)]
    exact hslot 0 (digitVal c) 0
  · simp [integrityParseSlot, strlen, hs, slotLocation, digitFromRight, hfront c (by simp),
      hfront d (by simp)]
    exact hslot 0 (digitVal d) (digitVal c)
  · simp [integrityParseSlot, strlen, hs, slotLocation, digitFromRight, hfront c (by simp),
      hfront d (by simp), hfront e (by simp)]
    exact hslot (digitVal c) (digitVal e) (digitVal d)
  · simp at hlen
    omega

theorem integrityParseSlot_singleton {slotName : CString} (hs : cstr slotName = [a])
    (ha : isDigitOf 10 a = true) : integrityParseSlot slotName = slotLocation [a] := by
  simp [integrityParseSlot, strlen, hs, slotLocation, digitFromRight, digitsVal,
    charAt_cons_zero (ne_nul_of_digit ha), charDigit_of_digit ha]

end Parse

/-- A name of the grammar is parsed. -/
theorem integrityParseSlot_digits {slotName : CString} (h : SlotGrammar (cstr slotName)) :
    integrityParseSlot slotName = slotLocation (cstr slotName) := by
  obtain ⟨hmin, hmax, hdigits⟩ := h
  rcases List.eq_nil_or_concat (cstr slotName) with hnil | ⟨s, b, hs⟩
  · rw [hnil] at hmin
    exact absurd hmin (by decide)
  · rcases List.eq_nil_or_concat s with rfl | ⟨front, a, rfl⟩
    · rw [hs] at hdigits ⊢
      exact integrityParseSlot_singleton hs (hdigits b (by simp))
    · have hfront : cstr slotName = front ++ [a, b] := by simp [hs]
      rw [hfront] at hmax hdigits ⊢
      refine integrityParseSlot_append hfront ?_ hdigits
      rw [List.length_append, List.length_cons, List.length_singleton] at hmax
      omega

/-- The function does what it should for the names of the grammar only. -/
theorem parsesSlotName_iff (slotName : CString) :
    ParsesSlotName slotName ↔ SlotGrammar (cstr slotName) := by
  unfold ParsesSlotName
  split_ifs with h
  · refine iff_of_true ?_ h
    rw [integrityParseSlotCall, integrityParseSlot_digits h]
  · exact iff_of_false (fun hret => hret rfl) h

/-- The name the kernel gives a second slot `1` is taken for a slot that collides with
    `INTEGRITY_NONE`. -/
theorem not_parsesSlotName_duplicate :
    ¬ ParsesSlotName "1-1".toList ∧
      integrityParseSlotCall "1-1".toList = (0, ⟨0, 1, 0, INTEGRITY_NONE⟩) := by
  have hgrammar : ¬ SlotGrammar (cstr "1-1".toList) := by decide
  refine ⟨fun h => ?_, rfl⟩
  rw [ParsesSlotName, if_neg hgrammar] at h
  exact h rfl

end Pcitop.Tool
