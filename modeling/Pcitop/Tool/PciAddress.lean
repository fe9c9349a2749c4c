import Pcitop.Tool.PciId

/-!
# Addresses given by the user

`pcicmp` is meant to compare an `lspci` address, `hh:hh.h` or `hhhh:hh:hh.h`, with the
domain and bus number of an LBA. It scans any string of 7 or 12 characters and looks at
its variables whatever was assigned, so the leading fields alone decide.

* `pcicmp_eq_zero_iff`: a match is one of the leading fields.
* `leadingFields_of_address`: in an address they are its domain and bus number.
* `matchesAddress_iff`: the strings for which `pcicmp` does what it is meant to, and for
  each string the pairs.
-/

namespace Pcitop.Tool

open Pcitop.Common

/-- The domain and bus number of an address as `lspci` writes it. -/
def lspciAddress : CString → Option (ℕ × ℕ)
  | [b₁, b₂, ':', a₁, a₂, '.', f] =>
    if [b₁, b₂, a₁, a₂, f].all (isDigitOf 16) then some (0, digitsVal 16 [b₁, b₂]) else none
  | [d₁, d₂, d₃, d₄, ':', b₁, b₂, ':', a₁, a₂, '.', f] =>
    if [d₁, d₂, d₃, d₄, b₁, b₂, a₁, a₂, f].all (isDigitOf 16) then
      some (digitsVal 16 [d₁, d₂, d₃, d₄], digitsVal 16 [b₁, b₂])
    else none
  | _ => none

/-- A match is reported for the addresses with that domain and bus number only. -/
def MatchesAddress (locals : PciId) (pciaddr : CString) (domain : BitVec 16)
    (busId : BitVec 32) : Prop :=
  pcicmp locals pciaddr domain busId = 0 ↔
    lspciAddress (cstr pciaddr) = some (domain.toNat, busId.toNat)

/-! ## The leading fields -/

/-- The number at the start of a string that `%wx` reads, and the rest of the string. -/
def hexField (w : ℕ) (s : CString) : Option (BitVec 32 × CString) :=
  (scanNumeral 16 w s).map fun r => ((strtoulValue r.1 r.2.1).setWidth 32, r.2.2)

/-- The bus number at the start of a string, `old` if there is no number. -/
def busField (old : BitVec 32) (s : CString) : BitVec 32 :=
  ((hexField 2 s).map Prod.fst).getD old

/-- The bus number after a colon, `old` if there is no colon. -/
def busAfterColon (old : BitVec 32) : CString → BitVec 32
  | ':' :: s => busField old s
  | _ => old

/-- The domain and bus number of a long address; a field that is no number, and those after
    it, have what the variables held. -/
def longFields (locals : PciId) (s : CString) : BitVec 32 × BitVec 32 :=
  match hexField 4 s with
  | none => (locals.pciDomain, locals.pciBusid)
  | some (d, rest) => (d, busAfterColon locals.pciBusid rest)

/-- The domain and bus number that a string of 7 or 12 characters begins with. -/
def leadingFields (locals : PciId) (pciaddr : CString) : Option (BitVec 32 × BitVec 32) :=
  if strlen pciaddr = 7 then some (0, busField locals.pciBusid (cstr pciaddr))
  else if strlen pciaddr = 12 then some (longFields locals (cstr pciaddr))
  else none

theorem scan_x (w : ℕ) (s : CString) :
    (Conv.x (some w)).scan s = (hexField w s).map fun r => (.uint r.1, r.2) := by
  rw [Conv.scan, hexField, Option.map_map]
  rfl

/-- The first variable of a scan that starts with `%wx`. -/
theorem assignUint_x (w : ℕ) (fs : List Directive) (s : CString) (old : BitVec 32) :
    assignUint (runDirectives (.conv (.x (some w)) :: fs) s) 0 old =
      ((hexField w s).map Prod.fst).getD old := by
  rw [runDirectives, scan_x]
  cases hexField w s with
  | none => rfl
  | some r => rfl

theorem scanShort_busid (pciaddr : CString) (locals : PciId) :
    (scanShort pciaddr locals).pciBusid = busField locals.pciBusid (cstr pciaddr) :=
  assignUint_x 2 _ _ _

/-- The second variable of a scan with `longFmt`, after the first. -/
theorem assignUint_colon (d : BitVec 32) (s : CString) (old : BitVec 32) :
    assignUint (.uint d :: runDirectives (.lit ':' :: shortFmt) s) 1 old =
      busAfterColon old s := by
  cases s with
  | nil => rfl
  | cons c s =>
    by_cases hc : c = ':'
    · rw [hc, runDirectives_lit]
      exact assignUint_x 2 shortFmt.tail s old
    · rw [runDirectives, if_neg hc, busAfterColon.eq_2]
      · rfl
      · intro s' h
        exact hc (List.cons.inj h).1

theorem scanLong_fields (pciaddr : CString) (locals : PciId) :
    ((scanLong pciaddr locals).pciDomain, (scanLong pciaddr locals).pciBusid) =
      longFields locals (cstr pciaddr) := by
  rw [scanLong, sscanf, longFmt, runDirectives, scan_x, longFields]
  cases hexField 4 (cstr pciaddr) with
  | none => rfl
  | some r => exact Prod.ext rfl (assignUint_colon r.1 r.2 locals.pciBusid)

/-- `pcicmp` compares the leading fields. -/
theorem pcicmp_eq_zero_iff (locals : PciId) (pciaddr : CString) (domain : BitVec 16)
    (busId : BitVec 32) :
    pcicmp locals pciaddr domain busId = 0 ↔
      leadingFields locals pciaddr = some (domain.setWidth 32, busId) := by
  have hzero : ∀ p : Prop, [Decidable p] → ((if p then 0 else 1 : ℤ) = 0 ↔ p) := by
    intro p _
    rw [ite_eq_left_iff, imp_iff_not one_ne_zero, not_not]
  unfold pcicmp leadingFields
  split_ifs with h7 h12
  · rw [hzero, scanShort_busid, Option.some_inj, Prod.mk.injEq]
  · rw [hzero, ← scanLong_fields, Option.some_inj, Prod.mk.injEq]
  · simp

/-! ## Addresses -/

/-- A field of hexadecimal digits. -/
theorem hexField_digits {w : ℕ} {ds rest : CString} (hw : 0 < w) (hw8 : w ≤ 8)
    (hlen : ds.length = w) (h : ∀ c ∈ ds, isDigitOf 16 c = true) :
    hexField w (ds ++ rest) = some (BitVec.ofNat 32 (digitsVal 16 ds), rest) := by
  have hne : ds ≠ [] := List.ne_nil_of_length_pos (by omega)
  have hscan : scanNumeral 16 w (ds ++ rest) = some (false, digitsVal 16 ds, rest) :=
    scanNumeral_digits le_rfl hne h hlen.le
      (by rw [hlen, Nat.sub_self, List.take_zero]; exact endsNumber_nil 16)
  have hval : digitsVal 16 ds < 2 ^ 64 := by
    calc digitsVal 16 ds < 16 ^ ds.length := digitsVal_lt h
      _ ≤ 16 ^ 8 := Nat.pow_le_pow_right (by norm_num) (by omega)
      _ ≤ 2 ^ 64 := by norm_num
  rw [hexField, hscan, Option.map_some, strtoulValue_of_lt hval,
    BitVec.setWidth_ofNat_of_le (by norm_num)]

theorem busField_digits (old : BitVec 32) {ds rest : CString} (hlen : ds.length = 2)
    (h : ∀ c ∈ ds, isDigitOf 16 c = true) :
    busField old (ds ++ rest) = BitVec.ofNat 32 (digitsVal 16 ds) := by
  rw [busField, hexField_digits (by norm_num) (by norm_num) hlen h]
  rfl

theorem longFields_digits (locals : PciId) {ds bs rest : CString} (hds : ds.length = 4)
    (hdigits : ∀ c ∈ ds, isDigitOf 16 c = true) (hbs : bs.length = 2)
    (hbus : ∀ c ∈ bs, isDigitOf 16 c = true) :
    longFields locals (ds ++ ':' :: (bs ++ rest)) =
      (BitVec.ofNat 32 (digitsVal 16 ds), BitVec.ofNat 32 (digitsVal 16 bs)) := by
  rw [longFields, hexField_digits (by norm_num) (by norm_num) hds hdigits]
  exact Prod.ext rfl (busField_digits _ hbs hbus)

/-- The leading fields of an address are its domain and bus number. -/
theorem leadingFields_of_address {pciaddr : CString} {m n : ℕ}
    (h : lspciAddress (cstr pciaddr) = some (m, n)) (locals : PciId) :
    leadingFields locals pciaddr = some (BitVec.ofNat 32 m, BitVec.ofNat 32 n) ∧
      m < 2 ^ 16 ∧ n < 2 ^ 8 := by
  unfold leadingFields strlen
  generalize cstr pciaddr = s at h ⊢
  unfold lspciAddress at h
  split at h
  · next b₁ b₂ a₁ a₂ f =>
    split_ifs at h with hdigits
    obtain ⟨rfl, rfl⟩ := Prod.mk.inj (Option.some.inj h)
    simp only [List.all_cons, Bool.and_eq_true] at hdigits
    have hbus : ∀ c ∈ [b₁, b₂], isDigitOf 16 c = true := by simp [hdigits]
    have hlt : digitsVal 16 [b₁, b₂] < 16 ^ 2 := digitsVal_lt hbus
    refine ⟨?_, by norm_num, by omega⟩
    have hfield : busField locals.pciBusid ([b₁, b₂] ++ [':', a₁, a₂, '.', f]) = _ :=
      busField_digits _ rfl hbus
    exact congrArg some (Prod.ext rfl hfield)
  · next d₁ d₂ d₃ d₄ b₁ b₂ a₁ a₂ f =>
    split_ifs at h with hdigits
    obtain ⟨rfl, rfl⟩ := Prod.mk.inj (Option.some.inj h)
    simp only [List.all_cons, Bool.and_eq_true] at hdigits
    have hdomain : ∀ c ∈ [d₁, d₂, d₃, d₄], isDigitOf 16 c = true := by simp [hdigits]
    have hbus : ∀ c ∈ [b₁, b₂], isDigitOf 16 c = true := by simp [hdigits]
    have hlt : digitsVal 16 [b₁, b₂] < 16 ^ 2 := digitsVal_lt hbus
    have hlt' : digitsVal 16 [d₁, d₂, d₃, d₄] < 16 ^ 4 := digitsVal_lt hdomain
    refine ⟨?_, by omega, by omega⟩
    have hfields : longFields locals
        ([d₁, d₂, d₃, d₄] ++ ':' :: ([b₁, b₂] ++ [':', a₁, a₂, '.', f])) = _ :=
      longFields_digits locals rfl hdomain rfl hbus
    exact congrArg some hfields
  · exact absurd h (by simp)

/-- Two numbers that fit are those of an LBA. -/
theorem leadingFields_eq_iff {m n : ℕ} (hm : m < 2 ^ 16) (hn : n < 2 ^ 32) {domain : BitVec 16}
    {busId : BitVec 32} :
    some (BitVec.ofNat 32 m, BitVec.ofNat 32 n) = some (domain.setWidth 32, busId) ↔
      domain.toNat = m ∧ busId.toNat = n := by
  have hdomain := domain.isLt
  rw [Option.some_inj, Prod.mk.injEq, ← BitVec.toNat_inj, ← BitVec.toNat_inj, BitVec.toNat_ofNat,
    BitVec.toNat_ofNat, BitVec.toNat_setWidth, Nat.mod_eq_of_lt (by omega : m < 2 ^ 32),
    Nat.mod_eq_of_lt hn, Nat.mod_eq_of_lt (by omega : domain.toNat < 2 ^ 32)]
  exact and_congr eq_comm eq_comm

/-! ## Where `pcicmp` does what it is meant to -/

/-- An address is compared as it should be. -/
theorem matchesAddress_of_address {pciaddr : CString}
    (h : (lspciAddress (cstr pciaddr)).isSome) (locals : PciId) (domain : BitVec 16)
    (busId : BitVec 32) : MatchesAddress locals pciaddr domain busId := by
  obtain ⟨⟨m, n⟩, hmn⟩ := Option.isSome_iff_exists.mp h
  obtain ⟨hfields, hm, hn⟩ := leadingFields_of_address hmn locals
  rw [MatchesAddress, pcicmp_eq_zero_iff, hfields, hmn,
    leadingFields_eq_iff hm (by omega : n < 2 ^ 32), Option.some_inj, Prod.mk.injEq]
  exact and_congr eq_comm eq_comm

/-- Another string should match nothing. -/
theorem matchesAddress_of_other {pciaddr : CString} (h : lspciAddress (cstr pciaddr) = none)
    (locals : PciId) (domain : BitVec 16) (busId : BitVec 32) :
    MatchesAddress locals pciaddr domain busId ↔
      leadingFields locals pciaddr ≠ some (domain.setWidth 32, busId) := by
  rw [MatchesAddress, pcicmp_eq_zero_iff, h]
  simp

/-- The domain field is a negative number. -/
def NegativeDomain (s : CString) : Prop :=
  ∃ mag rest, scanNumeral 16 4 s = some (true, mag, rest) ∧ mag ≠ 0

/-- A domain field that is a negative number is no 16-bit number, any other is. -/
theorem hexField_four {s rest : CString} {v : BitVec 32} (h : hexField 4 s = some (v, rest)) :
    NegativeDomain s ↔ 2 ^ 16 ≤ v.toNat := by
  unfold hexField at h
  obtain ⟨⟨neg, mag, rest'⟩, hscan, hv⟩ := Option.map_eq_some_iff.mp h
  have hmag : mag < 16 ^ 4 := scanNumeral_lt (by norm_num) hscan
  have hneg : NegativeDomain s ↔ neg = true ∧ mag ≠ 0 := by
    constructor
    · rintro ⟨m, r, hs, hm⟩
      rw [hscan] at hs
      obtain ⟨rfl, rfl, -⟩ := by simpa only [Option.some.injEq, Prod.mk.injEq] using hs
      exact ⟨rfl, hm⟩
    · rintro ⟨rfl, hm⟩
      exact ⟨mag, rest', hscan, hm⟩
  have hrange : ¬ 2 ^ 64 ≤ mag := by omega
  rw [hneg, ← (Prod.mk.inj hv).1, BitVec.toNat_setWidth, strtoulValue, if_neg hrange]
  cases neg with
  | false =>
    simp only [Bool.false_eq_true, false_and, if_false, BitVec.toNat_ofNat, false_iff]
    omega
  | true =>
    simp only [true_and, if_true, BitVec.toNat_neg, BitVec.toNat_ofNat]
    omega

/-- Some LBA has the leading fields of a string of 7 or 12 characters, unless its domain
    field is a negative number. -/
theorem exists_leadingFields_iff (pciaddr : CString) :
    (∃ (locals : PciId) (domain : BitVec 16) (busId : BitVec 32),
        leadingFields locals pciaddr = some (domain.setWidth 32, busId)) ↔
      strlen pciaddr = 7 ∨ strlen pciaddr = 12 ∧ ¬ NegativeDomain (cstr pciaddr) := by
  unfold leadingFields
  split_ifs with h7 h12
  · refine iff_of_true ⟨⟨0, 0, 0, 0⟩, 0, busField 0 (cstr pciaddr), rfl⟩ (.inl h7)
  · simp only [eq_true h12, eq_false h7, false_or, true_and, Option.some.injEq]
    unfold longFields
    cases hfield : hexField 4 (cstr pciaddr) with
    | none =>
      refine iff_of_true ⟨⟨0, 0, 0, 0⟩, 0, 0, rfl⟩ ?_
      rintro ⟨mag, rest, hscan, -⟩
      rw [hexField, hscan] at hfield
      exact absurd hfield (by simp)
    | some r =>
      rw [hexField_four hfield, not_le]
      constructor
      · rintro ⟨locals, domain, busId, h⟩
        have := congrArg BitVec.toNat (Prod.mk.inj h).1
        rw [BitVec.toNat_setWidth] at this
        have := domain.isLt
        omega
      · intro h
        refine ⟨⟨0, 0, 0, 0⟩, r.1.setWidth 16, busAfterColon 0 r.2, Prod.ext ?_ rfl⟩
        apply BitVec.eq_of_toNat_eq
        simp only [BitVec.toNat_setWidth]
        omega
  · simp [h7, h12]

/-- `pcicmp` does what it is meant to for all LBAs and whatever its variables hold if and
    only if the string is an address, or has neither 7 nor 12 characters, or has 12 of which
    the first are a negative number. For any other string it goes wrong for the LBAs with
    the leading fields of the string, and for no others. -/
theorem matchesAddress_iff (pciaddr : CString) :
    ((∀ (locals : PciId) (domain : BitVec 16) (busId : BitVec 32),
      MatchesAddress locals pciaddr domain busId) ↔
        (lspciAddress (cstr pciaddr)).isSome ∨
          strlen pciaddr ≠ 7 ∧ (strlen pciaddr = 12 → NegativeDomain (cstr pciaddr))) ∧
    ∀ (locals : PciId) (domain : BitVec 16) (busId : BitVec 32),
      MatchesAddress locals pciaddr domain busId ↔
        (lspciAddress (cstr pciaddr)).isSome ∨
          leadingFields locals pciaddr ≠ some (domain.setWidth 32, busId) := by
  cases haddr : lspciAddress (cstr pciaddr) with
  | some p =>
    have hsome : (lspciAddress (cstr pciaddr)).isSome := by rw [haddr, Option.isSome_some]
    have hmatch := matchesAddress_of_address hsome
    refine ⟨?_, fun locals domain busId => ?_⟩
    · exact iff_of_true hmatch (.inl rfl)
    · exact iff_of_true (hmatch locals domain busId) (.inl rfl)
  | none =>
    have hmatch := matchesAddress_of_other haddr
    simp only [hmatch, Option.isSome_none, Bool.false_eq_true, false_or]
    refine ⟨?_, fun _ _ _ => trivial⟩
    have hexists := not_congr (exists_leadingFields_iff pciaddr)
    simp only [not_exists, not_or, not_and, not_not] at hexists
    exact hexists

/-- A string of 7 characters that is no address, and matches an LBA. -/
theorem not_matchesAddress_noDot : ¬ MatchesAddress ⟨0, 0, 0, 0⟩ "00:0000".toList 0 0 := by
  have hcmp : pcicmp ⟨0, 0, 0, 0⟩ "00:0000".toList 0 0 = 0 := by decide
  have haddr : lspciAddress (cstr "00:0000".toList) = none := by decide
  intro h
  have h := h.mp hcmp
  rw [haddr] at h
  exact absurd h (by simp)

end Pcitop.Tool
