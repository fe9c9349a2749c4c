import Pcitop.Tool.PciAddress

/-!
# The address in the name of an LBA

`name_to_pci_id` reads an address off a name, `hh:hh.h` or `hhhh:hh:hh.h`, and is meant
to tell by its return value whether all four fields were assigned. It compares the number
of items with 4 and 5, one more than its formats have.

* `nameToPciId_fst`: it returns -1 for every name.
* `nameToPciId_of_address`: it assigns the four fields of an address all the same.
* `identifies_iff`: so it tells what it is meant to for the other names only.
-/

namespace Pcitop.Tool

open Pcitop.Common

/-- The number that a string of hexadecimal digits stands for. -/
def hexNumber (ds : CString) : BitVec 32 := BitVec.ofNat 32 (digitsVal 16 ds)

/-- The four fields of an address as `lspci` writes it. -/
def pciAddress : CString → Option PciId
  | [b₁, b₂, ':', a₁, a₂, '.', f] =>
    if [b₁, b₂, a₁, a₂, f].all (isDigitOf 16) then
      some ⟨0, hexNumber [b₁, b₂], hexNumber [a₁, a₂], hexNumber [f]⟩
    else none
  | [d₁, d₂, d₃, d₄, ':', b₁, b₂, ':', a₁, a₂, '.', f] =>
    if [d₁, d₂, d₃, d₄, b₁, b₂, a₁, a₂, f].all (isDigitOf 16) then
      some ⟨hexNumber [d₁, d₂, d₃, d₄], hexNumber [b₁, b₂], hexNumber [a₁, a₂], hexNumber [f]⟩
    else none
  | _ => none

/-- What the return value of `name_to_pci_id` is meant to tell: it is not negative for
    the addresses, whose fields are then all assigned, and -1 for any other name. -/
structure Identifies (name : CString) (id : PciId) : Prop where
  ret : 0 ≤ (nameToPciId name id).1 ↔ (pciAddress (cstr name)).isSome
  fields : ∀ id', pciAddress (cstr name) = some id' → (nameToPciId name id).2 = id'
  other : pciAddress (cstr name) = none → (nameToPciId name id).1 = -1

theorem toNat_hexNumber {ds : CString} (h : ∀ c ∈ ds, isDigitOf 16 c = true)
    (hlen : ds.length ≤ 8) : (hexNumber ds).toNat = digitsVal 16 ds := by
  have hval : digitsVal 16 ds < 2 ^ 32 := by
    calc digitsVal 16 ds < 16 ^ ds.length := digitsVal_lt h
      _ ≤ 16 ^ 8 := Nat.pow_le_pow_right (by norm_num) hlen
      _ = 2 ^ 32 := by norm_num
  rw [hexNumber, BitVec.toNat_ofNat, Nat.mod_eq_of_lt hval]

/-- The domain and bus number `pcicmp` is meant to look at are two of the fields. -/
theorem lspciAddress_eq (s : CString) :
    lspciAddress s = (pciAddress s).map fun id => (id.pciDomain.toNat, id.pciBusid.toNat) := by
  unfold pciAddress
  split
  · next b₁ b₂ a₁ a₂ f =>
    rw [lspciAddress]
    by_cases hdigits : [b₁, b₂, a₁, a₂, f].all (isDigitOf 16) = true
    · rw [if_pos hdigits, if_pos hdigits]
      simp only [List.all_cons, Bool.and_eq_true] at hdigits
      have hbus : (hexNumber [b₁, b₂]).toNat = digitsVal 16 [b₁, b₂] :=
        toNat_hexNumber (by simp [hdigits]) (by simp)
      simp only [Option.map_some, hbus]
      rfl
    · rw [if_neg hdigits, if_neg hdigits]
      rfl
  · next d₁ d₂ d₃ d₄ b₁ b₂ a₁ a₂ f =>
    rw [lspciAddress]
    by_cases hdigits : [d₁, d₂, d₃, d₄, b₁, b₂, a₁, a₂, f].all (isDigitOf 16) = true
    · rw [if_pos hdigits, if_pos hdigits]
      simp only [List.all_cons, Bool.and_eq_true] at hdigits
      have hdomain : (hexNumber [d₁, d₂, d₃, d₄]).toNat = digitsVal 16 [d₁, d₂, d₃, d₄] :=
        toNat_hexNumber (by simp [hdigits]) (by simp)
      have hbus : (hexNumber [b₁, b₂]).toNat = digitsVal 16 [b₁, b₂] :=
        toNat_hexNumber (by simp [hdigits]) (by simp)
      simp only [Option.map_some, hdomain, hbus]
    · rw [if_neg hdigits, if_neg hdigits]
      rfl
  · next hshort hlong =>
    rw [lspciAddress.eq_3 s hshort hlong]
    rfl

/-! ## The return value -/

/-- No call assigns as many items as are asked for. -/
theorem nameToPciId_fst (name : CString) (id : PciId) : (nameToPciId name id).1 = -1 := by
  have hshort : (sscanf shortFmt name).length ≤ 3 := length_sscanf_le shortFmt name
  have hlong : (sscanf longFmt name).length ≤ 4 := length_sscanf_le longFmt name
  unfold nameToPciId
  split_ifs with h7 h12
  · show (if ((sscanf shortFmt name).length : ℤ) ≠ 4 then -1 else _) = (-1 : ℤ)
    rw [if_pos]
    omega
  · show (if ((sscanf longFmt name).length : ℤ) ≠ 5 then -1 else _) = (-1 : ℤ)
    rw [if_pos]
    omega
  · rfl

/-! ## The fields of an address -/

theorem scan_x_digits {w : ℕ} {ds rest : CString} (hw : 0 < w) (hw8 : w ≤ 8)
    (hlen : ds.length = w) (h : ∀ c ∈ ds, isDigitOf 16 c = true) :
    (Conv.x (some w)).scan (ds ++ rest) = some (.uint (hexNumber ds), rest) := by
  rw [scan_x, hexField_digits hw hw8 hlen h]
  rfl

/-- The items of a bus, a device and a function number. -/
theorem runDirectives_shortFmt {b₁ b₂ a₁ a₂ f : Char}
    (h : [b₁, b₂, a₁, a₂, f].all (isDigitOf 16) = true) :
    runDirectives shortFmt [b₁, b₂, ':', a₁, a₂, '.', f] =
      [.uint (hexNumber [b₁, b₂]), .uint (hexNumber [a₁, a₂]), .uint (hexNumber [f])] := by
  simp only [List.all_cons, Bool.and_eq_true] at h
  have hb : (Conv.x (some 2)).scan ([b₁, b₂] ++ [':', a₁, a₂, '.', f]) = _ :=
    scan_x_digits (by norm_num) (by norm_num) rfl (by simp [h])
  have ha : (Conv.x (some 2)).scan ([a₁, a₂] ++ ['.', f]) = _ :=
    scan_x_digits (by norm_num) (by norm_num) rfl (by simp [h])
  have hf : (Conv.x (some 1)).scan ([f] ++ []) = _ :=
    scan_x_digits (by norm_num) (by norm_num) rfl (by simp [h])
  rw [shortFmt]
  apply (runDirectives_conv hb _).trans
  rw [runDirectives_lit]
  apply congrArg (List.cons _)
  apply (runDirectives_conv ha _).trans
  rw [runDirectives_lit]
  apply congrArg (List.cons _)
  exact runDirectives_conv hf []

/-- With a domain number before them. -/
theorem runDirectives_longFmt {d₁ d₂ d₃ d₄ b₁ b₂ a₁ a₂ f : Char}
    (h : [d₁, d₂, d₃, d₄, b₁, b₂, a₁, a₂, f].all (isDigitOf 16) = true) :
    runDirectives longFmt [d₁, d₂, d₃, d₄, ':', b₁, b₂, ':', a₁, a₂, '.', f] =
      [.uint (hexNumber [d₁, d₂, d₃, d₄]), .uint (hexNumber [b₁, b₂]),
        .uint (hexNumber [a₁, a₂]), .uint (hexNumber [f])] := by
  have hshort : [b₁, b₂, a₁, a₂, f].all (isDigitOf 16) = true := by
    simp only [List.all_cons, Bool.and_eq_true] at h ⊢
    exact h.2.2.2.2
  simp only [List.all_cons, Bool.and_eq_true] at h
  have hd : (Conv.x (some 4)).scan ([d₁, d₂, d₃, d₄] ++ [':', b₁, b₂, ':', a₁, a₂, '.', f]) = _ :=
    scan_x_digits (by norm_num) (by norm_num) rfl (by simp [h])
  rw [longFmt]
  apply (runDirectives_conv hd _).trans
  rw [runDirectives_lit, runDirectives_shortFmt hshort]

/-- The fields of an address are all assigned. -/
theorem nameToPciId_of_address {name : CString} {id' : PciId}
    (h : pciAddress (cstr name) = some id') (id : PciId) : (nameToPciId name id).2 = id' := by
  unfold nameToPciId scanShort scanLong sscanf strlen
  generalize cstr name = s at h ⊢
  unfold pciAddress at h
  split at h
  · next b₁ b₂ a₁ a₂ f =>
    split_ifs at h with hdigits
    obtain rfl := Option.some.inj h
    simp only [runDirectives_shortFmt hdigits]
    rfl
  · next d₁ d₂ d₃ d₄ b₁ b₂ a₁ a₂ f =>
    split_ifs at h with hdigits
    obtain rfl := Option.some.inj h
    simp only [runDirectives_longFmt hdigits]
    rfl
  · exact absurd h (by simp)

/-! ## Where the return value tells what it is meant to -/

/-- The return value tells an address from another name for the other names only. -/
theorem identifies_iff (name : CString) (id : PciId) :
    Identifies name id ↔ pciAddress (cstr name) = none := by
  have hret := nameToPciId_fst name id
  constructor
  · intro h
    by_contra haddr
    have hnonneg := h.ret.mpr (Option.isSome_iff_ne_none.mpr haddr)
    omega
  · intro haddr
    refine ⟨?_, ?_, fun _ => hret⟩
    · rw [haddr, hret]
      decide
    · intro id' h
      rw [haddr] at h
      exact absurd h (by simp)

/-- The first address there is. -/
theorem not_identifies_zero : ¬ Identifies "00:00.0".toList ⟨0, 0, 0, 0⟩ := by
  intro h
  have hret : (nameToPciId "00:00.0".toList ⟨0, 0, 0, 0⟩).1 = -1 := by decide
  have haddr : pciAddress (cstr "00:00.0".toList) = some ⟨0, 0, 0, 0⟩ := by decide
  have hnonneg := h.ret.mpr (by rw [haddr]; rfl)
  omega

end Pcitop.Tool
