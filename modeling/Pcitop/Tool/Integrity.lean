import Pcitop.Common.Scanf

/-!
# Cabinets, bays, chassis and slots

Model of `src/integrity.c` and `src/integrity.h`: the name of a slot on an
Integrity machine tells where it is, and `struct integrity_sys_info` collects the
cabinets, bays and chassis seen. A `char` is signed, and an `int` computed here is an
integer: a number of a location is a digit of a `char` (`charDigit_mem`), so that a counter
does not exceed 256 (`num_le_of_listLbas`), and `num_slots` counts the nodes of a list.

* `integrityMatch_eq_zero_iff`: the `integrity_match_*` functions return 0 on a
  match.
-/

namespace Pcitop.Tool

open Pcitop.Common

/-- `INTEGRITY_NONE` (`integrity.h`, line 23). -/
def INTEGRITY_NONE : ℤ := -1

/-- `ENOMEM` of `<errno.h>`. -/
def ENOMEM : ℤ := 12

/-- `struct integrity_sys_info` (`integrity.h`, lines 40–48), with its lists as the
    numbers on them. Its `num_slots` is never used. -/
structure IntegritySysInfo where
  numCabinets : ℤ
  cabinetList : List ℤ
  numBays : ℤ
  bayList : List ℤ
  numChassis : ℤ
  chassisList : List ℤ
  deriving DecidableEq, Repr

/-- `struct integrity_lba_info` (`integrity.h`, lines 50–55). -/
structure IntegrityLbaInfo where
  cabinet : ℤ
  bay : ℤ
  chassis : ℤ
  numSlots : ℤ
  deriving DecidableEq, Repr

/-- `integrity_init_sys_info` (lines 19–27). -/
def integrityInitSysInfo : IntegritySysInfo := ⟨0, [], 0, [], 0, []⟩

/-- `integrity_update_lba_info` (lines 29–35). -/
def integrityUpdateLbaInfo (info : IntegrityLbaInfo) (slotNum : ℤ) : IntegrityLbaInfo :=
  if slotNum ≠ INTEGRITY_NONE then { info with numSlots := info.numSlots + 1 } else info

/-- The calls of `calloc` in `integrity_update_sys_info` that succeed. -/
structure SysInfoMemory where
  cabinet : Bool
  bay : Bool
  chassis : Bool
  deriving DecidableEq, Repr

/-- One of the three blocks of `integrity_update_sys_info`: a number that is not on
    the list is counted and added, if `calloc` succeeds. -/
def addNumber (calloc : Bool) (number : ℤ) (num : ℤ) (list : List ℤ) : Option (ℤ × List ℤ) :=
  if number ∈ list then some (num, list)
  else if calloc then some (num + 1, list ++ [number])
  else none

/-- `integrity_update_sys_info` (lines 37–103). The blocks before a failing one
    have taken effect. -/
def integrityUpdateSysInfo (mem : SysInfoMemory) (lbaInfo : IntegrityLbaInfo)
    (sysInfo : IntegritySysInfo) : ℤ × IntegritySysInfo :=
  match addNumber mem.cabinet lbaInfo.cabinet sysInfo.numCabinets sysInfo.cabinetList with
  | none => (-ENOMEM, sysInfo)
  | some (numCabinets, cabinetList) =>
    let sysInfo := { sysInfo with numCabinets := numCabinets, cabinetList := cabinetList }
    match addNumber mem.bay lbaInfo.bay sysInfo.numBays sysInfo.bayList with
    | none => (-ENOMEM, sysInfo)
    | some (numBays, bayList) =>
      let sysInfo := { sysInfo with numBays := numBays, bayList := bayList }
      match addNumber mem.chassis lbaInfo.chassis sysInfo.numChassis sysInfo.chassisList with
      | none => (-ENOMEM, sysInfo)
      | some (numChassis, chassisList) =>
        (0, { sysInfo with numChassis := numChassis, chassisList := chassisList })

/-! ## Slot names -/

/-- `c - '0'` of a signed `char`. -/
def charDigit (c : Char) : ℤ := (BitVec.ofNat 8 c.toNat).toInt - 48

theorem charDigit_mem (c : Char) : -176 ≤ charDigit c ∧ charDigit c ≤ 79 := by
  have hge := BitVec.le_toInt (BitVec.ofNat 8 c.toNat)
  have hlt := BitVec.toInt_lt (x := BitVec.ofNat 8 c.toNat)
  unfold charDigit
  omega

theorem ite_charDigit_mem (p : Prop) [Decidable p] (c : Char) :
    -176 ≤ (if p then charDigit c else 0) ∧ (if p then charDigit c else 0) ≤ 79 := by
  split_ifs
  · exact charDigit_mem c
  · decide

/-- What `integrity_parse_slot` stores through its four pointers. -/
structure SlotLocation where
  cabinet : ℤ
  chassis : ℤ
  bay : ℤ
  slot : ℤ
  deriving DecidableEq, Repr

/-- `integrity_parse_slot` (lines 122–159). It returns 0 on every path. -/
def integrityParseSlot (slotName : CString) : SlotLocation :=
  let len := strlen slotName
  let s := cstr slotName
  let cabinet := if len = 5 then charDigit (charAt s 0) else 0
  let s := if len = 5 then s.drop 1 else s
  let bay := if len ≥ 4 then charDigit (charAt s 0) else 0
  let s := if len ≥ 4 then s.drop 1 else s
  let chassis := if len ≥ 3 then charDigit (charAt s 0) else 0
  let s := if len ≥ 3 then s.drop 1 else s
  if len ≥ 2 ∧ charAt s 0 ≠ '0' then
    match sscanf [.conv .d] s with
    | [.int slot] => ⟨cabinet, chassis, bay, slot.toInt⟩
    | _ => ⟨cabinet, chassis, bay, 0⟩
  else
    let s := if len ≥ 2 then s.drop 1 else s
    if len ≥ 1 then ⟨cabinet, chassis, bay, charDigit (charAt s 0)⟩
    else ⟨cabinet, chassis, bay, 0⟩

/-- The end of the function, behind the digits of the location. -/
theorem exists_int_parseSlot_end (cabinet chassis bay : ℤ) (len : ℕ) (s : CString) :
    ∃ v : BitVec 32,
      (if len ≥ 2 ∧ charAt s 0 ≠ '0' then
        match sscanf [.conv .d] s with
        | [.int slot] => ⟨cabinet, chassis, bay, slot.toInt⟩
        | _ => ⟨cabinet, chassis, bay, 0⟩
      else
        let s := if len ≥ 2 then s.drop 1 else s
        if len ≥ 1 then ⟨cabinet, chassis, bay, charDigit (charAt s 0)⟩
        else ⟨cabinet, chassis, bay, 0⟩ : SlotLocation) = ⟨cabinet, chassis, bay, v.toInt⟩ := by
  by_cases h2 : len ≥ 2 ∧ charAt s 0 ≠ '0'
  · rw [if_pos h2]
    split
    · exact ⟨_, rfl⟩
    · exact ⟨0, rfl⟩
  · rw [if_neg h2]
    by_cases h1 : len ≥ 1
    · have hdigit := charDigit_mem (charAt (if len ≥ 2 then s.drop 1 else s) 0)
      refine ⟨BitVec.ofInt 32 (charDigit (charAt (if len ≥ 2 then s.drop 1 else s) 0)), ?_⟩
      rw [BitVec.toInt_ofInt, Int.bmod_eq_of_le (by omega) (by omega)]
      simp only [if_pos h1]
    · exact ⟨0, by simp only [if_neg h1]; rfl⟩

/-- The numbers of a slot: three digits of a `char`, and an `int`. -/
theorem parseSlot_numbers (slotName : CString) :
    let loc := integrityParseSlot slotName
    (-176 ≤ loc.cabinet ∧ loc.cabinet ≤ 79) ∧ (-176 ≤ loc.chassis ∧ loc.chassis ≤ 79) ∧
      (-176 ≤ loc.bay ∧ loc.bay ≤ 79) ∧ ∃ v : BitVec 32, loc.slot = v.toInt := by
  let len := strlen slotName
  let s₁ := if len = 5 then (cstr slotName).drop 1 else cstr slotName
  let s₂ := if len ≥ 4 then s₁.drop 1 else s₁
  have hcabinet := ite_charDigit_mem (len = 5) (charAt (cstr slotName) 0)
  have hbay := ite_charDigit_mem (len ≥ 4) (charAt s₁ 0)
  have hchassis := ite_charDigit_mem (len ≥ 3) (charAt s₂ 0)
  obtain ⟨slot, hslot⟩ := exists_int_parseSlot_end
    (if len = 5 then charDigit (charAt (cstr slotName) 0) else 0)
    (if len ≥ 3 then charDigit (charAt s₂ 0) else 0)
    (if len ≥ 4 then charDigit (charAt s₁ 0) else 0) len (if len ≥ 3 then s₂.drop 1 else s₂)
  have hloc : integrityParseSlot slotName = _ := hslot
  intro loc
  rw [show loc = _ from hloc]
  exact ⟨hcabinet, hchassis, hbay, slot, rfl⟩

/-- `integrity_slot_str` (lines 198–205): the text left in `str`. -/
def integritySlotStr (slotName : CString) : CString := decInt (integrityParseSlot slotName).slot

/-- The body that `integrity_cabinet_to_str` and its siblings share. -/
def integrityToStr (v : ℤ) : CString := if v = INTEGRITY_NONE then "n/a".toList else decInt v

/-- `integrity_cabinet_to_str`, `integrity_bay_to_str` and `integrity_chassis_to_str`
    (lines 162–187): the text returned. -/
def integrityCabinetToStr (cabinet : ℤ) : CString := integrityToStr cabinet
def integrityBayToStr (bay : ℤ) : CString := integrityToStr bay
def integrityChassisToStr (chassis : ℤ) : CString := integrityToStr chassis

/-! ## Matching -/

/-- The body that `integrity_match_cabinet` and its siblings share:
    `!(atoi(name) == num)`. -/
def integrityMatch (name : CString) (num : ℤ) : ℤ := if atoi name = num then 0 else 1

/-- `integrity_match_cabinet`, `integrity_match_bay` and `integrity_match_chassis`
    (`integrity.h`, lines 67–78). -/
def integrityMatchCabinet (cabinetName : CString) (cabinetNum : ℤ) : ℤ :=
  integrityMatch cabinetName cabinetNum
def integrityMatchBay (bayName : CString) (bayNum : ℤ) : ℤ := integrityMatch bayName bayNum
def integrityMatchChassis (chassisName : CString) (chassisNum : ℤ) : ℤ :=
  integrityMatch chassisName chassisNum

theorem integrityMatch_eq_zero_iff (name : CString) (num : ℤ) :
    integrityMatch name num = 0 ↔ atoi name = num := by
  unfold integrityMatch
  split_ifs with h <;> simp [h]

end Pcitop.Tool
