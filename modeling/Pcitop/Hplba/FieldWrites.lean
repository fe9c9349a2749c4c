import Pcitop.Hplba.Registers

/-!
# Writes to register fields

`_lba_reg32_write` and `_lba_reg64_write` of `drivers/hplba.h` are the same update at two
widths. For values inside their masks it behaves as an assignment to the field.

* `BitField.put_put`, `BitField.put_comm`: writing a field again, and writing two.
* `fieldLaws_lbaRegWrite`: the laws of the update at any width.
-/

namespace Pcitop.Common.BitField

variable {w : ℕ}

/-- Writing a value again changes nothing. -/
theorem put_put {f : BitField w} {value : BitVec w} (hv : f.Holds value) (word : BitVec w) :
    f.put value (f.put value word) = f.put value word := by
  apply BitVec.eq_of_getLsbD_eq
  intro i hi
  rw [getLsbD_put hv _ hi, getLsbD_put hv _ hi]
  split_ifs <;> rfl

/-- Writes to fields without a common bit commute. -/
theorem put_comm {f g : BitField w} {u v : BitVec w} (hu : f.Holds u) (hv : g.Holds v)
    (h : f.bits &&& g.bits = 0) (word : BitVec w) :
    f.put u (g.put v word) = g.put v (f.put u word) := by
  apply BitVec.eq_of_getLsbD_eq
  intro i hi
  have hdisjoint : (f.bits.getLsbD i && g.bits.getLsbD i) = false := by
    have hbit := congrArg (fun b : BitVec w => b.getLsbD i) h
    simpa only [BitVec.getLsbD_and, BitVec.ofNat_eq_ofNat, BitVec.getLsbD_zero] using hbit
  rw [getLsbD_put hu _ hi, getLsbD_put hv _ hi, getLsbD_put hv _ hi, getLsbD_put hu _ hi]
  by_cases hf : f.bits.getLsbD i = true
  · have hg : g.bits.getLsbD i = false := by rwa [hf, Bool.true_and] at hdisjoint
    rw [hf, hg]
    rfl
  · rw [Bool.not_eq_true] at hf
    rw [hf]
    rfl

end Pcitop.Common.BitField

namespace Pcitop.Hplba

open Pcitop.Common

/-- `_lba_reg32_write` (lines 179–185). -/
def lbaReg32Write (reg : LbaReg 32) (value : BitVec 32) (regs : Regs 32) : Regs 32 :=
  lbaRegWrite reg value regs

/-- `_lba_reg64_write` (lines 186–192). -/
def lbaReg64Write (reg : LbaReg 64) (value : BitVec 64) (regs : Regs 64) : Regs 64 :=
  lbaRegWrite reg value regs

variable {w : ℕ}

/-- Two fields have no bit of a register in common. -/
def LbaReg.Disjoint (reg reg' : LbaReg w) : Prop :=
  reg.offset = reg'.offset → reg.field.bits &&& reg'.field.bits = 0

/-- A write is an assignment to the field. -/
structure FieldLaws (write : LbaReg w → BitVec w → Regs w → Regs w) : Prop where
  read_back : ∀ (reg : LbaReg w) (value : BitVec w) (regs : Regs w), reg.field.Holds value →
    lbaReg (write reg value regs) reg = value
  frame : ∀ (reg : LbaReg w) (value : BitVec w) (regs : Regs w), reg.field.Holds value →
    ∀ offset i, ¬ reg.Owns offset i →
      (write reg value regs offset).getLsbD i = (regs offset).getLsbD i
  again : ∀ (reg : LbaReg w) (value : BitVec w) (regs : Regs w), reg.field.Holds value →
    write reg value (write reg value regs) = write reg value regs
  comm : ∀ (reg reg' : LbaReg w) (value value' : BitVec w) (regs : Regs w),
    reg.field.Holds value → reg'.field.Holds value' → reg.Disjoint reg' →
      write reg value (write reg' value' regs) = write reg' value' (write reg value regs)

theorem lbaRegWrite_again {reg : LbaReg w} {value : BitVec w} (hv : reg.field.Holds value)
    (regs : Regs w) :
    lbaRegWrite reg value (lbaRegWrite reg value regs) = lbaRegWrite reg value regs := by
  simp only [lbaRegWrite, Function.update_self, Function.update_idem, BitField.put_put hv]

theorem lbaRegWrite_comm {reg reg' : LbaReg w} {value value' : BitVec w}
    (hv : reg.field.Holds value) (hv' : reg'.field.Holds value') (h : reg.Disjoint reg')
    (regs : Regs w) :
    lbaRegWrite reg value (lbaRegWrite reg' value' regs) =
      lbaRegWrite reg' value' (lbaRegWrite reg value regs) := by
  by_cases ho : reg.offset = reg'.offset
  · -- One register: the bits decide.
    simp only [lbaRegWrite, ho, Function.update_self, Function.update_idem,
      BitField.put_comm hv hv' (h ho)]
  · simp only [lbaRegWrite, Function.update_of_ne ho, Function.update_of_ne (Ne.symm ho)]
    exact Function.update_comm (Ne.symm ho) _ _ _

theorem fieldLaws_lbaRegWrite : FieldLaws (lbaRegWrite (w := w)) where
  read_back _ _ regs hv := lbaReg_write hv regs
  frame _ _ regs hv _ _ ho := getLsbD_lbaRegWrite hv regs ho
  again _ _ regs hv := lbaRegWrite_again hv regs
  comm _ _ _ _ regs hv hv' h := lbaRegWrite_comm hv hv' h regs

/-- The writes to registers of 32 and of 64 bits are assignments to their fields. -/
theorem fieldLaws_lbaRegWrites : FieldLaws lbaReg32Write ∧ FieldLaws lbaReg64Write :=
  ⟨fieldLaws_lbaRegWrite, fieldLaws_lbaRegWrite⟩

end Pcitop.Hplba
