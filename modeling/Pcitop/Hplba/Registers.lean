import Pcitop.Common.BitField

/-!
# Register access of `drivers/hplba.h`

`LBA_REG` and `LBA_REG_WRITE` (lines 174–202) address a register by the macros
`REG`, `REG_SHIFT`, `REG_MASK` and `REG_SIZE`; an `LbaReg w` is the four of them
for `REG_SIZE = w`. The device is a map from offsets to cells that behave as
plain memory, so the read-back after a write returns what was written.

* `lbaReg_write`: a field reads back what was written to it.
* `lbaReg_write_of_offset_ne`, `getLsbD_lbaRegWrite`: a write leaves every bit
  outside the field as it was.
-/

namespace Pcitop.Hplba

open Pcitop.Common

/-- The cells of a device, by offset from `phys_addr`. -/
abbrev Regs (w : ℕ) := ℕ → BitVec w

/-- A register field: `REG` and, as a `BitField`, `REG_SHIFT` and `REG_MASK`. -/
structure LbaReg (w : ℕ) where
  offset : ℕ
  field : BitField w

variable {w : ℕ}

/-- `LBA_REG(phys_addr, reg)` (lines 174–177). -/
def lbaReg (regs : Regs w) (reg : LbaReg w) : BitVec w := reg.field.get (regs reg.offset)

/-- `_lba_reg32_write` and `_lba_reg64_write` (lines 179–192), for `w` of 32 and
    64. -/
def lbaRegWrite (reg : LbaReg w) (value : BitVec w) (regs : Regs w) : Regs w :=
  Function.update regs reg.offset (reg.field.put value (regs reg.offset))

/-- Bit `i` of the cell at `offset` belongs to the field. -/
def LbaReg.Owns (reg : LbaReg w) (offset i : ℕ) : Prop :=
  offset = reg.offset ∧ reg.field.bits.getLsbD i = true

@[simp] theorem lbaReg_write {reg : LbaReg w} {value : BitVec w} (hv : reg.field.Holds value)
    (regs : Regs w) : lbaReg (lbaRegWrite reg value regs) reg = value := by
  simp [lbaReg, lbaRegWrite, BitField.get_put hv]

/-- A field of another cell is left alone. -/
theorem lbaReg_write_of_offset_ne {reg reg' : LbaReg w} (h : reg'.offset ≠ reg.offset)
    (value : BitVec w) (regs : Regs w) :
    lbaReg (lbaRegWrite reg value regs) reg' = lbaReg regs reg' := by
  simp [lbaReg, lbaRegWrite, Function.update_of_ne h]

/-- A bit that is not of the field is left alone. -/
theorem getLsbD_lbaRegWrite {reg : LbaReg w} {value : BitVec w} (hv : reg.field.Holds value)
    (regs : Regs w) {offset i : ℕ} (h : ¬ reg.Owns offset i) :
    (lbaRegWrite reg value regs offset).getLsbD i = (regs offset).getLsbD i := by
  by_cases ho : offset = reg.offset
  · subst ho
    have hb : reg.field.bits.getLsbD i = false := by
      by_contra hc
      exact h ⟨rfl, by simpa using hc⟩
    rw [lbaRegWrite, Function.update_self, BitField.getLsbD_put_of_not_mem hv _ hb]
  · rw [lbaRegWrite, Function.update_of_ne ho]

end Pcitop.Hplba
