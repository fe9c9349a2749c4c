import Pcitop.Common.Printf
import Pcitop.Hplba.Names
import Pcitop.Hplba.Registers

/-!
# The chips: Apollo, Gemini and Mercury

`apollo.c`, `gemini.c` and `mercury.c` program the utilization counters in the
same way and differ in their register maps. A `UtilRegs` is such a map, with the
facts that make its writes independent of each other: the three fields lie in
different registers and hold the values written to them.

* `programmed_utilInit`, `lbaReg_diagEn0_utilInit`: what `util_init` leaves in
  the fields.
* `utilInit_frame`, `en0_write_frame`: the operations change no other bit.
* `Chip.utilization_eq`: the driver shows the low 48 bits of the counter registers.
-/

namespace Pcitop.Driver

open Pcitop.Common Pcitop.Hplba

/-- The register map behind the utilization operations of a chip. -/
structure UtilRegs where
  /-- `DIAG_EN0` -/
  diagEn0 : LbaReg 64
  /-- `CTRL0A_ALWAYS_CNT` -/
  ctrl0aAlwaysCnt : LbaReg 64
  /-- `DIAG_CTRL1` -/
  diagCtrl1 : LbaReg 64
  /-- The value `util_init` writes to `DIAG_CTRL1`. -/
  ctrl1Value : BitVec 64
  /-- `DIAG_CTRL0_TIMER` -/
  diagCtrl0Timer : LbaReg 64
  /-- `DIAG_CTRL1_CNTR1` -/
  diagCtrl1Cntr1 : LbaReg 64
  en0_ne_ctrl0a : diagEn0.offset ≠ ctrl0aAlwaysCnt.offset
  en0_ne_ctrl1 : diagEn0.offset ≠ diagCtrl1.offset
  ctrl0a_ne_ctrl1 : ctrl0aAlwaysCnt.offset ≠ diagCtrl1.offset
  en0_mask : diagEn0.field.mask = 0xf
  ctrl0a_holds : ctrl0aAlwaysCnt.field.Holds 0x1
  ctrl1_holds : diagCtrl1.field.Holds ctrl1Value

/-- A field at bit 0. -/
def lowField (mask : BitVec 64) : BitField 64 where
  shift := 0
  mask := mask
  fits := by simp

/-- `APOLLO_DIAG_CTRL1_SHIFT` and `APOLLO_DIAG_CTRL1_MASK`. -/
def apolloCtrl1Field : BitField 64 where
  shift := 33
  mask := 0x3
  fits := by decide

/-- `apollo.h` (lines 50–73) and the value in `apollo_util_init`. -/
def apolloRegs : UtilRegs where
  diagEn0 := ⟨0x0500, lowField 0xf⟩
  ctrl0aAlwaysCnt := ⟨0x0508, lowField 0x1⟩
  diagCtrl1 := ⟨0x0538, apolloCtrl1Field⟩
  ctrl1Value := 0x3
  diagCtrl0Timer := ⟨0x0550, lowField 0xffffffffffff⟩
  diagCtrl1Cntr1 := ⟨0x0558, lowField 0xffffffffffff⟩
  en0_ne_ctrl0a := by decide
  en0_ne_ctrl1 := by decide
  ctrl0a_ne_ctrl1 := by decide
  en0_mask := rfl
  ctrl0a_holds := by decide
  ctrl1_holds := by decide

/-- `gemini.h` (lines 55–78) and the value in `gemini_util_init`. -/
def geminiRegs : UtilRegs where
  diagEn0 := ⟨0x0500, lowField 0xf⟩
  ctrl0aAlwaysCnt := ⟨0x0508, lowField 0x1⟩
  diagCtrl1 := ⟨0x0528, lowField (-1)⟩
  ctrl1Value := 0x797900ff001f043c
  diagCtrl0Timer := ⟨0x0530, lowField 0xffffffffffff⟩
  diagCtrl1Cntr1 := ⟨0x0538, lowField 0xffffffffffff⟩
  en0_ne_ctrl0a := by decide
  en0_ne_ctrl1 := by decide
  ctrl0a_ne_ctrl1 := by decide
  en0_mask := rfl
  ctrl0a_holds := by decide
  ctrl1_holds := by decide

/-- `mercury.h` (lines 55–78) and the value in `mercury_util_init`. -/
def mercuryRegs : UtilRegs where
  diagEn0 := ⟨0x0500, lowField 0xf⟩
  ctrl0aAlwaysCnt := ⟨0x0508, lowField 0x1⟩
  diagCtrl1 := ⟨0x0510, lowField (-1)⟩
  ctrl1Value := 0x797900ff001f043c
  diagCtrl0Timer := ⟨0x0518, lowField 0xffffffffffff⟩
  diagCtrl1Cntr1 := ⟨0x0520, lowField 0xffffffffffff⟩
  en0_ne_ctrl0a := by decide
  en0_ne_ctrl1 := by decide
  ctrl0a_ne_ctrl1 := by decide
  en0_mask := rfl
  ctrl0a_holds := by decide
  ctrl1_holds := by decide

/-! ## The operations -/

/-- The `util_init` functions: stop counting, count always, select the events. -/
def utilInit (m : UtilRegs) (regs : Regs 64) : ℤ × Regs 64 :=
  let regs := lbaRegWrite m.diagEn0 0 regs
  let regs := lbaRegWrite m.ctrl0aAlwaysCnt 0x1 regs
  let regs := lbaRegWrite m.diagCtrl1 m.ctrl1Value regs
  (0, regs)

/-- The `util_reset` functions. -/
def utilReset (m : UtilRegs) (regs : Regs 64) : ℤ × Regs 64 :=
  (0, lbaRegWrite m.diagEn0 0xf regs)

/-- The `util_start` functions. -/
def utilStart (m : UtilRegs) (regs : Regs 64) : ℤ × Regs 64 :=
  (0, lbaRegWrite m.diagEn0 0x3 regs)

/-- The `util_stop` functions. -/
def utilStop (m : UtilRegs) (regs : Regs 64) : ℤ × Regs 64 :=
  (0, lbaRegWrite m.diagEn0 0x0 regs)

/-- The `utilization` functions: `*timer` and `*cntr`. -/
def utilization (m : UtilRegs) (regs : Regs 64) : BitVec 64 × BitVec 64 :=
  (lbaReg regs m.diagCtrl0Timer, lbaReg regs m.diagCtrl1Cntr1)

/-- `struct lba_util_ops` (`hplba.h`, lines 228–233), over a device of type `σ`. -/
structure LbaUtilOps (σ : Type) where
  utilInit : σ → ℤ × σ
  utilReset : σ → ℤ × σ
  utilStart : σ → ℤ × σ
  utilStop : σ → ℤ × σ

/-- `apollo_util_init` (`apollo.c`, lines 74–81). -/
def apolloUtilInit : Regs 64 → ℤ × Regs 64 := utilInit apolloRegs

/-- `apollo_util_reset` (`apollo.c`, lines 83–88). -/
def apolloUtilReset : Regs 64 → ℤ × Regs 64 := utilReset apolloRegs

/-- `apollo_util_start` (`apollo.c`, lines 90–95). -/
def apolloUtilStart : Regs 64 → ℤ × Regs 64 := utilStart apolloRegs

/-- `apollo_util_stop` (`apollo.c`, lines 97–102). -/
def apolloUtilStop : Regs 64 → ℤ × Regs 64 := utilStop apolloRegs

/-- `apollo_utilization` (`apollo.c`, lines 104–110). -/
def apolloUtilization : Regs 64 → BitVec 64 × BitVec 64 := utilization apolloRegs

/-- `apollo_util_ops` (`apollo.c`, lines 112–117). -/
def apolloUtilOps : LbaUtilOps (Regs 64) :=
  ⟨apolloUtilInit, apolloUtilReset, apolloUtilStart, apolloUtilStop⟩

/-- `gemini_util_init` (`gemini.c`, lines 110–117). -/
def geminiUtilInit : Regs 64 → ℤ × Regs 64 := utilInit geminiRegs

/-- `gemini_util_reset` (`gemini.c`, lines 119–124). -/
def geminiUtilReset : Regs 64 → ℤ × Regs 64 := utilReset geminiRegs

/-- `gemini_util_start` (`gemini.c`, lines 126–131). -/
def geminiUtilStart : Regs 64 → ℤ × Regs 64 := utilStart geminiRegs

/-- `gemini_util_stop` (`gemini.c`, lines 133–138). -/
def geminiUtilStop : Regs 64 → ℤ × Regs 64 := utilStop geminiRegs

/-- `gemini_utilization` (`gemini.c`, lines 140–146). -/
def geminiUtilization : Regs 64 → BitVec 64 × BitVec 64 := utilization geminiRegs

/-- `gemini_util_ops` (`gemini.c`, lines 148–153). -/
def geminiUtilOps : LbaUtilOps (Regs 64) :=
  ⟨geminiUtilInit, geminiUtilReset, geminiUtilStart, geminiUtilStop⟩

/-- `mercury_util_init` (`mercury.c`, lines 109–115). -/
def mercuryUtilInit : Regs 64 → ℤ × Regs 64 := utilInit mercuryRegs

/-- `mercury_util_reset` (`mercury.c`, lines 117–122). -/
def mercuryUtilReset : Regs 64 → ℤ × Regs 64 := utilReset mercuryRegs

/-- `mercury_util_start` (`mercury.c`, lines 124–129). -/
def mercuryUtilStart : Regs 64 → ℤ × Regs 64 := utilStart mercuryRegs

/-- `mercury_util_stop` (`mercury.c`, lines 131–135). -/
def mercuryUtilStop : Regs 64 → ℤ × Regs 64 := utilStop mercuryRegs

/-- `mercury_utilization` (`mercury.c`, lines 137–143). -/
def mercuryUtilization : Regs 64 → BitVec 64 × BitVec 64 := utilization mercuryRegs

/-- `mercury_util_ops` (`mercury.c`, lines 145–150). -/
def mercuryUtilOps : LbaUtilOps (Regs 64) :=
  ⟨mercuryUtilInit, mercuryUtilReset, mercuryUtilStart, mercuryUtilStop⟩

/-- The chips of `lba_info_tab` (`hplba_drv.c`, lines 85–89). -/
inductive Chip where
  | apollo | gemini | mercury
  deriving DecidableEq, Repr

def Chip.regs : Chip → UtilRegs
  | .apollo => apolloRegs
  | .gemini => geminiRegs
  | .mercury => mercuryRegs

def Chip.utilOps : Chip → LbaUtilOps (Regs 64)
  | .apollo => apolloUtilOps
  | .gemini => geminiUtilOps
  | .mercury => mercuryUtilOps

def Chip.utilization : Chip → Regs 64 → BitVec 64 × BitVec 64
  | .apollo => apolloUtilization
  | .gemini => geminiUtilization
  | .mercury => mercuryUtilization

/-- The three tables of operations are the common ones over the chip's map. -/
theorem Chip.utilOps_eq (chip : Chip) :
    chip.utilOps = ⟨Driver.utilInit chip.regs, Driver.utilReset chip.regs,
      Driver.utilStart chip.regs, Driver.utilStop chip.regs⟩ := by
  cases chip <;> rfl

/-! ## What the operations leave behind -/

theorem UtilRegs.en0_holds (m : UtilRegs) {value : BitVec 64} (h : value &&& 0xf = value) :
    m.diagEn0.field.Holds value := by
  rw [BitField.Holds, m.en0_mask]
  exact h

/-- The bits the utilization operations may change. -/
def UtilRegs.Owns (m : UtilRegs) (offset i : ℕ) : Prop :=
  m.diagEn0.Owns offset i ∨ m.ctrl0aAlwaysCnt.Owns offset i ∨ m.diagCtrl1.Owns offset i

/-- The counters are set up as `util_init` does it. -/
def Programmed (m : UtilRegs) (regs : Regs 64) : Prop :=
  lbaReg regs m.ctrl0aAlwaysCnt = 0x1 ∧ lbaReg regs m.diagCtrl1 = m.ctrl1Value

/-- A write to `DIAG_EN0` does not touch the set-up of the counters. -/
theorem programmed_en0_write {m : UtilRegs} {regs : Regs 64} (h : Programmed m regs)
    (value : BitVec 64) : Programmed m (lbaRegWrite m.diagEn0 value regs) := by
  unfold Programmed
  rw [lbaReg_write_of_offset_ne m.en0_ne_ctrl0a.symm, lbaReg_write_of_offset_ne m.en0_ne_ctrl1.symm]
  exact h

theorem programmed_utilInit (m : UtilRegs) (regs : Regs 64) :
    Programmed m (utilInit m regs).2 := by
  refine ⟨?_, ?_⟩
  · simp only [utilInit]
    rw [lbaReg_write_of_offset_ne m.ctrl0a_ne_ctrl1, lbaReg_write m.ctrl0a_holds]
  · simp only [utilInit]
    rw [lbaReg_write m.ctrl1_holds]

theorem lbaReg_diagEn0_utilInit (m : UtilRegs) (regs : Regs 64) :
    lbaReg (utilInit m regs).2 m.diagEn0 = 0 := by
  simp only [utilInit]
  rw [lbaReg_write_of_offset_ne m.en0_ne_ctrl1, lbaReg_write_of_offset_ne m.en0_ne_ctrl0a,
    lbaReg_write (m.en0_holds (by decide))]

/-- A write to `DIAG_EN0` changes no bit outside the fields of the map. -/
theorem en0_write_frame {m : UtilRegs} {value : BitVec 64} (hv : value &&& 0xf = value)
    (regs : Regs 64) {offset i : ℕ} (h : ¬ m.Owns offset i) :
    (lbaRegWrite m.diagEn0 value regs offset).getLsbD i = (regs offset).getLsbD i :=
  getLsbD_lbaRegWrite (m.en0_holds hv) regs fun ho => h (.inl ho)

theorem utilInit_frame {m : UtilRegs} (regs : Regs 64) {offset i : ℕ} (h : ¬ m.Owns offset i) :
    ((utilInit m regs).2 offset).getLsbD i = (regs offset).getLsbD i := by
  simp only [utilInit]
  rw [getLsbD_lbaRegWrite m.ctrl1_holds _ fun ho => h (.inr (.inr ho)),
    getLsbD_lbaRegWrite m.ctrl0a_holds _ fun ho => h (.inr (.inl ho)),
    getLsbD_lbaRegWrite (m.en0_holds (by decide)) _ fun ho => h (.inl ho)]

/-! ## The counters -/

/-- Masking with 48 ones keeps the count modulo `2 ^ 48`. -/
theorem get_lowField_48 (word : BitVec 64) :
    (lowField 0xffffffffffff).get word = BitVec.ofNat 64 (word.toNat % 2 ^ 48) := by
  apply BitVec.eq_of_toNat_eq
  have hmask : (0xffffffffffff : BitVec 64).toNat = 2 ^ 48 - 1 := by decide
  have hlt : word.toNat % 2 ^ 48 < 2 ^ 64 := (Nat.mod_lt _ (by norm_num)).trans (by norm_num)
  rw [BitField.get, lowField, BitVec.ushiftRight_zero, BitVec.toNat_and, hmask,
    Nat.and_two_pow_sub_one_eq_mod, BitVec.toNat_ofNat, Nat.mod_eq_of_lt hlt]

/-- The driver shows the low 48 bits of the timer and of the busy counter. -/
theorem Chip.utilization_eq (chip : Chip) (regs : Regs 64) :
    chip.utilization regs =
      (BitVec.ofNat 64 ((regs chip.regs.diagCtrl0Timer.offset).toNat % 2 ^ 48),
        BitVec.ofNat 64 ((regs chip.regs.diagCtrl1Cntr1.offset).toNat % 2 ^ 48)) := by
  cases chip <;> exact Prod.ext (get_lowField_48 _) (get_lowField_48 _)

end Pcitop.Driver
