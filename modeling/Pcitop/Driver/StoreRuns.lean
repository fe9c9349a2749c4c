import Pcitop.Common.Ladder
import Pcitop.Driver.UtilState

/-!
# Runs of writes to the `utilization` attribute

Any number of writers store arbitrary strings, one store after the other. The
operations carried out by such a run are a ladder (`Common/Ladder.lean`), and
the registers follow the last of them.

* `StoreInv`: the invariant of every run, with `storeInv_store` for one store and
  `storeInv_storeAll` for a run.
* `storeAll_traced`: keeping the history does not disturb the run.
* `utilization_stores`: what holds after every store to a chip as it was probed.
-/

namespace Pcitop.Driver

open Pcitop.Common Pcitop.Hplba

variable {σ : Type}

/-- The operations over a device that also keeps the history of the operations
    carried out on it. -/
def traced (ops : LbaUtilOps σ) : LbaUtilOps (σ × List LbaUtilStates) where
  utilInit d := ((ops.utilInit d.1).1, (ops.utilInit d.1).2, d.2 ++ [.init])
  utilReset d := ((ops.utilReset d.1).1, (ops.utilReset d.1).2, d.2 ++ [.reset])
  utilStart d := ((ops.utilStart d.1).1, (ops.utilStart d.1).2, d.2 ++ [.start])
  utilStop d := ((ops.utilStop d.1).1, (ops.utilStop d.1).2, d.2 ++ [.stop])

theorem traced_op (ops : LbaUtilOps σ) {s : LbaUtilStates} (hs : s ≠ .unk)
    (d : σ × List LbaUtilStates) :
    (traced ops).op s d = ((ops.op s d.1).1, (ops.op s d.1).2, d.2 ++ [s]) := by
  cases s <;> first | rfl | exact absurd rfl hs

/-- Stores by any writers, one after the other. -/
def storeAll (ops : LbaUtilOps σ) (lba : Lba σ) (bufs : List CString) : Lba σ :=
  bufs.foldl (fun lba buf => (utilizationStore ops lba buf).2) lba

/-- An LBA as `lba_probe` leaves it, with an empty history. -/
def probed (regs : Regs 64) : Lba (Regs 64 × List LbaUtilStates) := ⟨.unk, regs, []⟩

/-- Without the history. -/
def Lba.untraced (lba : Lba (σ × List LbaUtilStates)) : Lba σ := ⟨lba.utilState, lba.device.1⟩

theorem utilizationStore_traced (ops : LbaUtilOps σ) (lba : Lba (σ × List LbaUtilStates))
    (buf : CString) :
    (utilizationStore (traced ops) lba buf).2.untraced =
      (utilizationStore ops lba.untraced buf).2 := by
  by_cases hbad : firstLine buf ∉ commands ∨
      utilTransition (hplbaUtilStateToValue utilStatesTab buf).code lba.utilState < 0
  · rw [(utilizationStore_of_bad (traced ops) lba hbad).2,
      (utilizationStore_of_bad ops lba.untraced hbad).2]
  · rw [not_or, ← toValue_eq_unk_iff] at hbad
    obtain ⟨hunk, hneg⟩ := hbad
    simp only [utilizationStore, if_neg hunk, setUtilState_of_legal (traced ops) lba hneg,
      setUtilState_of_legal ops lba.untraced hneg, traced_op ops hunk]
    split_ifs <;> rfl

/-- The history is kept on the side: it does not change what the stores do. -/
theorem storeAll_traced (ops : LbaUtilOps σ) (lba : Lba (σ × List LbaUtilStates))
    (bufs : List CString) :
    (storeAll (traced ops) lba bufs).untraced = storeAll ops lba.untraced bufs := by
  induction bufs generalizing lba with
  | nil => rfl
  | cons buf bufs ih =>
    simp only [storeAll, List.foldl_cons] at ih ⊢
    rw [ih, utilizationStore_traced]

/-! ## The invariant -/

/-- The low four bits of `DIAG_EN0` in a state. -/
def en0Value : LbaUtilStates → BitVec 64
  | .init => 0x0
  | .reset => 0xf
  | .start => 0x3
  | .stop => 0x0
  | .unk => 0x0

/-- What holds between stores to a chip that was probed with the registers
    `regs₀`. -/
structure StoreInv (m : UtilRegs) (regs₀ : Regs 64)
    (lba : Lba (Regs 64 × List LbaUtilStates)) : Prop where
  /-- Every operation was allowed when it was carried out. -/
  climbs : Climbs rank lba.device.2
  /-- `util_state` names the last operation carried out. -/
  state : rung rank lba.device.2 = rank lba.utilState
  /-- The fields hold what the operations wrote. -/
  programmed : lba.utilState ≠ .unk →
    lbaReg lba.device.1 m.diagEn0 = en0Value lba.utilState ∧ Programmed m lba.device.1
  /-- Every bit outside the fields is as it was. -/
  frame : ∀ offset i, ¬ m.Owns offset i →
    (lba.device.1 offset).getLsbD i = (regs₀ offset).getLsbD i

theorem storeInv_probed (m : UtilRegs) (regs₀ : Regs 64) : StoreInv m regs₀ (probed regs₀) where
  climbs := .nil
  state := rfl
  programmed h := absurd rfl h
  frame _ _ _ := rfl

/-- What a write to `DIAG_EN0` leaves in the registers. -/
theorem en0_write_registers {m : UtilRegs} {value : BitVec 64} (hv : value &&& 0xf = value)
    {regs : Regs 64} (h : Programmed m regs) :
    lbaReg (lbaRegWrite m.diagEn0 value regs) m.diagEn0 = value ∧
      Programmed m (lbaRegWrite m.diagEn0 value regs) ∧
      ∀ offset i, ¬ m.Owns offset i →
        (lbaRegWrite m.diagEn0 value regs offset).getLsbD i = (regs offset).getLsbD i :=
  ⟨lbaReg_write (m.en0_holds hv) regs, programmed_en0_write h value,
    fun _ _ ho => en0_write_frame hv regs ho⟩

/-- What an operation leaves in the registers, from any registers in which the
    counters are set up or the operation sets them up. -/
theorem op_registers (chip : Chip) {s : LbaUtilStates} (hs : s ≠ .unk) (regs : Regs 64)
    (h : s ≠ .init → Programmed chip.regs regs) :
    lbaReg (chip.utilOps.op s regs).2 chip.regs.diagEn0 = en0Value s ∧
      Programmed chip.regs (chip.utilOps.op s regs).2 ∧
      ∀ offset i, ¬ chip.regs.Owns offset i →
        ((chip.utilOps.op s regs).2 offset).getLsbD i = (regs offset).getLsbD i := by
  rw [Chip.utilOps_eq]
  cases s with
  | init =>
    exact ⟨lbaReg_diagEn0_utilInit _ _, programmed_utilInit _ _,
      fun _ _ ho => utilInit_frame regs ho⟩
  | reset => exact en0_write_registers (by decide) (h (by decide))
  | start => exact en0_write_registers (by decide) (h (by decide))
  | stop => exact en0_write_registers (by decide) (h (by decide))
  | unk => exact absurd rfl hs

/-- One store keeps the invariant. -/
theorem storeInv_store (chip : Chip) {regs₀ : Regs 64}
    {lba : Lba (Regs 64 × List LbaUtilStates)} (h : StoreInv chip.regs regs₀ lba)
    (buf : CString) :
    StoreInv chip.regs regs₀ (utilizationStore (traced chip.utilOps) lba buf).2 := by
  rcases utilizationStore_cases (traced chip.utilOps) lba buf with heq | ⟨s, hs, hrank, heq⟩
  · rw [heq]
    exact h
  · rw [heq, traced_op chip.utilOps hs]
    -- Above rung 1 some operation, and so an INIT, has been carried out before.
    have hprog : s ≠ .init → Programmed chip.regs lba.device.1 := by
      intro hi
      refine (h.programmed ?_).2
      rintro hu
      rw [hu] at hrank
      cases s <;> simp_all [rank]
    obtain ⟨hen0, hset, hframe⟩ := op_registers chip hs lba.device.1 hprog
    refine ⟨?_, ?_, fun _ => ⟨hen0, hset⟩, ?_⟩
    · exact .snoc h.climbs (by rw [h.state]; exact hrank)
    · simp
    · intro offset i ho
      rw [hframe offset i ho, h.frame offset i ho]

/-- A run of stores keeps the invariant. -/
theorem storeInv_storeAll (chip : Chip) {regs₀ : Regs 64}
    {lba : Lba (Regs 64 × List LbaUtilStates)} (h : StoreInv chip.regs regs₀ lba)
    (bufs : List CString) :
    StoreInv chip.regs regs₀ (storeAll (traced chip.utilOps) lba bufs) := by
  induction bufs generalizing lba with
  | nil => exact h
  | cons buf bufs ih => exact ih (storeInv_store chip h buf)

/-! ## The order of operations -/

/-- Every START in the history follows a RESET with no INIT in between. -/
theorem StoreInv.start_after_reset {m : UtilRegs} {regs₀ : Regs 64}
    {lba : Lba (Regs 64 × List LbaUtilStates)} (h : StoreInv m regs₀ lba)
    {before after : List LbaUtilStates} (hh : lba.device.2 = before ++ .start :: after) :
    ∃ a b, before = a ++ .reset :: b ∧ .init ∉ b := by
  have hc := h.climbs
  rw [hh] at hc
  obtain ⟨a, d, b, hab, hd, hb⟩ := hc.preceded (by decide)
  refine ⟨a, b, ?_, ?_⟩
  · rw [hab, rank_injective (s := d) (t := .reset) hd]
  · intro hi
    exact absurd (hb _ hi) (by decide)

/-- Every STOP in the history follows a START with no INIT and no RESET in
    between. -/
theorem StoreInv.stop_after_start {m : UtilRegs} {regs₀ : Regs 64}
    {lba : Lba (Regs 64 × List LbaUtilStates)} (h : StoreInv m regs₀ lba)
    {before after : List LbaUtilStates} (hh : lba.device.2 = before ++ .stop :: after) :
    ∃ a b, before = a ++ .start :: b ∧ .init ∉ b ∧ .reset ∉ b := by
  have hc := h.climbs
  rw [hh] at hc
  obtain ⟨a, d, b, hab, hd, hb⟩ := hc.preceded (by decide)
  refine ⟨a, b, ?_, ?_, ?_⟩
  · rw [hab, rank_injective (s := d) (t := .start) hd]
  · intro hi
    exact absurd (hb _ hi) (by decide)
  · intro hr
    exact absurd (hb _ hr) (by decide)

/-- After every run of stores to a probed chip:
    a store that is no command, or whose transition is refused, fails and
    changes nothing; the fields follow `util_state`; no other bit of a register
    has changed; and the operations were carried out in order. -/
theorem utilization_stores (chip : Chip) (regs₀ : Regs 64) (bufs : List CString) :
    let lba := storeAll chip.utilOps ⟨.unk, regs₀⟩ bufs
    let history := (storeAll (traced chip.utilOps) (probed regs₀) bufs).device.2
    (∀ buf, firstLine buf ∉ commands ∨
        utilTransition (hplbaUtilStateToValue utilStatesTab buf).code lba.utilState < 0 →
      (utilizationStore chip.utilOps lba buf).1 < 0 ∧
        (utilizationStore chip.utilOps lba buf).2 = lba) ∧
    (lba.utilState ≠ .unk →
      lbaReg lba.device chip.regs.diagEn0 = en0Value lba.utilState ∧
        lbaReg lba.device chip.regs.ctrl0aAlwaysCnt = 0x1 ∧
        lbaReg lba.device chip.regs.diagCtrl1 = chip.regs.ctrl1Value) ∧
    (∀ offset i, ¬ chip.regs.Owns offset i →
      (lba.device offset).getLsbD i = (regs₀ offset).getLsbD i) ∧
    (∀ before after, history = before ++ .start :: after →
      ∃ a b, before = a ++ .reset :: b ∧ .init ∉ b) ∧
    (∀ before after, history = before ++ .stop :: after →
      ∃ a b, before = a ++ .start :: b ∧ .init ∉ b ∧ .reset ∉ b) := by
  intro lba history
  have hinv := storeInv_storeAll chip (storeInv_probed chip.regs regs₀) bufs
  have hlba : (storeAll (traced chip.utilOps) (probed regs₀) bufs).untraced = lba :=
    storeAll_traced chip.utilOps (probed regs₀) bufs
  refine ⟨fun buf hbad => utilizationStore_of_bad chip.utilOps lba hbad, ?_, ?_, ?_, ?_⟩
  · rw [← hlba]
    exact hinv.programmed
  · rw [← hlba]
    exact hinv.frame
  · exact fun before after hh => hinv.start_after_reset hh
  · exact fun before after hh => hinv.stop_after_start hh

end Pcitop.Driver
