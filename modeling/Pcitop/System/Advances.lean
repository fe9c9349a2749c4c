import Pcitop.Common.Counter
import Pcitop.System.CounterText
import Pcitop.Tool.Sampling

/-!
# Differences of counters and true advances

The timer and the busy counter of a chip count on while the driver shows 48 bits of
each, and the sampling loop subtracts what it read as `unsigned long`. Nothing
brings the difference back to 48 bits.

* `counters_of_shows`: what `hplba_collect` takes are the low 48 bits of the counts.
* `advancesExact_iff`: in a run of the loop the differences are the true advances
  exactly when no register wraps between two successful samples.
-/

namespace Pcitop.System

open Pcitop.Common Pcitop.Hplba Pcitop.Driver Pcitop.Tool

/-- The hardware of an LBA: its chip, and the true counts of its timer and of its
    busy counter when a sample is taken. -/
structure Hardware where
  chip : Chip
  timer : ℕ → ℕ
  counter : ℕ → ℕ

/-- A file with what the driver shows in sample `i`, when the 48 bits of the two
    registers are the low bits of the counts. -/
def Hardware.Shows (hw : Hardware) (i : ℕ) (file : FileRead) : Prop :=
  ∃ regs : Regs 64, file = .data (utilizationShow (hw.chip.utilization regs)) ∧
    (regs hw.chip.regs.diagCtrl0Timer.offset).toNat % 2 ^ 48 = hw.timer i % 2 ^ 48 ∧
    (regs hw.chip.regs.diagCtrl1Cntr1.offset).toNat % 2 ^ 48 = hw.counter i % 2 ^ 48

/-- A successful sample takes the low 48 bits of the counts. -/
theorem counters_of_shows {ps : PageSize} {hw : Hardware} {i : ℕ} {r : Reading}
    (hr : r.counters ps ≠ none) (h : hw.Shows i r.file) :
    r.counters ps = some (reading 64 48 (hw.timer i), reading 64 48 (hw.counter i)) := by
  obtain ⟨regs, hfile, htimer, hcounter⟩ := h
  have hbuf : r.buffer = true := by
    by_contra hbuf
    rw [Bool.not_eq_true] at hbuf
    exact hr (by simp [Reading.counters, hbuf])
  have hr' : r = ⟨true, .data (utilizationShow (hw.chip.utilization regs))⟩ := by
    cases r
    simp_all
  rw [hr', counters_utilizationShow, hw.chip.utilization_eq, htimer, hcounter]
  rfl

section

variable (hw : CString → Hardware) (ps : PageSize) (env : Env)

/-- A successful sample shows the hardware of its LBA. -/
def Exposes (nsamples : ℕ) (lbas : List LbaInfo) : Prop :=
  ∀ lba ∈ lbas, lba.display ≠ 0 → ∀ i, env.Completes nsamples i →
    (env.reading i lba.name).counters ps ≠ none →
    (hw lba.name).Shows i (env.reading i lba.name).file

/-- What is promised of a run with `nsamples` samples: successful samples show the
    hardware, and between two successive ones neither count advances by `2 ^ 48` or
    more. -/
structure Timed (nsamples : ℕ) (lbas : List LbaInfo) : Prop where
  shows : Exposes hw ps env nsamples lbas
  timer : ∀ lba ∈ lbas, lba.display ≠ 0 → ∀ i j, env.Completes nsamples j →
    Consecutive ps env lba.name i j → (hw lba.name).timer i ≤ (hw lba.name).timer j ∧
      (hw lba.name).timer j - (hw lba.name).timer i < 2 ^ 48
  counter : ∀ lba ∈ lbas, lba.display ≠ 0 → ∀ i j, env.Completes nsamples j →
    Consecutive ps env lba.name i j → (hw lba.name).counter i ≤ (hw lba.name).counter j ∧
      (hw lba.name).counter j - (hw lba.name).counter i < 2 ^ 48

/-- In the row of the second of two successive samples of an LBA, the percentage is
    that of the true advances. -/
def AdvancesExact (lbas : List LbaInfo) (run : Run) : Prop :=
  ∀ (m : ℕ) (lba : LbaInfo), lbas[m]? = some lba → lba.display ≠ 0 → lba.inUse ≠ 0 →
    ∀ i j, j < run.rows.length → Consecutive ps env lba.name i j →
      ∃ (row : List (Option Util)) (num den : BitVec 64), run.rows[j]? = some row ∧
        row[m]? = some (some (.ratio num den)) ∧
        num.toNat = (hw lba.name).counter j - (hw lba.name).counter i ∧
        den.toNat = (hw lba.name).timer j - (hw lba.name).timer i

/-- No register of a displayed LBA in use passes a multiple of `2 ^ 48` between two
    successive samples. -/
def NoWrap (nsamples : ℕ) (lbas : List LbaInfo) : Prop :=
  ∀ lba ∈ lbas, lba.display ≠ 0 → lba.inUse ≠ 0 → ∀ i j, env.Completes nsamples j →
    Consecutive ps env lba.name i j →
      (hw lba.name).timer i / 2 ^ 48 = (hw lba.name).timer j / 2 ^ 48 ∧
        (hw lba.name).counter i / 2 ^ 48 = (hw lba.name).counter j / 2 ^ 48

end

variable {hw : CString → Hardware} {ps : PageSize} {env : Env}

/-- The percentage of the second of two successive samples, from the true counts. -/
theorem util_of_timed {nsamples : ℕ} {lbas : List LbaInfo} (ht : Timed hw ps env nsamples lbas)
    {lba : LbaInfo} (hmem : lba ∈ lbas) (hd : lba.display ≠ 0) (hu : lba.inUse ≠ 0) {i j : ℕ}
    (hj : env.Completes nsamples j) (hc : Consecutive ps env lba.name i j) :
    env.util ps lba j = some (.ratio
      (reading 64 48 ((hw lba.name).counter j) - reading 64 48 ((hw lba.name).counter i))
      (reading 64 48 ((hw lba.name).timer j) - reading 64 48 ((hw lba.name).timer i))) := by
  have hi : env.Completes nsamples i := by
    have hlt := hc.lt
    exact ⟨by have := hj.1; omega, fun l hl => hj.2 l (by omega)⟩
  exact util_of_consecutive hd hu hc
    (counters_of_shows hc.first (ht.shows lba hmem hd i hi hc.first))
    (counters_of_shows hc.second (ht.shows lba hmem hd j hj hc.second))

/-- The entry of a row. -/
theorem rows_getElem? {nsamples : ℕ} {lbas : List LbaInfo} {run : Run}
    (h : RunSpec ps env nsamples lbas run) {j : ℕ} (hj : env.Completes nsamples j) :
    run.rows[j]? = some (env.row ps lbas j) := by
  rw [h.rows, List.getElem?_map, List.getElem?_range ((completes_iff nsamples j).mp hj)]
  rfl

theorem lt_length_rows_iff {nsamples : ℕ} {lbas : List LbaInfo} {run : Run}
    (h : RunSpec ps env nsamples lbas run) (j : ℕ) :
    j < run.rows.length ↔ env.Completes nsamples j := by
  rw [completes_iff, h.rows, List.length_map, List.length_range]

/-- In every run of `measure_utilization`, with counts that advance by less than
    `2 ^ 48` between two successful samples, the differences computed are the true
    advances exactly when no register wraps between two such samples. -/
theorem advancesExact_iff {mem : MeasureMemory} {nsamples numLbaDisplay : ℕ}
    {lbas : List LbaInfo} {run : Run}
    (hrun : measureUtilization mem ps env nsamples numLbaDisplay lbas = .ok run)
    (ht : Timed hw ps env nsamples lbas) :
    AdvancesExact hw ps env lbas run ↔ NoWrap hw ps env nsamples lbas := by
  have hspec := measureUtilization_eq hrun
  have hentry : ∀ (m : ℕ) (lba : LbaInfo) (j : ℕ), lbas[m]? = some lba →
      (env.row ps lbas j)[m]? = some (env.util ps lba j) := by
    intro m lba j hm
    rw [Env.row, List.getElem?_map, hm, Option.map_some]
  constructor
  · intro hexact lba hmem hd hu i j hj hc
    obtain ⟨m, hm⟩ := List.mem_iff_getElem?.mp hmem
    obtain ⟨row, num, den, hrow, hnum, hn, hden⟩ :=
      hexact m lba hm hd hu i j ((lt_length_rows_iff hspec j).mpr hj) hc
    rw [rows_getElem? hspec hj, Option.some.injEq] at hrow
    rw [← hrow, hentry m lba j hm, util_of_timed ht hmem hd hu hj hc] at hnum
    obtain ⟨rfl, rfl⟩ := Util.ratio.inj (Option.some.inj (Option.some.inj hnum))
    obtain ⟨htle, htadv⟩ := ht.timer lba hmem hd i j hj hc
    obtain ⟨hcle, hcadv⟩ := ht.counter lba hmem hd i j hj hc
    exact ⟨(counter_sub_eq_iff (by norm_num) htle htadv).mp hden,
      (counter_sub_eq_iff (by norm_num) hcle hcadv).mp hn⟩
  · intro hwrap m lba hm hd hu i j hj hc
    have hmem : lba ∈ lbas := List.mem_of_getElem? hm
    have hj := (lt_length_rows_iff hspec j).mp hj
    obtain ⟨hqt, hqc⟩ := hwrap lba hmem hd hu i j hj hc
    obtain ⟨htle, htadv⟩ := ht.timer lba hmem hd i j hj hc
    obtain ⟨hcle, hcadv⟩ := ht.counter lba hmem hd i j hj hc
    refine ⟨_, _, _, rows_getElem? hspec hj,
      (hentry m lba j hm).trans (congrArg some (util_of_timed ht hmem hd hu hj hc)), ?_, ?_⟩
    · exact (counter_sub_eq_iff (by norm_num) hcle hcadv).mpr hqc
    · exact (counter_sub_eq_iff (by norm_num) htle htadv).mpr hqt

/-! ## A ticking timer -/

/-- A timer that advances by 5 ticks in every sample, 3 of them busy. -/
def ticking (start : ℕ) : Hardware where
  chip := .apollo
  timer i := start + 5 * i
  counter i := 3 * i

/-- Its registers in sample `i`. -/
def tickingRegs (start i : ℕ) : Regs 64 := fun offset =>
  if offset = apolloRegs.diagCtrl0Timer.offset then BitVec.ofNat 64 (start + 5 * i)
  else BitVec.ofNat 64 (3 * i)

def tickingEnv (start : ℕ) : Env where
  timeToQuit _ := false
  reading i _ := ⟨true, .data (utilizationShow (apolloUtilization (tickingRegs start i)))⟩

theorem counters_tickingEnv (start i : ℕ) (name : CString) :
    ((tickingEnv start).reading i name).counters ps ≠ none := by
  rw [tickingEnv, counters_utilizationShow]
  exact Option.some_ne_none _

theorem consecutive_tickingEnv {start i j : ℕ} {name : CString} :
    Consecutive ps (tickingEnv start) name i j ↔ j = i + 1 := by
  constructor
  · intro h
    have hlt := h.lt
    by_contra hne
    exact counters_tickingEnv start (i + 1) name (h.between (i + 1) (by omega) (by omega))
  · rintro rfl
    exact ⟨by omega, counters_tickingEnv _ _ _, counters_tickingEnv _ _ _,
      fun l h1 h2 => by omega⟩

theorem exposes_tickingEnv (start nsamples : ℕ) (lbas : List LbaInfo) :
    Exposes (fun _ => ticking start) ps (tickingEnv start) nsamples lbas := by
  intro lba _ _ i _ _
  have hd : (2 : ℕ) ^ 48 ∣ 2 ^ 64 := by norm_num
  refine ⟨tickingRegs start i, rfl, ?_, ?_⟩
  · show (BitVec.ofNat 64 (start + 5 * i)).toNat % 2 ^ 48 = (start + 5 * i) % 2 ^ 48
    rw [BitVec.toNat_ofNat, Nat.mod_mod_of_dvd _ hd]
  · show (BitVec.ofNat 64 (3 * i)).toNat % 2 ^ 48 = 3 * i % 2 ^ 48
    rw [BitVec.toNat_ofNat, Nat.mod_mod_of_dvd _ hd]

theorem timed_tickingEnv (start nsamples : ℕ) (lbas : List LbaInfo) :
    Timed (fun _ => ticking start) ps (tickingEnv start) nsamples lbas where
  shows := exposes_tickingEnv start nsamples lbas
  timer lba _ _ i j _ h := by
    obtain rfl := consecutive_tickingEnv.mp h
    show start + 5 * i ≤ start + 5 * (i + 1) ∧ start + 5 * (i + 1) - (start + 5 * i) < 2 ^ 48
    omega
  counter lba _ _ i j _ h := by
    obtain rfl := consecutive_tickingEnv.mp h
    show 3 * i ≤ 3 * (i + 1) ∧ 3 * (i + 1) - 3 * i < 2 ^ 48
    omega

/-- Three samples of two displayed LBAs and one that is not. -/
theorem advancesExact_iff_tickingEnv :
    let lbas := [lba0, { lba1 with display := 0 }, lba2]
    ∃ run, measureUtilization ⟨true, true⟩ ⟨4096, le_rfl⟩ (tickingEnv 0) 3 2 lbas = .ok run ∧
      AdvancesExact (fun _ => ticking 0) ⟨4096, le_rfl⟩ (tickingEnv 0) lbas run := by
  intro lbas
  have hbridged : Bridged lbas := by
    unfold Bridged
    decide
  have hok : ∃ run, measureUtilization ⟨true, true⟩ ⟨4096, le_rfl⟩ (tickingEnv 0) 3 2 lbas =
      .ok run :=
    measureUtilization_ok 3 2 hbridged (by decide)
  obtain ⟨run, hrun⟩ := hok
  refine ⟨run, hrun, (advancesExact_iff hrun (timed_tickingEnv 0 3 lbas)).mpr ?_⟩
  intro lba _ _ _ i j hj hc
  obtain rfl := consecutive_tickingEnv.mp hc
  have hlt := hj.1
  show (0 + 5 * i) / 2 ^ 48 = (0 + 5 * (i + 1)) / 2 ^ 48 ∧ 3 * i / 2 ^ 48 = 3 * (i + 1) / 2 ^ 48
  rw [Nat.div_eq_of_lt (by omega), Nat.div_eq_of_lt (by omega), Nat.div_eq_of_lt (by omega),
    Nat.div_eq_of_lt (by omega)]
  exact ⟨rfl, rfl⟩

/-- From `2 ^ 48 - 1` the timer advances by 5 to `2 ^ 48 + 4`, and the difference
    computed is not 5. -/
theorem not_advancesExact_tickingEnv :
    ∃ run, measureUtilization ⟨true, true⟩ ⟨4096, le_rfl⟩ (tickingEnv (2 ^ 48 - 1)) 2 1 [lba0] =
        .ok run ∧
      Timed (fun _ => ticking (2 ^ 48 - 1)) ⟨4096, le_rfl⟩ (tickingEnv (2 ^ 48 - 1)) 2 [lba0] ∧
      ¬ AdvancesExact (fun _ => ticking (2 ^ 48 - 1)) ⟨4096, le_rfl⟩ (tickingEnv (2 ^ 48 - 1))
        [lba0] run := by
  have hok : ∃ run, measureUtilization ⟨true, true⟩ ⟨4096, le_rfl⟩ (tickingEnv (2 ^ 48 - 1)) 2 1
      [lba0] = .ok run :=
    measureUtilization_ok 2 1 (show Bridged [lba0] by unfold Bridged; decide) (by decide)
  obtain ⟨run, hrun⟩ := hok
  have ht : Timed (fun _ => ticking (2 ^ 48 - 1)) ⟨4096, le_rfl⟩ (tickingEnv (2 ^ 48 - 1)) 2
      [lba0] := timed_tickingEnv (2 ^ 48 - 1) 2 [lba0]
  refine ⟨run, hrun, ht, fun hexact => ?_⟩
  have hspec := measureUtilization_eq hrun
  have hj : (tickingEnv (2 ^ 48 - 1)).Completes 2 1 := ⟨by norm_num, fun _ _ => rfl⟩
  have hc : Consecutive ⟨4096, le_rfl⟩ (tickingEnv (2 ^ 48 - 1)) lba0.name 0 1 :=
    consecutive_tickingEnv.mpr rfl
  obtain ⟨row, num, den, hrow, hnum, -, hden⟩ := hexact 0 lba0 rfl (by decide) (by decide) 0 1
    ((lt_length_rows_iff hspec 1).mpr hj) hc
  rw [rows_getElem? hspec hj, Option.some.injEq] at hrow
  have hutil := util_of_timed ht (List.mem_singleton.mpr rfl) (by decide) (by decide) hj hc
  rw [← hrow, Env.row, List.map_singleton, List.getElem?_cons_zero, hutil] at hnum
  obtain ⟨-, rfl⟩ := Util.ratio.inj (Option.some.inj (Option.some.inj hnum))
  -- The timer wraps, so that the difference exceeds 5 by `2 ^ 64 - 2 ^ 48`.
  have hwrap : (reading 64 48 (2 ^ 48 + 4) - reading 64 48 (2 ^ 48 - 1)).toNat + 2 ^ 48 =
      2 ^ 48 + 4 - (2 ^ 48 - 1) + 2 ^ 64 :=
    counter_sub_of_wrap (by norm_num) (by norm_num) (by norm_num)
  simp only [ticking] at hden
  norm_num at hden hwrap
  omega

end Pcitop.System
