import Pcitop.Tool.Measure

/-!
# What a run prints

`measure_utilization` (`pcitop.c`) counts its rows so as to print the banner again when
a screen is full. `num_lines` starts at `UTIL_ROWS`, which makes the first row print it too.

* `sampleStep_out`: what one sample prints, by its number.
* `measureFrom_output`, `measureUtilization_output`: what a run prints from its first line
  to its last.
-/

namespace Pcitop.Tool

open Pcitop.Common

variable {ps : PageSize} {env : Env} {lbas : List LbaInfo}

/-- `num_lines` after a number of samples. -/
def linesAt (i : ℕ) : ℕ := if i = 0 then UTIL_ROWS else (i - 1) % UTIL_ROWS + 1

theorem linesAt_eq_iff (i : ℕ) : linesAt i = UTIL_ROWS ↔ i % UTIL_ROWS = 0 := by
  simp only [linesAt, UTIL_ROWS, SCREEN_ROWS, NUM_BANNER_ROWS]
  split_ifs <;> omega

theorem linesAt_succ (i : ℕ) :
    linesAt (i + 1) = (if linesAt i = UTIL_ROWS then 0 else linesAt i) + 1 := by
  cases i with
  | zero => rfl
  | succ i =>
    have hsucc : ∀ j, linesAt (j + 1) = j % 16 + 1 := fun _ => rfl
    rw [hsucc, hsucc, show UTIL_ROWS = 16 from rfl]
    split_ifs <;> omega

/-- What sample `i` prints: its row, on a new screen under the banner. -/
def sampleOut (banner : CString) (row : List (Option Util)) (i : ℕ) : List Output :=
  (if i % UTIL_ROWS = 0 then [.banner banner] else []) ++ [.result row]

/-- One sample. -/
theorem sampleStep_out (banner : CString) {run : Run} {i : ℕ} (hlines : run.numLines = linesAt i)
    (hlbas : run.lbas = lbas.map fun lba => env.after ps lba i) :
    (sampleStep ps env banner i run).numLines = linesAt (i + 1) ∧
      (sampleStep ps env banner i run).out =
        run.out ++ sampleOut banner (env.row ps lbas i) i := by
  have hrow : ((run.lbas.map (collectLba ps (env.reading i))).map processCounts).map Prod.snd =
      env.row ps lbas i := by
    rw [hlbas, List.map_map, List.map_map, List.map_map]
    rfl
  constructor
  · rw [linesAt_succ, ← hlines]
    rfl
  · simp only [sampleStep, hrow, hlines, linesAt_eq_iff, sampleOut]
    split_ifs <;> simp

/-- The loop. -/
theorem sampleLoop_out (banner : CString) (nsamples i : ℕ) {run : Run}
    (hlines : run.numLines = linesAt i)
    (hlbas : run.lbas = lbas.map fun lba => env.after ps lba i) :
    (sampleLoop ps env banner nsamples i run).out =
      run.out ++ (List.range' i (env.samples nsamples i)).flatMap
        fun j => sampleOut banner (env.row ps lbas j) j := by
  induction nsamples generalizing i run with
  | zero => simp [sampleLoop, Env.samples]
  | succ nsamples ih =>
    rw [sampleLoop, Env.samples]
    by_cases hq : env.timeToQuit i = true
    · simp [hq]
    · obtain ⟨hlines', hout⟩ := sampleStep_out banner hlines hlbas
      have hlbas' := (sampleStep_eq banner lbas i hlbas).1
      rw [if_neg hq, if_neg hq, ih (i + 1) hlines' hlbas', hout, List.range'_succ,
        List.flatMap_cons, List.append_assoc]

/-- What a run prints. Of the samples asked for, `k` are completed. The banner is printed
    before the first row and whenever `UTIL_ROWS` rows have been printed since; a run that
    is interrupted says after how many samples; and the averages come last, under the
    banner. -/
theorem measureFrom_output {nsamples : ℕ} {lineResults : Bool} {banner : CString} {run : Run}
    (h : measureFrom ps env nsamples lineResults banner lbas = .ok run) :
    let k := env.samples nsamples 0
    run.out = (List.range k).flatMap (fun i => sampleOut banner (env.row ps lbas i) i) ++
      (if k < nsamples then [.interrupted k] else []) ++
      [.banner banner, .average (lbas.map fun lba => averageUtil (env.after ps lba k))] := by
  intro k
  unfold measureFrom at h
  split_ifs at h with h₁ h₂
  obtain rfl := Except.ok.inj h
  have hstart := lbas_start ps env (commandAll hplbaInit lbas ++ commandAll hplbaReset lbas)
    nsamples lbas
  obtain ⟨hk, hleft, hlbas, -, -⟩ := sampleLoop_eq banner lbas nsamples 0 hstart
  have hout := sampleLoop_out banner nsamples 0 (show _ = linesAt 0 from rfl) hstart
  have hnotice : (if nsamples - k ≠ 0 then [Output.interrupted (nsamples - (nsamples - k))]
      else []) = if k < nsamples then [Output.interrupted k] else [] := by
    rw [Nat.sub_sub_self hk]
    exact if_congr (by omega) rfl rfl
  simp only [hout, hleft, hlbas, List.map_map, List.nil_append, Nat.zero_add,
    List.range_eq_range', Function.comp_def]
  rw [hnotice]

/-- The output of `measure_utilization`, under its banner. -/
theorem measureUtilization_output {mem : MeasureMemory} {nsamples numLbaDisplay : ℕ} {run : Run}
    (h : measureUtilization mem ps env nsamples numLbaDisplay lbas = .ok run) :
    let k := env.samples nsamples 0
    ∃ banner, buildBanner mem.banner (BitVec.ofNat 32 numLbaDisplay) lbas = .ok (some banner) ∧
      run.out = (List.range k).flatMap (fun i => sampleOut banner (env.row ps lbas i) i) ++
        (if k < nsamples then [.interrupted k] else []) ++
        [.banner banner, .average (lbas.map fun lba => averageUtil (env.after ps lba k))] := by
  intro k
  unfold measureUtilization at h
  split at h
  · exact absurd h (by simp)
  · exact absurd h (by simp)
  · rename_i banner hbanner
    exact ⟨banner, hbanner, measureFrom_output h⟩

/-- An environment that interrupts the run after 18 samples. -/
def interruptedEnv : Env where
  timeToQuit i := 18 ≤ i
  reading _ _ := ⟨true, .data "5,3\n".toList⟩

/-- Asked for 20 samples of three LBAs, of which one is not displayed, the run prints 18,
    with a banner above the first and above the last two. -/
theorem measureUtilization_output_threeLbas :
    let lbas := [lba0, { lba1 with display := 0 }, lba2]
    ∃ (run : Run) (banner : CString) (row : ℕ → List (Option Util)),
      measureUtilization ⟨true, true⟩ ⟨4096, le_rfl⟩ interruptedEnv 20 2 lbas = .ok run ∧
      run.out = [.banner banner] ++ (List.range 16).map (fun i => .result (row i)) ++
        [.banner banner, .result (row 16), .result (row 17), .interrupted 18, .banner banner,
          .average (lbas.map fun lba =>
            averageUtil (interruptedEnv.after ⟨4096, le_rfl⟩ lba 18))] := by
  intro lbas
  have hbridged : Bridged lbas := by
    unfold Bridged
    decide
  have hok : ∃ run, measureUtilization ⟨true, true⟩ ⟨4096, le_rfl⟩ interruptedEnv 20 2 lbas =
      .ok run :=
    measureUtilization_ok 20 2 hbridged (by decide)
  obtain ⟨run, hrun⟩ := hok
  obtain ⟨banner, -, hout⟩ := measureUtilization_output hrun
  exact ⟨run, banner, interruptedEnv.row ⟨4096, le_rfl⟩ lbas, hrun, hout⟩

end Pcitop.Tool
