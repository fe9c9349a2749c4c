import Pcitop.Tool.Collect
import Pcitop.Tool.Display
import Pcitop.Tool.Filter

/-!
# The sampling loop

Model of `measure_utilization` (`pcitop.c`). The environment decides when SIGINT
has set `time_to_quit` and what every call of `hplba_collect` meets. A run keeps
the accesses to the `utilization` attributes, in order, and what is printed.

The LBAs do not interact: `Env.after` is one LBA after a number of samples and
`Env.util` the percentage computed for it in a sample.

* `measureUtilization_eq`: a run in closed form, sample by sample.
* `completes_iff`: which samples a run completes.
-/

namespace Pcitop.Tool

open Pcitop.Common

/-- What a run depends on besides the LBAs and the options. -/
structure Env where
  /-- `time_to_quit` when the loop tests it after so many samples -/
  timeToQuit : ℕ → Bool
  /-- what `hplba_collect` meets in a sample, for the LBA of a name -/
  reading : ℕ → CString → Reading

/-- An access to the `utilization` attribute of the LBA of a name. -/
inductive Event where
  | write (name : CString) (bytes : CString)
  /-- a call of `hplba_collect`, and whether it got as far as reading -/
  | collect (name : CString) (reads : Bool)
  deriving DecidableEq, Repr

/-- The LBA an access is to. -/
def Event.name : Event → CString
  | .write name _ => name
  | .collect name _ => name

/-- A percentage: 0 for an LBA that is not in use, or the quotient `num * 100.0 / den`
    of two `unsigned long`. -/
inductive Util where
  | zero
  | ratio (num den : BitVec 64)
  deriving DecidableEq, Repr

/-- What is printed. A row has an entry for every LBA, `none` if it is not
    displayed. -/
inductive Output where
  | banner (text : CString)
  | result (utils : List (Option Util))
  /-- `interrupted after … samples` -/
  | interrupted (samples : ℕ)
  | average (utils : List (Option Util))
  deriving DecidableEq, Repr

/-- The state of `measure_utilization`. -/
structure Run where
  lbas : List LbaInfo
  events : List Event
  out : List Output
  numLines : ℕ
  nsamples : ℕ
  deriving DecidableEq, Repr

/-- The result row in a piece of output, if it is one. -/
def Output.row : Output → List (List (Option Util))
  | .result utils => [utils]
  | _ => []

/-- The percentages in a piece of output. -/
def Output.utils : Output → List (Option Util)
  | .result utils => utils
  | .average utils => utils
  | _ => []

/-- The result rows of a run. -/
def Run.rows (run : Run) : List (List (Option Util)) := run.out.flatMap Output.row

/-- The percentages a run prints, the final average included. -/
def Run.printed (run : Run) : List (Option Util) := run.out.flatMap Output.utils

/-- `list_for_each(&host_lba_list, lba, list) if (lba->display) lba->ops->…(lba)` for
    an operation that writes a command. -/
def commandAll (bytes : CString) (lbas : List LbaInfo) : List Event :=
  (lbas.filter fun lba => lba.display ≠ 0).map fun lba => .write lba.name bytes

/-- The same for `hplba_collect`. -/
def collectEvents (reading : CString → Reading) (lbas : List LbaInfo) : List Event :=
  (lbas.filter fun lba => lba.display ≠ 0).map fun lba =>
    .collect lba.name (reading lba.name).buffer

/-- An LBA after the calls of `hplba_collect`. -/
def collectLba (ps : PageSize) (reading : CString → Reading) (lba : LbaInfo) : LbaInfo :=
  if lba.display ≠ 0 then (hplbaCollect ps (reading lba.name) lba).2 else lba

/-- The body of the loop that processes the new counts (lines 934–952). -/
def processCounts (lba : LbaInfo) : LbaInfo × Option Util :=
  if lba.display ≠ 0 then
    let timer := lba.timer
    let counter := lba.counter
    let util := if lba.inUse ≠ 0 then
        Util.ratio (counter - lba.prevCounter) (timer - lba.prevTimer)
      else .zero
    ({ lba with prevTimer := timer, prevCounter := counter }, some util)
  else (lba, none)

/-- One iteration of the sampling loop (lines 896–955). -/
def sampleStep (ps : PageSize) (env : Env) (banner : CString) (i : ℕ) (run : Run) : Run :=
  let events := run.events ++ commandAll hplbaStart run.lbas ++ commandAll hplbaStop run.lbas ++
    collectEvents (env.reading i) run.lbas
  let lbas := run.lbas.map (collectLba ps (env.reading i))
  let out := if run.numLines = UTIL_ROWS then run.out ++ [.banner banner] else run.out
  let numLines := if run.numLines = UTIL_ROWS then 0 else run.numLines
  let counts := lbas.map processCounts
  { lbas := counts.map Prod.fst
    events := events
    out := out ++ [.result (counts.map Prod.snd)]
    numLines := numLines + 1
    nsamples := run.nsamples }

/-- The sampling loop with `nsamples` samples to go, after `i` samples. -/
def sampleLoop (ps : PageSize) (env : Env) (banner : CString) : ℕ → ℕ → Run → Run
  | 0, _, run => { run with nsamples := 0 }
  | nsamples + 1, i, run =>
    if env.timeToQuit i then { run with nsamples := nsamples + 1 }
    else sampleLoop ps env banner nsamples (i + 1) (sampleStep ps env banner i run)

/-- The final average of an LBA (lines 965–977). -/
def averageUtil (lba : LbaInfo) : Option Util :=
  if lba.display ≠ 0 then
    some (if lba.inUse ≠ 0 then Util.ratio lba.counter lba.timer else .zero)
  else none

/-- `measure_utilization` (lines 863–979), from the return of `build_banner` on:
    `lineResults` says whether its `malloc` succeeds. -/
def measureFrom (ps : PageSize) (env : Env) (nsamples : ℕ) (lineResults : Bool)
    (banner : CString) (lbas : List LbaInfo) : Except Fault Run :=
  if !lineResults then .error (.exit 1)
  else if lbas.any fun lba => lba.display ≠ 0 && !lba.ops then .error .nullOps
  else
    let run := sampleLoop ps env banner nsamples 0
      { lbas := lbas
        events := commandAll hplbaInit lbas ++ commandAll hplbaReset lbas
        out := []
        numLines := UTIL_ROWS
        nsamples := nsamples }
    .ok { run with out := run.out ++
      (if run.nsamples ≠ 0 then [Output.interrupted (nsamples - run.nsamples)] else []) ++
      [.banner banner, .average (run.lbas.map averageUtil)] }

/-- The two allocations of `measure_utilization` that succeed. -/
structure MeasureMemory where
  banner : Bool
  lineResults : Bool
  deriving DecidableEq, Repr

/-- `measure_utilization` (lines 863–979). -/
def measureUtilization (mem : MeasureMemory) (ps : PageSize) (env : Env) (nsamples : ℕ)
    (numLbaDisplay : ℕ) (lbas : List LbaInfo) : Except Fault Run :=
  match buildBanner mem.banner (BitVec.ofNat 32 numLbaDisplay) lbas with
  | .error fault => .error fault
  | .ok none => .error (.exit 1)
  | .ok (some banner) => measureFrom ps env nsamples mem.lineResults banner lbas

/-! ## LBA by LBA -/

section ClosedForm

variable (ps : PageSize) (env : Env)

/-- An LBA after a number of samples. -/
def Env.after (lba : LbaInfo) : ℕ → LbaInfo
  | 0 => lba
  | i + 1 => (processCounts (collectLba ps (env.reading i) (Env.after lba i))).1

/-- The percentage of an LBA in a sample. -/
def Env.util (lba : LbaInfo) (i : ℕ) : Option Util :=
  (processCounts (collectLba ps (env.reading i) (env.after ps lba i))).2

/-- The row of a sample. -/
def Env.row (lbas : List LbaInfo) (i : ℕ) : List (Option Util) :=
  lbas.map fun lba => env.util ps lba i

/-- The accesses of a sample. -/
def Env.sampleEvents (lbas : List LbaInfo) (i : ℕ) : List Event :=
  commandAll hplbaStart lbas ++ commandAll hplbaStop lbas ++ collectEvents (env.reading i) lbas

/-- The number of samples completed, with `nsamples` to go after `i`. -/
def Env.samples : ℕ → ℕ → ℕ
  | 0, _ => 0
  | nsamples + 1, i => if env.timeToQuit i then 0 else Env.samples nsamples (i + 1) + 1

/-- Sample `i` of a run is completed: it is one of those asked for, and SIGINT has
    not arrived before it. -/
def Env.Completes (nsamples i : ℕ) : Prop := i < nsamples ∧ ∀ l ≤ i, env.timeToQuit l = false

variable {ps env}

/-- What a sample keeps of an LBA. -/
structure SameLba (lba lba' : LbaInfo) : Prop where
  name : lba'.name = lba.name
  display : lba'.display = lba.display
  inUse : lba'.inUse = lba.inUse

theorem sameLba_processCounts (lba : LbaInfo) : SameLba lba (processCounts lba).1 := by
  unfold processCounts
  split_ifs <;> exact ⟨rfl, rfl, rfl⟩

theorem sameLba_hplbaCollect (r : Reading) (lba : LbaInfo) :
    SameLba lba (hplbaCollect ps r lba).2 := by
  obtain h | ⟨⟨t, c⟩, h⟩ := Option.eq_none_or_eq_some (r.counters ps)
  · rw [hplbaCollect_of_none h]
    exact ⟨rfl, rfl, rfl⟩
  · rw [hplbaCollect_of_counters h]
    exact ⟨rfl, rfl, rfl⟩

theorem sameLba_collectLba (reading : CString → Reading) (lba : LbaInfo) :
    SameLba lba (collectLba ps reading lba) := by
  unfold collectLba
  split_ifs
  · exact sameLba_hplbaCollect _ _
  · exact ⟨rfl, rfl, rfl⟩

theorem sameLba_after (lba : LbaInfo) (i : ℕ) : SameLba lba (env.after ps lba i) := by
  induction i with
  | zero => exact ⟨rfl, rfl, rfl⟩
  | succ i ih =>
    have hc : SameLba (env.after ps lba i) (collectLba ps (env.reading i) (env.after ps lba i)) :=
      sameLba_collectLba _ _
    have hp := sameLba_processCounts (collectLba ps (env.reading i) (env.after ps lba i))
    exact ⟨hp.name.trans (hc.name.trans ih.name), hp.display.trans (hc.display.trans ih.display),
      hp.inUse.trans (hc.inUse.trans ih.inUse)⟩

/-- The accesses depend on names and display flags only. -/
theorem filter_map_after (lbas : List LbaInfo) (i : ℕ) (f : CString → Event) :
    ((lbas.map fun lba => env.after ps lba i).filter fun lba => lba.display ≠ 0).map
        (fun lba => f lba.name) =
      (lbas.filter fun lba => lba.display ≠ 0).map fun lba => f lba.name := by
  rw [List.filter_map, List.map_map]
  have hd : ((fun lba : LbaInfo => decide (lba.display ≠ 0)) ∘ fun lba => env.after ps lba i) =
      fun lba : LbaInfo => decide (lba.display ≠ 0) := by
    funext lba
    simp only [Function.comp, (sameLba_after lba i).display]
  rw [hd]
  exact List.map_congr_left fun lba _ => congrArg f (sameLba_after lba i).name

theorem sampleEvents_map_after (lbas : List LbaInfo) (i j : ℕ) :
    env.sampleEvents (lbas.map fun lba => env.after ps lba i) j = env.sampleEvents lbas j := by
  unfold Env.sampleEvents commandAll collectEvents
  rw [filter_map_after lbas i (fun name => .write name hplbaStart),
    filter_map_after lbas i (fun name => .write name hplbaStop),
    filter_map_after lbas i (fun name => .collect name (env.reading j name).buffer)]

/-- One sample of the loop. -/
theorem sampleStep_eq (banner : CString) (lbas : List LbaInfo) (i : ℕ) {run : Run}
    (h : run.lbas = lbas.map fun lba => env.after ps lba i) :
    let run' := sampleStep ps env banner i run
    run'.lbas = lbas.map (fun lba => env.after ps lba (i + 1)) ∧
      run'.events = run.events ++ env.sampleEvents lbas i ∧
      ∃ pre, (pre = [] ∨ pre = [.banner banner]) ∧
        run'.out = run.out ++ pre ++ [.result (env.row ps lbas i)] := by
  refine ⟨?_, ?_, ?_⟩
  · simp only [sampleStep, h, List.map_map]
    rfl
  · have hevents : env.sampleEvents run.lbas i = env.sampleEvents lbas i := by
      rw [h, sampleEvents_map_after]
    rw [← hevents]
    simp only [sampleStep, Env.sampleEvents, List.append_assoc]
  · have hrow : ((run.lbas.map (collectLba ps (env.reading i))).map processCounts).map Prod.snd =
        env.row ps lbas i := by
      rw [h, List.map_map, List.map_map, List.map_map]
      rfl
    by_cases hn : run.numLines = UTIL_ROWS
    · exact ⟨[.banner banner], .inr rfl, by simp only [sampleStep, if_pos hn, hrow]⟩
    · exact ⟨[], .inl rfl, by simp only [sampleStep, if_neg hn, hrow, List.append_nil]⟩

/-- The loop, sample by sample. What is printed is looked at through any `f` that
    does not see the banner. -/
theorem sampleLoop_eq (banner : CString) (lbas : List LbaInfo) (nsamples i : ℕ) {run : Run}
    (h : run.lbas = lbas.map fun lba => env.after ps lba i) :
    let k := env.samples nsamples i
    let run' := sampleLoop ps env banner nsamples i run
    k ≤ nsamples ∧ run'.nsamples = nsamples - k ∧
      run'.lbas = lbas.map (fun lba => env.after ps lba (i + k)) ∧
      run'.events = run.events ++ (List.range' i k).flatMap (env.sampleEvents lbas) ∧
      ∀ {β : Type} (f : Output → List β), f (.banner banner) = [] →
        run'.out.flatMap f = run.out.flatMap f ++
          (List.range' i k).flatMap fun j => f (.result (env.row ps lbas j)) := by
  induction nsamples generalizing i run with
  | zero => exact ⟨le_rfl, rfl, h, by simp [sampleLoop, Env.samples], by
      intro β f _
      simp [sampleLoop, Env.samples]⟩
  | succ nsamples ih =>
    simp only [sampleLoop, Env.samples]
    by_cases hq : env.timeToQuit i = true
    · simp only [hq, if_true]
      exact ⟨Nat.zero_le _, rfl, h, by simp, by intro β f _; simp⟩
    · simp only [hq, if_false, Bool.false_eq_true]
      obtain ⟨hlbas, hevents, pre, hpre, hout⟩ := sampleStep_eq banner lbas i h
      obtain ⟨hk, hn, hl, he, ho⟩ := ih (i + 1) hlbas
      refine ⟨by omega, by rw [hn]; omega, ?_, ?_, ?_⟩
      · rw [hl]
        congr 2
        funext lba
        rw [show i + 1 + env.samples nsamples (i + 1) = i + (env.samples nsamples (i + 1) + 1) by
          omega]
      · rw [he, hevents, List.range'_succ, List.flatMap_cons, List.append_assoc]
      · intro β f hf
        have hpre' : pre.flatMap f = [] := by
          rcases hpre with rfl | rfl
          · rfl
          · simp [hf]
        rw [ho f hf, hout, List.range'_succ, List.flatMap_cons, List.flatMap_append,
          List.flatMap_append, hpre']
        simp

/-! ## Runs -/

/-- A run in closed form, with the samples it completes. -/
structure RunSpec (ps : PageSize) (env : Env) (nsamples : ℕ) (lbas : List LbaInfo)
    (run : Run) : Prop where
  samples_le : env.samples nsamples 0 ≤ nsamples
  nsamples_eq : run.nsamples = nsamples - env.samples nsamples 0
  events : run.events = commandAll hplbaInit lbas ++ commandAll hplbaReset lbas ++
    (List.range (env.samples nsamples 0)).flatMap (env.sampleEvents lbas)
  rows : run.rows = (List.range (env.samples nsamples 0)).map (env.row ps lbas)
  printed : run.printed = (List.range (env.samples nsamples 0)).flatMap (env.row ps lbas) ++
    lbas.map fun lba => averageUtil (env.after ps lba (env.samples nsamples 0))

/-- No sample has been taken when the loop starts. -/
theorem lbas_start (ps : PageSize) (env : Env) (events : List Event) (nsamples : ℕ)
    (lbas : List LbaInfo) : (Run.mk lbas events [] UTIL_ROWS nsamples).lbas =
      lbas.map fun lba => env.after ps lba 0 := by
  simp [Env.after]

/-- What a run prints, the banners and the notice of an interruption apart. -/
theorem measureFrom_out {nsamples : ℕ} {lineResults : Bool} {banner : CString}
    {lbas : List LbaInfo} {run : Run}
    (h : measureFrom ps env nsamples lineResults banner lbas = .ok run) {β : Type}
    (f : Output → List β) (hbanner : f (.banner banner) = [])
    (hnotice : ∀ n, f (.interrupted n) = []) :
    run.out.flatMap f =
      (List.range (env.samples nsamples 0)).flatMap (fun j => f (.result (env.row ps lbas j))) ++
        f (.average (lbas.map fun lba =>
          averageUtil (env.after ps lba (env.samples nsamples 0)))) := by
  unfold measureFrom at h
  split_ifs at h with h1 h2
  obtain rfl := Except.ok.inj h
  have hstart := lbas_start ps env (commandAll hplbaInit lbas ++ commandAll hplbaReset lbas)
    nsamples lbas
  obtain ⟨-, -, hl, -, ho⟩ := sampleLoop_eq banner lbas nsamples 0 hstart
  simp only [List.flatMap_append, ho f hbanner, hl, List.range_eq_range']
  split_ifs <;> simp [hbanner, hnotice, Function.comp_def]

theorem measureFrom_eq {nsamples : ℕ} {lineResults : Bool} {banner : CString}
    {lbas : List LbaInfo} {run : Run}
    (h : measureFrom ps env nsamples lineResults banner lbas = .ok run) :
    RunSpec ps env nsamples lbas run := by
  have hrows := measureFrom_out h Output.row rfl fun _ => rfl
  have hprinted := measureFrom_out h Output.utils rfl fun _ => rfl
  unfold measureFrom at h
  split_ifs at h with h1 h2
  obtain rfl := Except.ok.inj h
  have hstart := lbas_start ps env (commandAll hplbaInit lbas ++ commandAll hplbaReset lbas)
    nsamples lbas
  obtain ⟨hk, hn, hl, he, -⟩ := sampleLoop_eq banner lbas nsamples 0 hstart
  refine ⟨hk, hn, by rw [he, List.range_eq_range'], ?_, hprinted⟩
  rw [Run.rows, hrows]
  simp only [Output.row, List.append_nil, ← List.map_eq_flatMap]

/-- A run has a banner, and the displayed LBAs root bridges. -/
theorem measureUtilization_banner {mem : MeasureMemory} {nsamples numLbaDisplay : ℕ}
    {lbas : List LbaInfo} {run : Run}
    (h : measureUtilization mem ps env nsamples numLbaDisplay lbas = .ok run) :
    ∃ banner, buildBanner mem.banner (BitVec.ofNat 32 numLbaDisplay) lbas = .ok (some banner) ∧
      measureFrom ps env nsamples mem.lineResults banner lbas = .ok run := by
  unfold measureUtilization at h
  split at h
  · simp at h
  · simp at h
  · rename_i banner hbanner
    exact ⟨banner, hbanner, h⟩

/-- What a run does. -/
theorem measureUtilization_eq {mem : MeasureMemory} {nsamples numLbaDisplay : ℕ}
    {lbas : List LbaInfo} {run : Run}
    (h : measureUtilization mem ps env nsamples numLbaDisplay lbas = .ok run) :
    RunSpec ps env nsamples lbas run := by
  obtain ⟨banner, -, hrun⟩ := measureUtilization_banner h
  exact measureFrom_eq hrun

/-- A run gets to its end with memory, when the displayed LBAs have root bridges and
    operations. -/
theorem measureUtilization_ok (nsamples numLbaDisplay : ℕ) {lbas : List LbaInfo}
    (hbridge : Bridged lbas) (hops : ∀ lba ∈ lbas, lba.display ≠ 0 → lba.ops = true) :
    ∃ run, measureUtilization ⟨true, true⟩ ps env nsamples numLbaDisplay lbas = .ok run := by
  obtain ⟨banner, hbanner⟩ := buildBanner_ok hbridge (BitVec.ofNat 32 numLbaDisplay)
  have hnone : (lbas.any fun lba => lba.display ≠ 0 && !lba.ops) = false := by
    rw [List.any_eq_false]
    intro lba hmem
    by_cases hd : lba.display ≠ 0
    · simp [hops lba hmem hd]
    · simp [not_not.mp hd]
  rw [measureUtilization, hbanner]
  simp only [measureFrom, hnone]
  exact ⟨_, rfl⟩

/-- Root bridges are missed in `build_banner` only. -/
theorem measureUtilization_null_iff {mem : MeasureMemory} {nsamples numLbaDisplay : ℕ}
    {lbas : List LbaInfo} :
    measureUtilization mem ps env nsamples numLbaDisplay lbas = .error .nullLbaRootBridge ↔
      mem.banner = true ∧ ¬ Bridged lbas := by
  rw [measureUtilization]
  cases hmem : mem.banner with
  | false => simp [buildBanner]
  | true =>
    by_cases hbridge : Bridged lbas
    · obtain ⟨banner, hbanner⟩ := buildBanner_ok hbridge (BitVec.ofNat 32 numLbaDisplay)
      rw [hbanner]
      simp only [measureFrom, hbridge]
      split_ifs <;> simp
    · rw [buildBanner_error hbridge]
      simp [hbridge]

/-- The samples completed are those that complete. -/
theorem lt_samples_iff (nsamples i j : ℕ) :
    j < env.samples nsamples i ↔ j < nsamples ∧ ∀ l ≤ j, env.timeToQuit (i + l) = false := by
  induction nsamples generalizing i j with
  | zero => simp [Env.samples]
  | succ nsamples ih =>
    rw [Env.samples]
    by_cases hq : env.timeToQuit i = true
    · rw [if_pos hq]
      constructor
      · intro h
        omega
      · rintro ⟨-, h⟩
        have := h 0 (Nat.zero_le _)
        rw [Nat.add_zero, hq] at this
        exact absurd this (by decide)
    · rw [if_neg hq]
      cases j with
      | zero =>
        refine ⟨fun _ => ⟨by omega, fun l hl => ?_⟩, fun _ => by omega⟩
        rw [show i + l = i by omega]
        simpa using hq
      | succ j =>
        rw [Nat.add_lt_add_iff_right, ih (i + 1) j, Nat.add_lt_add_iff_right]
        refine and_congr_right fun _ => ⟨fun h l hl => ?_, fun h l hl => ?_⟩
        · cases l with
          | zero => simpa using hq
          | succ l =>
            have := h l (by omega)
            rwa [show i + 1 + l = i + (l + 1) by omega] at this
        · have := h (l + 1) (by omega)
          rwa [show i + (l + 1) = i + 1 + l by omega] at this

theorem completes_iff (nsamples i : ℕ) :
    env.Completes nsamples i ↔ i < env.samples nsamples 0 := by
  rw [lt_samples_iff, Env.Completes]
  simp only [Nat.zero_add]

end ClosedForm

end Pcitop.Tool
