import Pcitop.Common.Interrupts
import Pcitop.Tool.Output

/-!
# SIGINT

`measure_utilization` with its `mask_signals` and `unmask_signals` (`pcitop.c`), step by
step. A signal may arrive before any step; `sigint_handler` sets `time_to_quit`, at once
or when the signal is unmasked. The signals are masked from the end of a `sleep` to just
before the next one, so most of the time the loop does not hear of them.

* `measureSignals_eq`: a run is one of `measure_utilization` in which `time_to_quit` is
  set by a deadline for every sample.
* `measureSignals_interrupted`: after how many samples a run ends, by the step before
  which the first signal arrives.
-/

namespace Pcitop.Tool

open Pcitop.Common

/-- The steps of `measure_utilization`. -/
inductive Micro where
  /-- a write to or a read of an attribute -/
  | access (e : Event)
  | puts (o : Output)
  | sleep
  | maskSignals
  | unmaskSignals
  deriving DecidableEq, Repr

/-- What `mask_signals` and `unmask_signals` do to SIGINT (lines 191–209). -/
def Micro.mask : Micro → MaskStep
  | .maskSignals => .block
  | .unmaskSignals => .unblock
  | _ => .keep

/-- The body of the sampling loop (lines 900–954): the operations of all displayed LBAs,
    and what is printed. -/
def sampleMicros (reading : CString → Reading) (lbas : List LbaInfo) (out : List Output) :
    List Micro :=
  (commandAll hplbaStart lbas).map .access ++ [.unmaskSignals, .sleep, .maskSignals] ++
    (commandAll hplbaStop lbas ++ collectEvents reading lbas).map .access ++ out.map .puts

/-- What is read in the samples, without a say on `time_to_quit`. -/
def readings (reading : ℕ → CString → Reading) : Env := ⟨fun _ => false, reading⟩

/-- The sampling loop from the step `t` on; the test of its condition is a step too. -/
def sampleLoopSignals (ps : PageSize) (reading : ℕ → CString → Reading) (banner : CString)
    (arrives : ℕ → Bool) : ℕ → ℕ → ℕ → Delivery → Run → Run × ℕ × Delivery
  | 0, _, t, d, run => ({ run with nsamples := 0 }, t + 1, d.poll arrives t)
  | nsamples + 1, i, t, d, run =>
    let d := d.poll arrives t
    if d.caught then ({ run with nsamples := nsamples + 1 }, t + 1, d)
    else
      let run' := sampleStep ps (readings reading) banner i run
      let ms := sampleMicros (reading i) run.lbas (run'.out.drop run.out.length)
      sampleLoopSignals ps reading banner arrives nsamples (i + 1) (t + 1 + ms.length)
        (d.run arrives (t + 1) (ms.map Micro.mask)) run'

/-- `measure_utilization` from the return of `build_banner` on, with the number of its
    steps and the signal after the last of them. A schedule says before which steps SIGINT
    arrives. -/
def measureSignals (ps : PageSize) (reading : ℕ → CString → Reading) (arrives : ℕ → Bool)
    (nsamples : ℕ) (lineResults : Bool) (banner : CString) (lbas : List LbaInfo) :
    Except Fault (Run × ℕ × Delivery) :=
  if !lineResults then .error (.exit 1)
  else if lbas.any fun lba => lba.display ≠ 0 && !lba.ops then .error .nullOps
  else
    let events := commandAll hplbaInit lbas ++ commandAll hplbaReset lbas
    let d := Delivery.run arrives 0 ((events.map Micro.access).map Micro.mask)
      ⟨false, false, false⟩
    let (run, t, d) := sampleLoopSignals ps reading banner arrives nsamples 0 events.length d
      { lbas := lbas, events := events, out := [], numLines := UTIL_ROWS, nsamples := nsamples }
    let out := (if run.nsamples ≠ 0 then [Output.interrupted (nsamples - run.nsamples)] else []) ++
      [.banner banner, .average (run.lbas.map averageUtil)]
    let ms := Micro.unmaskSignals :: out.map .puts
    .ok ({ run with out := run.out ++ out }, t + ms.length, d.run arrives t (ms.map Micro.mask))

/-! ## When the steps are taken -/

/-- The number of displayed LBAs. -/
def numDisplayed (lbas : List LbaInfo) : ℕ := (lbas.filter fun lba => lba.display ≠ 0).length

/-- The step that tests the condition of the loop for sample `i`: an LBA takes two
    accesses before the loop and three in a sample, and every sample five more steps and
    on a new screen one for the banner. -/
def testTime (lbas : List LbaInfo) (i : ℕ) : ℕ :=
  2 * numDisplayed lbas + i * (3 * numDisplayed lbas + 5) + (i + 15) / UTIL_ROWS

/-- The step before which a signal has to arrive for the loop to end before sample `i`:
    the one after `mask_signals` in the sample before it. A later one is held back, and
    sample `i` is still taken. -/
def deadline (lbas : List LbaInfo) : ℕ → ℕ
  | 0 => testTime lbas 0 + 1
  | i + 1 => testTime lbas i + numDisplayed lbas + 4

/-- The number of steps of a run that completes `k` samples: after the last test, one for
    `unmask_signals`, one for the notice of an interruption, and two for the averages. -/
def numSteps (lbas : List LbaInfo) (nsamples k : ℕ) : ℕ :=
  testTime lbas k + 1 + if k < nsamples then 4 else 3

section Times

variable {lbas : List LbaInfo} {ps : PageSize}

theorem testTime_zero : testTime lbas 0 = 2 * numDisplayed lbas := by
  simp [testTime, UTIL_ROWS, SCREEN_ROWS, NUM_BANNER_ROWS]

theorem testTime_succ (i : ℕ) : testTime lbas (i + 1) = testTime lbas i +
    (3 * numDisplayed lbas + 5) + if i % UTIL_ROWS = 0 then 1 else 0 := by
  have hrows : (i + 1 + 15) / 16 = (i + 15) / 16 + if i % 16 = 0 then 1 else 0 := by
    split_ifs <;> omega
  rw [testTime, testTime, show UTIL_ROWS = 16 from rfl, hrows, Nat.add_mul, Nat.one_mul]
  omega

theorem length_commandAll (bytes : CString) (lbas : List LbaInfo) :
    (commandAll bytes lbas).length = numDisplayed lbas := by
  rw [commandAll, List.length_map, numDisplayed]

theorem length_collectEvents (r : CString → Reading) (lbas : List LbaInfo) :
    (collectEvents r lbas).length = numDisplayed lbas := by
  rw [collectEvents, List.length_map, numDisplayed]

theorem numDisplayed_map_after (env : Env) (i : ℕ) :
    numDisplayed (lbas.map fun lba => env.after ps lba i) = numDisplayed lbas := by
  have hlen := congrArg List.length (@filter_map_after ps env lbas i fun name => .write name [])
  simpa only [List.length_map, numDisplayed] using hlen

theorem length_sampleMicros (r : CString → Reading) (lbas : List LbaInfo) (out : List Output) :
    (sampleMicros r lbas out).length = 3 * numDisplayed lbas + 3 + out.length := by
  simp only [sampleMicros, List.length_append, List.length_map, length_commandAll,
    length_collectEvents, List.length_cons, List.length_nil]
  omega

end Times

/-! ## The signal -/

section Runs

variable {lbas : List LbaInfo} {ps : PageSize} {reading : ℕ → CString → Reading}
  {arrives : ℕ → Bool} {d : Delivery} {t : ℕ}

theorem mask_access (es : List Event) :
    ∀ m ∈ (es.map Micro.access).map Micro.mask, m = .keep := by
  intro m hm
  simp only [List.map_map, List.mem_map, Function.comp_apply] at hm
  obtain ⟨e, -, rfl⟩ := hm
  rfl

theorem mask_puts (out : List Output) : ∀ m ∈ (out.map Micro.puts).map Micro.mask, m = .keep := by
  intro m hm
  simp only [List.map_map, List.mem_map, Function.comp_apply] at hm
  obtain ⟨o, -, rfl⟩ := hm
  rfl

/-- After a sample that begins at step `t` the signals that had arrived when
    `mask_signals` was called are caught, and no others. -/
theorem held_sampleMicros (hd : d.Caught arrives t ∨ ∃ b, d.Held arrives b t)
    (r : CString → Reading) (lbas : List LbaInfo) (out : List Output) :
    (d.run arrives t ((sampleMicros r lbas out).map Micro.mask)).Held arrives
      (t + numDisplayed lbas + 3) (t + (sampleMicros r lbas out).length) := by
  let starts := ((commandAll hplbaStart lbas).map Micro.access).map Micro.mask
  let rest := ((commandAll hplbaStop lbas ++ collectEvents r lbas).map Micro.access).map
    Micro.mask ++ (out.map Micro.puts).map Micro.mask
  have hsplit : (sampleMicros r lbas out).map Micro.mask =
      starts ++ ([.unblock] ++ ([.keep] ++ ([.block] ++ rest))) := by
    simp only [sampleMicros, List.map_append, starts, rest, List.append_assoc]
    rfl
  have hstarts : starts.length = numDisplayed lbas := by
    simp only [starts, List.length_map, length_commandAll]
  have hrest : ∀ m ∈ rest, m = .keep := by
    intro m hm
    rcases List.mem_append.mp hm with hm | hm
    · exact mask_access _ m hm
    · exact mask_puts _ m hm
  -- The signals are unmasked before `sleep` and masked after it.
  have hopen : ((d.run arrives t starts).run arrives (t + starts.length) [.unblock]).Caught
      arrives (t + starts.length + 1) := by
    rcases hd with hd | ⟨b, hd⟩
    · exact (hd.run_keep (mask_access _)).unblock
    · exact (hd.run_keep (mask_access _)).unblock
  have hsleep := hopen.run_keep (show ∀ m ∈ [MaskStep.keep], m = .keep by simp)
  have hmasked := hsleep.block.run_keep hrest
  rw [hsplit, Delivery.run_append, Delivery.run_append, Delivery.run_append, Delivery.run_append]
  have hlen : (sampleMicros r lbas out).length = starts.length + 3 + rest.length := by
    have := congrArg List.length hsplit
    simp only [List.length_map, List.length_append, List.length_cons, List.length_nil] at this
    omega
  have htime : t + (starts.length + 3 + rest.length) =
      t + starts.length + 1 + 1 + 1 + rest.length := by
    omega
  rw [hlen, htime, ← hstarts]
  exact hmasked

/-- At the end of a run all signals are caught. -/
theorem caught_end (hd : d.Caught arrives t ∨ ∃ b, d.Held arrives b t) (out : List Output) :
    (d.run arrives t ((Micro.unmaskSignals :: out.map .puts).map Micro.mask)).Caught arrives
      (t + (Micro.unmaskSignals :: out.map Micro.puts).length) := by
  have hopen : (d.run arrives t [.unblock]).Caught arrives (t + 1) := by
    rcases hd with hd | ⟨b, hd⟩
    · exact hd.unblock
    · exact hd.unblock
  have hend := hopen.run_keep (mask_puts out)
  rw [List.length_map] at hend
  rw [List.length_cons, Nat.add_comm _ 1, ← Nat.add_assoc]
  exact hend

/-- `time_to_quit` is set by the deadlines. -/
def quitAt (arrives : ℕ → Bool) (lbas : List LbaInfo) (reading : ℕ → CString → Reading) : Env :=
  ⟨fun i => arrivedBy arrives (deadline lbas i), reading⟩

/-- The signal when the condition is tested for sample `i`. -/
def Tested (arrives : ℕ → Bool) (lbas : List LbaInfo) (i : ℕ) (d : Delivery) : Prop :=
  (i = 0 ∧ d.Caught arrives (testTime lbas i)) ∨
    d.Held arrives (deadline lbas i) (testTime lbas i)

theorem Tested.poll {i : ℕ} (hd : Tested arrives lbas i d) :
    (d.poll arrives (testTime lbas i)).caught = arrivedBy arrives (deadline lbas i) ∧
      ((d.poll arrives (testTime lbas i)).Caught arrives (testTime lbas i + 1) ∨
        ∃ b, (d.poll arrives (testTime lbas i)).Held arrives b (testTime lbas i + 1)) := by
  rcases hd with ⟨rfl, hd⟩ | hd
  · exact ⟨hd.poll.caught, .inl hd.poll⟩
  · exact ⟨hd.poll.caught, .inr ⟨_, hd.poll⟩⟩

/-- The loop. -/
theorem sampleLoopSignals_eq (banner : CString) (nsamples i : ℕ) {run : Run}
    (hlines : run.numLines = linesAt i)
    (hlbas : run.lbas = lbas.map fun lba => (quitAt arrives lbas reading).after ps lba i)
    (hd : Tested arrives lbas i d) :
    let t := testTime lbas (i + (quitAt arrives lbas reading).samples nsamples i) + 1
    ∃ d', sampleLoopSignals ps reading banner arrives nsamples i (testTime lbas i) d run =
        (sampleLoop ps (quitAt arrives lbas reading) banner nsamples i run, t, d') ∧
      (d'.Caught arrives t ∨ ∃ b, d'.Held arrives b t) := by
  induction nsamples generalizing i d run with
  | zero => exact ⟨_, rfl, hd.poll.2⟩
  | succ nsamples ih =>
    obtain ⟨hcaught, hpoll⟩ := hd.poll
    rw [sampleLoopSignals, sampleLoop, Env.samples]
    have hquit : (quitAt arrives lbas reading).timeToQuit i =
        (d.poll arrives (testTime lbas i)).caught := hcaught.symm
    simp only [hquit]
    by_cases hq : (d.poll arrives (testTime lbas i)).caught = true
    · rw [if_pos hq, if_pos hq, if_pos hq]
      exact ⟨_, rfl, hpoll⟩
    · rw [if_neg hq, if_neg hq, if_neg hq,
        show i + ((quitAt arrives lbas reading).samples nsamples (i + 1) + 1) =
          i + 1 + (quitAt arrives lbas reading).samples nsamples (i + 1) by omega]
      -- A sample does not look at `time_to_quit`.
      have hstep : sampleStep ps (readings reading) banner i run =
          sampleStep ps (quitAt arrives lbas reading) banner i run := rfl
      obtain ⟨hlines', hout⟩ := sampleStep_out banner hlines hlbas
      have hlbas' := (sampleStep_eq banner lbas i hlbas).1
      rw [hstep, hout, List.drop_left]
      have hlen : testTime lbas i + 1 + (sampleMicros (reading i) run.lbas (sampleOut banner
          ((quitAt arrives lbas reading).row ps lbas i) i)).length = testTime lbas (i + 1) := by
        rw [length_sampleMicros, hlbas, numDisplayed_map_after, testTime_succ, sampleOut]
        split_ifs <;> simp <;> omega
      have hheld := held_sampleMicros hpoll (reading i) run.lbas (sampleOut banner
        ((quitAt arrives lbas reading).row ps lbas i) i)
      rw [hlen] at hheld ⊢
      refine ih (i + 1) hlines' hlbas' (.inr ?_)
      have hdeadline : testTime lbas i + 1 + numDisplayed run.lbas + 3 = deadline lbas (i + 1) := by
        rw [hlbas, numDisplayed_map_after, deadline]
        omega
      rw [← hdeadline]
      exact hheld

/-- The signal after the accesses before the loop. -/
theorem tested_start (lbas : List LbaInfo) :
    Tested arrives lbas 0 (Delivery.run arrives 0
      (((commandAll hplbaInit lbas ++ commandAll hplbaReset lbas).map Micro.access).map Micro.mask)
      ⟨false, false, false⟩) := by
  have hstart : Delivery.Caught arrives 0 ⟨false, false, false⟩ := ⟨rfl, rfl, rfl⟩
  have hrun := hstart.run_keep
    (mask_access (commandAll hplbaInit lbas ++ commandAll hplbaReset lbas))
  refine .inl ⟨rfl, ?_⟩
  rw [testTime_zero, Nat.two_mul]
  simpa only [List.length_map, List.length_append, length_commandAll, Nat.zero_add] using hrun

/-- A run with signals comes to the same end as one of `measure_utilization`. -/
theorem measureSignals_cases (ps : PageSize) (reading : ℕ → CString → Reading)
    (arrives : ℕ → Bool) (nsamples : ℕ) (lineResults : Bool) (banner : CString)
    (lbas : List LbaInfo) :
    (∃ fault, measureSignals ps reading arrives nsamples lineResults banner lbas = .error fault ∧
      measureFrom ps (quitAt arrives lbas reading) nsamples lineResults banner lbas =
        .error fault) ∨
    ∃ run t, measureSignals ps reading arrives nsamples lineResults banner lbas =
        .ok (run, t, ⟨false, false, arrivedBy arrives t⟩) ∧
      measureFrom ps (quitAt arrives lbas reading) nsamples lineResults banner lbas = .ok run ∧
      t = numSteps lbas nsamples ((quitAt arrives lbas reading).samples nsamples 0) := by
  unfold measureSignals measureFrom
  split_ifs with h₁ h₂
  · exact .inl ⟨_, rfl, rfl⟩
  · exact .inl ⟨_, rfl, rfl⟩
  · have hstart := lbas_start ps (quitAt arrives lbas reading)
      (commandAll hplbaInit lbas ++ commandAll hplbaReset lbas) nsamples lbas
    obtain ⟨d, hloop, hd⟩ := sampleLoopSignals_eq banner nsamples 0
      (show _ = linesAt 0 from rfl) hstart (tested_start lbas)
    obtain ⟨hk, hleft, -⟩ := sampleLoop_eq banner lbas nsamples 0 hstart
    have htime : (commandAll hplbaInit lbas ++ commandAll hplbaReset lbas).length =
        testTime lbas 0 := by
      rw [List.length_append, length_commandAll, length_commandAll, testTime_zero, Nat.two_mul]
    simp only [htime, hloop]
    generalize sampleLoop ps (quitAt arrives lbas reading) banner nsamples 0 _ = last at hleft ⊢
    refine .inr ⟨_, _, ?_, rfl, rfl⟩
    rw [(caught_end hd _).eq]
    have hsteps : ∀ o a : Output, testTime lbas (0 + (quitAt arrives lbas reading).samples
        nsamples 0) + 1 + (Micro.unmaskSignals :: ((if last.nsamples ≠ 0 then [o] else []) ++
          [.banner banner, a]).map .puts).length =
        numSteps lbas nsamples ((quitAt arrives lbas reading).samples nsamples 0) := by
      intro o a
      rw [hleft, numSteps, Nat.zero_add]
      split_ifs <;> simp <;> omega
    rw [hsteps, List.append_assoc]

/-- Whenever SIGINT arrives, a run does what it does when `time_to_quit` is set by the
    deadlines, and after the last of its steps every signal that arrived is caught. -/
theorem measureSignals_eq (ps : PageSize) (reading : ℕ → CString → Reading) (arrives : ℕ → Bool)
    (nsamples : ℕ) (lineResults : Bool) (banner : CString) (lbas : List LbaInfo) :
    (measureSignals ps reading arrives nsamples lineResults banner lbas).map Prod.fst =
        measureFrom ps (quitAt arrives lbas reading) nsamples lineResults banner lbas ∧
      ∀ run t d,
        measureSignals ps reading arrives nsamples lineResults banner lbas = .ok (run, t, d) →
          t = numSteps lbas nsamples run.rows.length ∧ d = ⟨false, false, arrivedBy arrives t⟩ := by
  rcases measureSignals_cases ps reading arrives nsamples lineResults banner lbas with
    ⟨fault, hsignals, hmeasure⟩ | ⟨run, t, hsignals, hmeasure, ht⟩
  · rw [hsignals, hmeasure]
    exact ⟨rfl, fun run t d h => absurd h (by simp)⟩
  · rw [hsignals, hmeasure]
    refine ⟨rfl, fun run' t' d h => ?_⟩
    obtain ⟨rfl, hend⟩ := Prod.mk.inj (Except.ok.inj h)
    obtain ⟨rfl, rfl⟩ := Prod.mk.inj hend
    rw [(measureFrom_eq hmeasure).rows, List.length_map, List.length_range]
    exact ⟨ht, rfl⟩

/-- The samples of a run, by the step before which the first signal arrives: `k` is the
    first sample whose deadline it meets. -/
theorem measureSignals_interrupted {nsamples : ℕ} {lineResults : Bool} {banner : CString}
    {run : Run} {steps : ℕ}
    (hrun : measureSignals ps reading arrives nsamples lineResults banner lbas =
      .ok (run, steps, d))
    (ht : arrives t = true) (hfirst : ∀ s < t, arrives s = false) {k : ℕ}
    (hk : t < deadline lbas k) (hbefore : ∀ j < k, deadline lbas j ≤ t) :
    run.rows.length = min nsamples k ∧ (Output.interrupted k ∈ run.out ↔ k < nsamples) := by
  have hmeasure : measureFrom ps (quitAt arrives lbas reading) nsamples lineResults banner lbas =
      .ok run := by
    rcases measureSignals_cases ps reading arrives nsamples lineResults banner lbas with
      ⟨fault, hsignals, -⟩ | ⟨run', t', hsignals, hmeasure, -⟩
    · exact absurd (hrun.symm.trans hsignals) (by simp)
    · rw [hmeasure, (Prod.mk.inj (Except.ok.inj (hrun.symm.trans hsignals))).1]
  have hquit : ∀ j, (quitAt arrives lbas reading).timeToQuit j = true ↔ t < deadline lbas j := by
    intro j
    show arrivedBy arrives (deadline lbas j) = true ↔ _
    rw [arrivedBy_eq_true_iff]
    constructor
    · rintro ⟨s, hs, has⟩
      by_contra hle
      exact absurd has (by simp [hfirst s (by omega)])
    · exact fun hlt => ⟨t, hlt, ht⟩
  have hlt : ∀ j, j < (quitAt arrives lbas reading).samples nsamples 0 ↔ j < min nsamples k := by
    intro j
    rw [lt_samples_iff, Nat.lt_min]
    refine and_congr_right fun _ => ⟨fun h => ?_, fun h l hl => ?_⟩
    · by_contra hjk
      have hfalse := h k (by omega)
      rw [Nat.zero_add] at hfalse
      exact absurd ((hquit k).mpr hk) (by simp [hfalse])
    · rw [Nat.zero_add]
      refine Bool.eq_false_of_not_eq_true fun htrue => ?_
      have := hbefore l (by omega)
      have := (hquit l).mp htrue
      omega
  have hsamples : (quitAt arrives lbas reading).samples nsamples 0 = min nsamples k := by
    refine Nat.le_antisymm (Nat.le_of_not_lt fun h => ?_) (Nat.le_of_not_lt fun h => ?_)
    · exact lt_irrefl _ ((hlt _).mp h)
    · exact lt_irrefl _ ((hlt _).mpr h)
  constructor
  · rw [(measureFrom_eq hmeasure).rows, List.length_map, List.length_range, hsamples]
  · rw [measureFrom_output hmeasure, hsamples]
    have hno : ∀ row i, Output.interrupted k ∉ sampleOut banner row i := by
      intro row i
      rw [sampleOut]
      split_ifs <;> simp
    simp only [List.mem_append, List.mem_flatMap, hno, and_false, exists_false, false_or,
      List.mem_cons, List.not_mem_nil, or_false, reduceCtorEq]
    split_ifs with hlt'
    · have hmin : min nsamples k = k := by omega
      simp [hmin]
      omega
    · simp
      omega

/-- Three LBAs, of which two are displayed. -/
def signalLbas : List LbaInfo :=
  [{ registeredLba "0000:00:00.0".toList with ops := true, display := 1 },
    { registeredLba "0001:00:00.0".toList with ops := true },
    { registeredLba "0002:00:00.0".toList with ops := true, display := 1 }]

/-- A signal while the first sample is read, which ends the run after the second. -/
theorem measureSignals_interrupted_second :
    ∃ run steps d, measureSignals ⟨4096, le_rfl⟩ (fun _ _ => ⟨true, .noRead⟩) (fun t => t = 12) 5
        true [] signalLbas = .ok (run, steps, d) ∧
      run.rows.length = 2 ∧ Output.interrupted 2 ∈ run.out := by
  obtain ⟨run, steps, d, hrun⟩ : ∃ run steps d, measureSignals ⟨4096, le_rfl⟩
      (fun _ _ => ⟨true, .noRead⟩) (fun t => t = 12) 5 true [] signalLbas =
        .ok (run, steps, d) := ⟨_, _, _, rfl⟩
  have hfirst : ∀ s < 12, decide (s = 12) = false :=
    fun s hs => decide_eq_false (Nat.ne_of_lt hs)
  have hsamples := measureSignals_interrupted hrun (decide_eq_true rfl) hfirst (k := 2)
    (by decide) fun j hj => by interval_cases j <;> decide
  exact ⟨run, steps, d, hrun, hsamples.1, hsamples.2.mpr (by norm_num)⟩

end Runs

end Pcitop.Tool
