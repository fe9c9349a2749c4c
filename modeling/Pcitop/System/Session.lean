import Pcitop.Common.Family
import Pcitop.Driver.UtilState
import Pcitop.Tool.Measure

/-!
# The tool against the driver

A run of the sampling loop, its accesses carried out by the driver: a write to the
`utilization` attribute of an LBA is a call of `utilization_store` for the device of
that name. The devices are a family of state machines (`Common/Family.lean`), so
that the traversals of the loop, which interleave them, can be looked at one LBA at
a time.

* `filter_events`: the accesses to one LBA.
* `allOk_session`: they are in order from any state the driver may be left in.
* `measureUtilization_session`: what that means for the run.
-/

namespace Pcitop.System

open Pcitop.Common Pcitop.Hplba Pcitop.Driver Pcitop.Tool

/-! ## The driver under the accesses -/

/-- An access to the attribute of an LBA. -/
def access (chip : Chip) : Event → Lba (Regs 64) → Lba (Regs 64)
  | .write _ bytes, lba => (utilizationStore chip.utilOps lba bytes).2
  | .collect _ _, lba => lba

/-- An access is in order: a write is accepted whole, and counters are read in STOP. -/
def InOrder (chip : Chip) (lba : Lba (Regs 64)) : Event → Prop
  | .write _ bytes => (utilizationStore chip.utilOps lba bytes).1 = bytes.length
  | .collect _ _ => lba.utilState = .stop

/-- The driver after the accesses `es`, with a device of its own chip for every
    name. -/
def driverAfter (chips : CString → Chip) (d₀ : CString → Lba (Regs 64)) (es : List Event) :
    CString → Lba (Regs 64) :=
  deliverAll Event.name (fun name => access (chips name)) d₀ es

theorem op_ret (chip : Chip) {s : LbaUtilStates} (hs : s ≠ .unk) (regs : Regs 64) :
    (chip.utilOps.op s regs).1 = 0 := by
  rw [Chip.utilOps_eq]
  cases s <;> first | rfl | exact absurd rfl hs

/-- A command at most one rung above the state is accepted. -/
theorem store_command (chip : Chip) (lba : Lba (Regs 64)) (bytes : CString) {s : LbaUtilStates}
    (hs : s ≠ .unk) (hbytes : firstLine bytes = stateName s)
    (hrank : rank s ≤ rank lba.utilState + 1) :
    (utilizationStore chip.utilOps lba bytes).1 = bytes.length ∧
      (utilizationStore chip.utilOps lba bytes).2.utilState = s := by
  have hlegal : ¬ utilTransition s.code lba.utilState < 0 := by
    rw [utilTransition_neg_iff, not_or]
    exact ⟨hs, by omega⟩
  have hret : ¬ (chip.utilOps.op s lba.device).1 < 0 := by
    rw [op_ret chip hs]
    omega
  rw [utilizationStore_of_command chip.utilOps lba hs hbytes hlegal hret]
  exact ⟨rfl, rfl⟩

/-! ## One LBA -/

/-- The accesses to an LBA in a sample. -/
def sampleAccesses (env : Env) (name : CString) (i : ℕ) : List Event :=
  [.write name hplbaStart, .write name hplbaStop, .collect name (env.reading i name).buffer]

/-- The accesses to an LBA in a run with the samples `is`. -/
def lbaAccesses (env : Env) (name : CString) (is : List ℕ) : List Event :=
  .write name hplbaInit :: .write name hplbaReset :: is.flatMap (sampleAccesses env name)

/-- From RESET or above, any number of samples is in order. -/
theorem allOk_samples (chip : Chip) (env : Env) (name : CString) (is : List ℕ)
    {lba : Lba (Regs 64)} (h : 2 ≤ rank lba.utilState) :
    AllOk (InOrder chip) (access chip) lba (is.flatMap (sampleAccesses env name)) ∧
      (is ≠ [] → (runAll (access chip) lba
        (is.flatMap (sampleAccesses env name))).utilState = .stop) := by
  induction is generalizing lba with
  | nil => exact ⟨trivial, fun h => absurd rfl h⟩
  | cons i is ih =>
    obtain ⟨hstart, hs⟩ := store_command chip lba hplbaStart (s := .start)
      (by decide) (by decide) (show 3 ≤ rank lba.utilState + 1 by omega)
    let lba₁ := (utilizationStore chip.utilOps lba hplbaStart).2
    obtain ⟨hstop, ht⟩ := store_command chip lba₁ hplbaStop (s := .stop)
      (by decide) (by decide) (by rw [hs]; decide)
    let lba₂ := (utilizationStore chip.utilOps lba₁ hplbaStop).2
    have hrank : 2 ≤ rank lba₂.utilState := by rw [ht]; decide
    obtain ⟨hok, hend⟩ := ih hrank
    refine ⟨⟨hstart, hstop, ht, hok⟩, fun _ => ?_⟩
    rcases List.eq_nil_or_concat is with rfl | ⟨is', j, rfl⟩
    · exact ht
    · exact hend (by simp)

/-- The accesses to an LBA are in order from any state, and end in STOP when there
    is a sample. -/
theorem allOk_session (chip : Chip) (env : Env) (name : CString) (is : List ℕ)
    (lba : Lba (Regs 64)) :
    AllOk (InOrder chip) (access chip) lba (lbaAccesses env name is) ∧
      (is ≠ [] → (runAll (access chip) lba (lbaAccesses env name is)).utilState = .stop) := by
  obtain ⟨hinit, hi⟩ := store_command chip lba hplbaInit (s := .init)
    (by decide) (by decide) (show 1 ≤ rank lba.utilState + 1 by omega)
  let lba₁ := (utilizationStore chip.utilOps lba hplbaInit).2
  obtain ⟨hreset, hr⟩ := store_command chip lba₁ hplbaReset (s := .reset)
    (by decide) (by decide) (by rw [hi]; decide)
  let lba₂ := (utilizationStore chip.utilOps lba₁ hplbaReset).2
  have hrank : 2 ≤ rank lba₂.utilState := by rw [hr]; decide
  obtain ⟨hok, hend⟩ := allOk_samples chip env name is hrank
  exact ⟨⟨hinit, hreset, hok⟩, hend⟩

/-! ## All LBAs -/

theorem filter_name_eq {lbas : List LbaInfo} (hnodup : (lbas.map (·.name)).Nodup)
    {lba : LbaInfo} (hmem : lba ∈ lbas) : (lbas.filter fun x => x.name = lba.name) = [lba] := by
  induction lbas with
  | nil => simp at hmem
  | cons x xs ih =>
    rw [List.map_cons, List.nodup_cons] at hnodup
    obtain ⟨hx, hxs⟩ := hnodup
    rcases List.mem_cons.mp hmem with rfl | hmem
    · have hnone : (xs.filter fun y => y.name = lba.name) = [] := by
        rw [List.filter_eq_nil_iff]
        intro y hy hname
        exact hx (of_decide_eq_true hname ▸ List.mem_map_of_mem hy)
      rw [List.filter_cons, if_pos (by simp), hnone]
    · have hne : x.name ≠ lba.name := by
        intro hname
        exact hx (hname ▸ List.mem_map_of_mem hmem)
      rw [List.filter_cons, if_neg (by simpa using hne), ih hxs hmem]

/-- A traversal of the displayed LBAs accesses each of them once. -/
theorem filter_traversal {lbas : List LbaInfo} (hnodup : (lbas.map (·.name)).Nodup)
    {lba : LbaInfo} (hmem : lba ∈ lbas) {f : CString → Event} (hf : ∀ name, (f name).name = name) :
    (((lbas.filter fun x => x.display ≠ 0).map fun x => f x.name).filter
        fun e => e.name = lba.name) =
      if lba.display ≠ 0 then [f lba.name] else [] := by
  have hpred : ((fun e : Event => decide (e.name = lba.name)) ∘ fun x : LbaInfo => f x.name) =
      fun x : LbaInfo => decide (x.name = lba.name) := by
    funext x
    simp only [Function.comp, hf]
  rw [List.filter_map, hpred, List.filter_comm, filter_name_eq hnodup hmem, List.filter_cons]
  simp only [decide_eq_true_eq]
  split_ifs <;> rfl

/-- The accesses of a run to one of its LBAs. -/
theorem filter_events {ps : PageSize} {env : Env} {nsamples : ℕ} {lbas : List LbaInfo} {run : Run}
    (h : RunSpec ps env nsamples lbas run) (hnodup : (lbas.map (·.name)).Nodup) {lba : LbaInfo}
    (hmem : lba ∈ lbas) :
    (run.events.filter fun e => e.name = lba.name) =
      if lba.display ≠ 0 then lbaAccesses env lba.name (List.range (env.samples nsamples 0))
      else [] := by
  have hw : ∀ bytes, ((commandAll bytes lbas).filter fun e => e.name = lba.name) =
      if lba.display ≠ 0 then [.write lba.name bytes] else [] :=
    fun bytes => filter_traversal hnodup hmem (f := fun name => .write name bytes) fun _ => rfl
  have hc : ∀ i, ((collectEvents (env.reading i) lbas).filter fun e => e.name = lba.name) =
      if lba.display ≠ 0 then [.collect lba.name (env.reading i lba.name).buffer] else [] :=
    fun i => filter_traversal hnodup hmem
      (f := fun name => .collect name (env.reading i name).buffer) fun _ => rfl
  rw [h.events, List.filter_append, List.filter_append, List.filter_flatMap, hw, hw]
  simp only [Env.sampleEvents, List.filter_append, hw, hc]
  split_ifs
  · rfl
  · simp

/-- Accesses to a name that no LBA has do not occur. -/
theorem filter_events_of_not_mem {ps : PageSize} {env : Env} {nsamples : ℕ}
    {lbas : List LbaInfo} {run : Run} (h : RunSpec ps env nsamples lbas run) {name : CString}
    (hname : name ∉ lbas.map (·.name)) : (run.events.filter fun e => e.name = name) = [] := by
  have ht : ∀ f : CString → Event, (∀ n, (f n).name = n) →
      ∀ e ∈ ((lbas.filter fun x => x.display ≠ 0).map fun x => f x.name), e.name ≠ name := by
    intro f hf e he heq
    obtain ⟨x, hx, rfl⟩ := List.mem_map.mp he
    rw [hf] at heq
    exact hname (heq ▸ List.mem_map_of_mem (List.mem_of_mem_filter hx))
  rw [List.filter_eq_nil_iff, h.events]
  intro e he heq
  have heq := of_decide_eq_true heq
  simp only [List.mem_append, List.mem_flatMap, Env.sampleEvents] at he
  rcases he with (he | he) | ⟨i, -, (he | he) | he⟩
  · exact ht (fun n => .write n hplbaInit) (fun _ => rfl) e he heq
  · exact ht (fun n => .write n hplbaReset) (fun _ => rfl) e he heq
  · exact ht (fun n => .write n hplbaStart) (fun _ => rfl) e he heq
  · exact ht (fun n => .write n hplbaStop) (fun _ => rfl) e he heq
  · exact ht (fun n => .collect n (env.reading i n).buffer) (fun _ => rfl) e he heq

/-- The string written by an access, if it is a write. -/
def bytes? : Event → Option CString
  | .write _ bytes => some bytes
  | .collect _ _ => none

/-- Whether an access reads, if it is a call of `hplba_collect`. -/
def reads? : Event → Option Bool
  | .write _ _ => none
  | .collect _ reads => some reads

theorem filterMap_bytes_lbaAccesses (env : Env) (name : CString) (is : List ℕ) :
    (lbaAccesses env name is).filterMap bytes? =
      hplbaInit :: hplbaReset :: (List.replicate is.length [hplbaStart, hplbaStop]).flatten := by
  have hsamples : (is.flatMap (sampleAccesses env name)).filterMap bytes? =
      (List.replicate is.length [hplbaStart, hplbaStop]).flatten := by
    induction is with
    | nil => rfl
    | cons i is ih =>
      rw [List.flatMap_cons, List.filterMap_append, ih, List.length_cons, List.replicate_succ,
        List.flatten_cons]
      rfl
  rw [← hsamples]
  rfl

theorem filterMap_reads_lbaAccesses (env : Env) (name : CString) (is : List ℕ) :
    (lbaAccesses env name is).filterMap reads? = is.map fun i => (env.reading i name).buffer := by
  have hsamples : (is.flatMap (sampleAccesses env name)).filterMap reads? =
      is.map fun i => (env.reading i name).buffer := by
    induction is with
    | nil => rfl
    | cons i is ih =>
      rw [List.flatMap_cons, List.filterMap_append, ih]
      rfl
  rw [← hsamples]
  rfl

/-- The strings a run writes to the LBA of a name. -/
def writesTo (name : CString) (es : List Event) : List CString :=
  (es.filter fun e => e.name = name).filterMap bytes?

/-- The calls of `hplba_collect` for the LBA of a name, each by whether it reads. -/
def collectsOf (name : CString) (es : List Event) : List Bool :=
  (es.filter fun e => e.name = name).filterMap reads?

/-- Every access of a run is in order when it is carried out. -/
theorem inOrder_events {ps : PageSize} {env : Env} {nsamples : ℕ} {lbas : List LbaInfo}
    {run : Run} (h : RunSpec ps env nsamples lbas run) (hnodup : (lbas.map (·.name)).Nodup)
    (chips : CString → Chip) (d₀ : CString → Lba (Regs 64)) {before after : List Event}
    {e : Event} (hes : run.events = before ++ e :: after) :
    InOrder (chips e.name) (driverAfter chips d₀ before e.name) e := by
  have hall : ∀ name, AllOk (InOrder (chips name)) (access (chips name)) (d₀ name)
      (run.events.filter fun e => e.name = name) := by
    intro name
    by_cases hname : name ∈ lbas.map (·.name)
    · obtain ⟨lba, hmem, rfl⟩ := List.mem_map.mp hname
      rw [filter_events h hnodup hmem]
      split_ifs
      · exact (allOk_session (chips lba.name) env lba.name _ (d₀ lba.name)).1
      · trivial
    · rw [filter_events_of_not_mem h hname]
      trivial
  exact ok_of_forall_index hall hes

/-- Over LBAs of distinct names, whatever state the driver was left in: a run that
    completes `k` samples writes init, reset and `k` times start and stop to every
    displayed LBA; the driver accepts every write; `hplba_collect` is called `k`
    times for every displayed LBA and reads whenever it has its buffer, always in
    STOP; no other LBA is accessed; and a sampled LBA ends in STOP. -/
theorem measureUtilization_session {mem : MeasureMemory} {ps : PageSize} {env : Env}
    {nsamples numLbaDisplay : ℕ} {lbas : List LbaInfo} {run : Run}
    (hrun : measureUtilization mem ps env nsamples numLbaDisplay lbas = .ok run)
    (hnodup : (lbas.map (·.name)).Nodup) (chips : CString → Chip)
    (d₀ : CString → Lba (Regs 64)) :
    let k := run.rows.length
    run.nsamples + k = nsamples ∧
      (∀ lba ∈ lbas, lba.display ≠ 0 →
        writesTo lba.name run.events =
            hplbaInit :: hplbaReset :: (List.replicate k [hplbaStart, hplbaStop]).flatten ∧
          collectsOf lba.name run.events =
            (List.range k).map fun i => (env.reading i lba.name).buffer) ∧
      (∀ before name bytes after, run.events = before ++ .write name bytes :: after →
        (utilizationStore (chips name).utilOps (driverAfter chips d₀ before name) bytes).1 =
          bytes.length) ∧
      (∀ before name reads after, run.events = before ++ .collect name reads :: after →
        (driverAfter chips d₀ before name).utilState = .stop) ∧
      (∀ lba ∈ lbas, lba.display = 0 → ∀ e ∈ run.events, e.name ≠ lba.name) ∧
      (1 ≤ k → ∀ lba ∈ lbas, lba.display ≠ 0 →
        (driverAfter chips d₀ run.events lba.name).utilState = .stop) := by
  intro k
  have hspec := measureUtilization_eq hrun
  have hk : k = env.samples nsamples 0 := by
    show run.rows.length = env.samples nsamples 0
    rw [hspec.rows, List.length_map, List.length_range]
  have hlen : (List.range (env.samples nsamples 0)).length = k := by rw [List.length_range, hk]
  refine ⟨?_, ?_, ?_, ?_, ?_, ?_⟩
  · have hle := hspec.samples_le
    rw [hspec.nsamples_eq, hk]
    omega
  · intro lba hmem hd
    rw [writesTo, collectsOf, filter_events hspec hnodup hmem, if_pos hd,
      filterMap_bytes_lbaAccesses, filterMap_reads_lbaAccesses, hlen, hk]
    exact ⟨rfl, rfl⟩
  · intro before name bytes after hes
    exact inOrder_events hspec hnodup chips d₀ hes
  · intro before name reads after hes
    exact inOrder_events hspec hnodup chips d₀ hes
  · intro lba hmem hd e he hname
    have hnone := filter_events hspec hnodup hmem
    rw [if_neg (not_not.mpr hd), List.filter_eq_nil_iff] at hnone
    exact hnone e he (decide_eq_true hname)
  · intro hpos lba hmem hd
    have hne : List.range (env.samples nsamples 0) ≠ [] := by
      rw [← List.length_pos_iff, hlen]
      exact hpos
    rw [driverAfter, deliverAll_apply, filter_events hspec hnodup hmem, if_pos hd]
    exact (allOk_session (chips lba.name) env lba.name _ (d₀ lba.name)).2 hne

/-- A sample with 5 ticks of which 3 were busy. -/
def steadyEnv : Env where
  timeToQuit _ := false
  reading _ _ := ⟨true, .data "5,3\n".toList⟩

/-- Three LBAs of different chips, of which the second is not displayed. -/
def oneHidden : List LbaInfo := [lba0, { lba1 with display := 0 }, lba2]

def oneHiddenChips (name : CString) : Chip :=
  if name = lba0.name then .apollo else if name = lba2.name then .gemini else .mercury

theorem bridged_oneHidden : Bridged oneHidden := by
  unfold Bridged
  decide

theorem measureUtilization_session_oneHidden :
    let written := [hplbaInit, hplbaReset, hplbaStart, hplbaStop, hplbaStart, hplbaStop]
    ∃ run, measureUtilization ⟨true, true⟩ ⟨4096, le_rfl⟩ steadyEnv 2 2 oneHidden = .ok run ∧
      run.nsamples = 0 ∧ run.rows.length = 2 ∧
      (∀ lba ∈ [lba0, lba2], writesTo lba.name run.events = written ∧
        collectsOf lba.name run.events = [true, true] ∧
        (driverAfter oneHiddenChips (fun _ => ⟨.start, fun _ => 0⟩) run.events lba.name).utilState =
          .stop) ∧
      ∀ e ∈ run.events, e.name ≠ lba1.name := by
  intro written
  have hok : ∃ run, measureUtilization ⟨true, true⟩ ⟨4096, le_rfl⟩ steadyEnv 2 2 oneHidden =
      .ok run :=
    measureUtilization_ok 2 2 bridged_oneHidden (by decide)
  obtain ⟨run, hrun⟩ := hok
  have hrows : run.rows.length = 2 := by
    rw [(measureUtilization_eq hrun).rows, List.length_map, List.length_range]
    rfl
  obtain ⟨hleft, hsampled, -, -, hhidden, hstop⟩ := measureUtilization_session hrun (by decide)
    oneHiddenChips fun _ => ⟨.start, fun _ => 0⟩
  rw [hrows] at hleft hsampled hstop
  have hshown : ∀ lba ∈ [lba0, lba2], lba ∈ oneHidden ∧ lba.display ≠ 0 := by decide
  refine ⟨run, hrun, by omega, hrows, ?_, ?_⟩
  · intro lba hmem
    obtain ⟨hlisted, hd⟩ := hshown lba hmem
    obtain ⟨hwrites, hcollects⟩ := hsampled lba hlisted hd
    exact ⟨hwrites, hcollects, hstop (by decide) lba hlisted hd⟩
  · exact hhidden { lba1 with display := 0 } (by decide) rfl

end Pcitop.System
