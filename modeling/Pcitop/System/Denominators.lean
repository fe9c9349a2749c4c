import Pcitop.System.Advances
import Pcitop.Tool.Main

/-!
# Denominators

The percentages printed are quotients by differences of the timer, and the final
average by the timer itself. The loop does not look at what `hplba_collect` returns,
and the average is printed however the loop ends.

* `util_of_missed`: a sample without counters divides by 0.
* `Advancing.util_den_ne_zero`, `Advancing.timer_ne_zero`: with counters in every
  sample, an advancing timer keeps the denominators from 0.
* `main_denominators_iff`: over the runs of the program, no denominator is 0 exactly
  when there is a sample and every sample has counters.
-/

namespace Pcitop.System

open Pcitop.Common Pcitop.Driver Pcitop.Tool

/-- Two counts of 48 bits have the same reading only when they are the same. -/
theorem reading_sub_ne_zero {t t' : ℕ} (h : t < t') (h' : t' < 2 ^ 48) :
    reading 64 48 t' - reading 64 48 t ≠ 0 := by
  intro hsub
  have heq := congrArg BitVec.toNat (sub_eq_zero.mp hsub)
  rw [toNat_reading (by norm_num), toNat_reading (by norm_num), Nat.mod_eq_of_lt h',
    Nat.mod_eq_of_lt (h.trans h')] at heq
  omega

section

variable (hw : CString → Hardware) (ps : PageSize) (env : Env) (nsamples : ℕ)
  (lbas : List LbaInfo)

/-- The timers after a reset: each counts from 0, advances in every start/stop
    interval of the run and does not get to 48 bits. -/
structure Advancing : Prop where
  shows : Exposes hw ps env nsamples lbas
  first : ∀ lba ∈ lbas, lba.display ≠ 0 → env.Completes nsamples 0 → 0 < (hw lba.name).timer 0
  next : ∀ lba ∈ lbas, lba.display ≠ 0 → ∀ i, env.Completes nsamples (i + 1) →
    (hw lba.name).timer i < (hw lba.name).timer (i + 1)
  bound : ∀ lba ∈ lbas, lba.display ≠ 0 → ∀ i, env.Completes nsamples i →
    (hw lba.name).timer i < 2 ^ 48

/-- At least one sample is completed, and every one takes the counters of every
    displayed LBA. -/
def CollectsAlways : Prop :=
  env.Completes nsamples 0 ∧ ∀ lba ∈ lbas, lba.display ≠ 0 → ∀ i, env.Completes nsamples i →
    (env.reading i lba.name).counters ps ≠ none

end

/-- No percentage of a run is computed with a denominator of 0. -/
def DenominatorsNonzero (run : Run) : Prop :=
  ∀ num den, some (Util.ratio num den) ∈ run.printed → den ≠ 0

/-- An LBA as `init_lba` leaves its counters. -/
structure Uncounted (lba : LbaInfo) : Prop where
  inUse : lba.inUse ≠ 0
  timer : lba.timer = 0
  prevTimer : lba.prevTimer = 0

variable {hw : CString → Hardware} {ps : PageSize} {env : Env} {nsamples : ℕ}
  {lbas : List LbaInfo} {lba : LbaInfo}

/-! ## One LBA -/

/-- A sample without counters divides by 0. -/
theorem util_of_missed (hd : lba.display ≠ 0) (hu : Uncounted lba) {i : ℕ}
    (h : (env.reading i lba.name).counters ps = none) :
    ∃ num, env.util ps lba i = some (.ratio num 0) := by
  have hprev : (env.after ps lba i).prevTimer = (env.after ps lba i).timer :=
    prevTimer_after hd (hu.prevTimer.trans hu.timer.symm) i
  refine ⟨(env.after ps lba i).counter - (env.after ps lba i).prevCounter, ?_⟩
  rw [util_of_none hd hu.inUse h, hprev, sub_self]

/-- A completed sample comes after completed ones. -/
theorem completes_of_succ {i : ℕ} (h : env.Completes nsamples (i + 1)) :
    env.Completes nsamples i :=
  ⟨Nat.lt_of_succ_lt h.1, fun l hl => h.2 l (Nat.le_succ_of_le hl)⟩

section

variable (hadv : Advancing hw ps env nsamples lbas) (hcol : CollectsAlways ps env nsamples lbas)
  (hmem : lba ∈ lbas) (hd : lba.display ≠ 0)

include hadv in
theorem Advancing.timer_pos (hmem : lba ∈ lbas) (hd : lba.display ≠ 0) {i : ℕ}
    (hi : env.Completes nsamples i) : 0 < (hw lba.name).timer i := by
  cases i with
  | zero => exact hadv.first lba hmem hd hi
  | succ i =>
    have hlt := hadv.next lba hmem hd i hi
    omega

include hadv hcol hmem hd

theorem Advancing.counters {i : ℕ} (hi : env.Completes nsamples i) :
    (env.reading i lba.name).counters ps =
      some (reading 64 48 ((hw lba.name).timer i), reading 64 48 ((hw lba.name).counter i)) :=
  counters_of_shows (hcol.2 lba hmem hd i hi)
    (hadv.shows lba hmem hd i hi (hcol.2 lba hmem hd i hi))

/-- After a sample the LBA holds its timer. -/
theorem Advancing.holds {i : ℕ} (hi : env.Completes nsamples i) :
    Holds (env.after ps lba (i + 1)) (reading 64 48 ((hw lba.name).timer i))
      (reading 64 48 ((hw lba.name).counter i)) :=
  holds_after_of_counters hd (hadv.counters hcol hmem hd hi)

/-- The denominator of a sample. -/
theorem Advancing.util_den_ne_zero (hu : Uncounted lba) {i : ℕ} (hi : env.Completes nsamples i)
    {num den : BitVec 64} (h : env.util ps lba i = some (.ratio num den)) : den ≠ 0 := by
  rw [util_of_counters hd hu.inUse (hadv.counters hcol hmem hd hi)] at h
  obtain ⟨-, rfl⟩ := Util.ratio.inj (Option.some.inj h)
  cases i with
  | zero =>
    have hprev : (env.after ps lba 0).prevTimer = reading 64 48 0 := hu.prevTimer
    rw [hprev]
    exact reading_sub_ne_zero (hadv.first lba hmem hd hi) (hadv.bound lba hmem hd 0 hi)
  | succ i =>
    rw [(hadv.holds hcol hmem hd (completes_of_succ hi)).prevTimer]
    exact reading_sub_ne_zero (hadv.next lba hmem hd i hi) (hadv.bound lba hmem hd (i + 1) hi)

/-- The denominator of the average after a sample. -/
theorem Advancing.timer_ne_zero {i : ℕ} (hi : env.Completes nsamples i) :
    (env.after ps lba (i + 1)).timer ≠ 0 := by
  have hne : reading 64 48 ((hw lba.name).timer i) - reading 64 48 0 ≠ 0 :=
    reading_sub_ne_zero (hadv.timer_pos hmem hd hi) (hadv.bound lba hmem hd i hi)
  rw [(hadv.holds hcol hmem hd hi).timer]
  intro hzero
  rw [hzero] at hne
  exact hne rfl

end

/-! ## Runs -/

/-- The percentages printed are those of the samples and the averages. -/
theorem mem_printed_iff {run : Run} (h : RunSpec ps env nsamples lbas run) (u : Util) :
    some u ∈ run.printed ↔
      (∃ i, env.Completes nsamples i ∧ ∃ lba ∈ lbas, env.util ps lba i = some u) ∨
      ∃ lba ∈ lbas, averageUtil (env.after ps lba (env.samples nsamples 0)) = some u := by
  rw [h.printed, List.mem_append, List.mem_flatMap, List.mem_map]
  simp only [List.mem_range, Env.row, List.mem_map, completes_iff]

theorem averageUtil_after {k : ℕ} (hd : lba.display ≠ 0) (hu : lba.inUse ≠ 0) :
    averageUtil (env.after ps lba k) =
      some (.ratio (env.after ps lba k).counter (env.after ps lba k).timer) := by
  have hs : SameLba lba (env.after ps lba k) := sameLba_after lba k
  unfold averageUtil
  rw [hs.display, hs.inUse, if_pos hd, if_pos hu]

theorem averageUtil_of_hidden {k : ℕ} (hd : lba.display = 0) :
    averageUtil (env.after ps lba k) = none := by
  have hs : SameLba lba (env.after ps lba k) := sameLba_after lba k
  unfold averageUtil
  rw [hs.display, hd, if_neg (by decide)]

/-- A run over LBAs without counters, at least one of them displayed. -/
theorem denominators_iff {run : Run} (h : RunSpec ps env nsamples lbas run)
    (hadv : Advancing hw ps env nsamples lbas) (hu : ∀ lba ∈ lbas, Uncounted lba)
    (hdisplayed : ∃ lba ∈ lbas, lba.display ≠ 0) :
    DenominatorsNonzero run ↔ CollectsAlways ps env nsamples lbas := by
  constructor
  · intro hden
    have hfirst : env.Completes nsamples 0 := by
      by_contra hnone
      -- Without a sample the average divides by the timer of `calloc`.
      obtain ⟨lba, hmem, hd⟩ := hdisplayed
      have hk : env.samples nsamples 0 = 0 := by
        rw [completes_iff] at hnone
        omega
      refine hden lba.counter 0 ((mem_printed_iff h _).mpr (.inr ⟨lba, hmem, ?_⟩)) rfl
      rw [hk, averageUtil_after hd (hu lba hmem).inUse]
      show some (Util.ratio lba.counter lba.timer) = _
      rw [(hu lba hmem).timer]
    refine ⟨hfirst, fun lba hmem hd i hi hnone => ?_⟩
    obtain ⟨num, hutil⟩ := util_of_missed hd (hu lba hmem) hnone
    exact hden num 0 ((mem_printed_iff h _).mpr (.inl ⟨i, hi, lba, hmem, hutil⟩)) rfl
  · intro hcol num den hmem
    rcases (mem_printed_iff h _).mp hmem with ⟨i, hi, lba, hlba, hutil⟩ | ⟨lba, hlba, haverage⟩
    · have hd : lba.display ≠ 0 := by
        intro hd
        rw [util_of_hidden hd] at hutil
        exact absurd hutil (by simp)
      exact hadv.util_den_ne_zero hcol hlba hd (hu lba hlba) hi hutil
    · have hd : lba.display ≠ 0 := by
        intro hd
        rw [averageUtil_of_hidden hd] at haverage
        exact absurd haverage (by simp)
      -- The average is taken after the last sample.
      obtain ⟨k, hk⟩ : ∃ k, env.samples nsamples 0 = k + 1 := by
        have hpos := (completes_iff nsamples 0).mp hcol.1
        exact ⟨env.samples nsamples 0 - 1, by omega⟩
      have hlast : env.Completes nsamples k := by
        rw [completes_iff]
        omega
      rw [hk, averageUtil_after hd (hu lba hlba).inUse] at haverage
      obtain ⟨-, rfl⟩ := Util.ratio.inj (Option.some.inj haverage)
      exact hadv.timer_ne_zero hcol hlba hd hlast

/-- In a run of the program that measures, with timers that advance in every
    interval and do not wrap, no percentage is computed with a denominator of 0
    exactly when SIGINT lets a first sample through and every sample takes the
    counters of every displayed LBA. -/
theorem main_denominators_iff {opts : Options} {m : Machine} {l : Listing} {run : Run}
    (hl : listLbas opts m = .ok l) (hrun : main opts m = .ok (.measured run))
    (hadv : Advancing hw m.pageSize m.env opts.sampleCount l.lbas) :
    DenominatorsNonzero run ↔ CollectsAlways m.pageSize m.env opts.sampleCount l.lbas := by
  obtain ⟨hdisplay, hmeasure⟩ := main_measured hl hrun
  refine denominators_iff (measureUtilization_eq hmeasure) hadv (fun lba hmem => ?_)
    (listLbas_displayed hl hdisplay)
  obtain ⟨e, hinit⟩ := listLbas_initialized hl hmem
  exact ⟨by rw [hinit.inUse]; decide, hinit.timer, hinit.prevTimer⟩

theorem completes_tickingEnv {start i : ℕ} (h : i < nsamples) :
    (tickingEnv start).Completes nsamples i := ⟨h, fun _ _ => rfl⟩

/-- A timer that ticks as in `ticking`, for as many samples as 48 bits hold. -/
theorem advancing_tickingEnv {start : ℕ} (hpos : 0 < start)
    (hbound : start + 5 * nsamples < 2 ^ 48) :
    Advancing (fun _ => ticking start) ps (tickingEnv start) nsamples lbas where
  shows := exposes_tickingEnv start nsamples lbas
  first _ _ _ _ := by
    show 0 < start + 5 * 0
    omega
  next _ _ _ i _ := by
    show start + 5 * i < start + 5 * (i + 1)
    omega
  bound _ _ _ i hi := by
    have hlt := hi.1
    show start + 5 * i < 2 ^ 48
    omega

theorem main_denominators_iff_oneLba :
    ∃ run, main noFilter (oneLba "pci0000:00".toList (tickingEnv 5)) = .ok (.measured run) ∧
      DenominatorsNonzero run := by
  obtain ⟨l, hl, hnum, hdisplay, hbridge⟩ := listLbas_oneLba (tickingEnv 5)
  obtain ⟨run, hrun⟩ := main_measures hl rfl hnum hdisplay rfl hbridge
  have hadv : Advancing (fun _ => ticking 5) ⟨4096, le_rfl⟩ (tickingEnv 5)
      noFilter.sampleCount l.lbas := advancing_tickingEnv (by norm_num) (by decide)
  have hcol : CollectsAlways ⟨4096, le_rfl⟩ (tickingEnv 5) noFilter.sampleCount l.lbas :=
    ⟨completes_tickingEnv (by decide), fun _ _ _ _ _ => counters_tickingEnv _ _ _⟩
  exact ⟨run, hrun, (main_denominators_iff hl hrun hadv).mpr hcol⟩

/-- SIGINT before the first sample. -/
def quitEnv : Env where
  timeToQuit _ := true
  reading _ _ := ⟨true, .noOpen⟩

theorem not_completes_quitEnv (i : ℕ) : ¬ quitEnv.Completes nsamples i :=
  fun h => absurd (h.2 0 (Nat.zero_le i)) (by decide)

/-- With SIGINT before the first sample, the average is computed with a denominator
    of 0. -/
theorem not_denominatorsNonzero_quitEnv :
    ∃ (l : Listing) (run : Run),
      listLbas noFilter (oneLba "pci0000:00".toList quitEnv) = .ok l ∧
      main noFilter (oneLba "pci0000:00".toList quitEnv) = .ok (.measured run) ∧
      Advancing (fun _ => ticking 5) ⟨4096, le_rfl⟩ quitEnv noFilter.sampleCount l.lbas ∧
      ¬ DenominatorsNonzero run := by
  obtain ⟨l, hl, hnum, hdisplay, hbridge⟩ := listLbas_oneLba quitEnv
  obtain ⟨run, hrun⟩ := main_measures hl rfl hnum hdisplay rfl hbridge
  have hadv : Advancing (fun _ => ticking 5) ⟨4096, le_rfl⟩ quitEnv noFilter.sampleCount
      l.lbas :=
    ⟨fun _ _ _ _ hi => absurd hi (not_completes_quitEnv _),
      fun _ _ _ hi => absurd hi (not_completes_quitEnv _),
      fun _ _ _ _ hi => absurd hi (not_completes_quitEnv _),
      fun _ _ _ _ hi => absurd hi (not_completes_quitEnv _)⟩
  refine ⟨l, run, hl, hrun, hadv, fun hden => ?_⟩
  have hspec := measureUtilization_eq (main_measured hl hrun).2
  obtain ⟨lba, hmem, hd⟩ := listLbas_displayed hl hdisplay
  obtain ⟨e, hinit⟩ := listLbas_initialized hl hmem
  have hu : lba.inUse ≠ 0 := by
    rw [hinit.inUse]
    decide
  have haverage : averageUtil (quitEnv.after ⟨4096, le_rfl⟩ lba
      (quitEnv.samples noFilter.sampleCount 0)) = some (.ratio lba.counter 0) := by
    show averageUtil (quitEnv.after ⟨4096, le_rfl⟩ lba 0) = _
    rw [averageUtil_after hd hu]
    show some (Util.ratio lba.counter lba.timer) = _
    rw [hinit.timer]
  exact hden lba.counter 0 ((mem_printed_iff hspec _).mpr (.inr ⟨lba, hmem, haverage⟩)) rfl

end Pcitop.System
