import Pcitop.Common.Rates
import Pcitop.System.Denominators
import Pcitop.Tool.LineResults

/-!
# The final average

`measure_utilization` computes the percentage of a sample from the differences to the last
counters, and the average after the loop from the counters themselves. The differences
telescope: in exact arithmetic the average is the mean of the percentages, weighted with
the advances of the timer.

* `Counting.util_eq`, `Counting.average_eq`: the quotients printed for an LBA.
* `main_average`: what that means for a run of the program.
-/

namespace Pcitop.System

open Pcitop.Common Pcitop.Driver Pcitop.Tool

/-! ## What is printed for an LBA -/

/-- The final average in a piece of output. -/
def averages : Output → List (Option Util)
  | .average utils => utils
  | _ => []

/-- What a run prints in sample `i` for LBA `j` of the list. -/
def utilAt (run : Run) (i j : ℕ) : Option Util := (run.rows[i]?.bind fun row => row[j]?).join

/-- What it prints for LBA `j` in the end. -/
def averageAt (run : Run) (j : ℕ) : Option Util := ((run.out.flatMap averages)[j]?).join

/-- The counters an LBA shows in the first `k` samples: they start from 0 and do not wrap,
    the timer advances in every sample, and none is missed. -/
structure Counting (ps : PageSize) (env : Env) (name : CString) (k : ℕ)
    (timer counter : ℕ → ℕ) : Prop where
  timer_zero : timer 0 = 0
  counter_zero : counter 0 = 0
  collected : ∀ i < k, (env.reading i name).counters ps =
    some (BitVec.ofNat 64 (timer (i + 1)), BitVec.ofNat 64 (counter (i + 1)))
  timer_lt : ∀ i < k, timer i < timer (i + 1)
  counter_le : ∀ i < k, counter i ≤ counter (i + 1)
  timer_bound : ∀ i ≤ k, timer i < 2 ^ 64
  counter_bound : ∀ i ≤ k, counter i < 2 ^ 64

/-- The percentage of an increase, in exact arithmetic. -/
theorem quotient_ofNat_sub {a b c d : ℕ} (hab : a ≤ b) (hb : b < 2 ^ 64) (hcd : c ≤ d)
    (hd : d < 2 ^ 64) :
    quotient (BitVec.ofNat 64 b - BitVec.ofNat 64 a) (BitVec.ofNat 64 d - BitVec.ofNat 64 c) =
      ((b : ℚ) * 100 - (a : ℚ) * 100) / ((d : ℚ) - c) := by
  have hsub : ∀ x y : ℕ, x ≤ y → y < 2 ^ 64 →
      (BitVec.ofNat 64 y - BitVec.ofNat 64 x).toNat = y - x := by
    intro x y hxy hy
    rw [BitVec.toNat_sub, BitVec.toNat_ofNat, BitVec.toNat_ofNat, Nat.mod_eq_of_lt hy,
      Nat.mod_eq_of_lt (hxy.trans_lt hy)]
    omega
  rw [quotient, hsub a b hab hb, hsub c d hcd hd, Nat.cast_sub hab, Nat.cast_sub hcd, sub_mul]

variable {ps : PageSize} {env : Env} {lba : LbaInfo} {k : ℕ} {timer counter : ℕ → ℕ}

/-- A hundredfold of a counter, whose rates are percentages. -/
def hundredfold (counter : ℕ → ℕ) (i : ℕ) : ℚ := counter i * 100

/-- The timer as a clock. -/
def clock (timer : ℕ → ℕ) (i : ℕ) : ℚ := timer i

theorem Counting.clock_lt {name : CString} (h : Counting ps env name k timer counter) :
    ∀ i < k, clock timer i < clock timer (i + 1) := by
  intro i hi
  unfold clock
  exact_mod_cast h.timer_lt i hi

section

variable (h : Counting ps env lba.name k timer counter) (hd : lba.display ≠ 0)
  (hu : lba.inUse ≠ 0) (ht : lba.prevTimer = 0) (hc : lba.prevCounter = 0)

include h hd

/-- After a sample the LBA holds its counters. -/
theorem Counting.holds {i : ℕ} (hi : i < k) :
    Holds (env.after ps lba (i + 1)) (BitVec.ofNat 64 (timer (i + 1)))
      (BitVec.ofNat 64 (counter (i + 1))) :=
  holds_after_of_counters hd (h.collected i hi)

include ht hc in
/-- The old counters before a sample are those of the sample before, and 0 at first. -/
theorem Counting.prev {i : ℕ} (hi : i < k) :
    (env.after ps lba i).prevTimer = BitVec.ofNat 64 (timer i) ∧
      (env.after ps lba i).prevCounter = BitVec.ofNat 64 (counter i) := by
  cases i with
  | zero =>
    rw [h.timer_zero, h.counter_zero]
    exact ⟨ht, hc⟩
  | succ i =>
    have hold := h.holds hd (Nat.lt_of_succ_lt hi)
    exact ⟨hold.prevTimer, hold.prevCounter⟩

include hu ht hc in
/-- The percentage of a sample is the rate of the busy counter in it. -/
theorem Counting.util_eq {i : ℕ} (hi : i < k) :
    ∃ util, env.util ps lba i = some util ∧
      util.value quotient = rate (hundredfold counter) (clock timer) i := by
  obtain ⟨hprevTimer, hprevCounter⟩ := h.prev hd ht hc hi
  refine ⟨_, util_of_counters hd hu (h.collected i hi), ?_⟩
  rw [hprevTimer, hprevCounter]
  exact quotient_ofNat_sub (h.counter_le i hi) (h.counter_bound (i + 1) hi) (h.timer_lt i hi).le
    (h.timer_bound (i + 1) hi)

include hu ht hc in
/-- The percentages of all samples. -/
theorem Counting.utils :
    ∃ utils : ℕ → Util, ∀ i < k, env.util ps lba i = some (utils i) ∧
      (utils i).value quotient = rate (hundredfold counter) (clock timer) i := by
  refine ⟨fun i => (env.util ps lba i).getD .zero, fun i hi => ?_⟩
  obtain ⟨util, heq, hvalue⟩ := h.util_eq hd hu ht hc hi
  show env.util ps lba i = some ((env.util ps lba i).getD .zero) ∧
    ((env.util ps lba i).getD .zero).value quotient = _
  rw [heq]
  exact ⟨rfl, hvalue⟩

include hu in
/-- The average is the rate of the busy counter since the reset. -/
theorem Counting.average_eq (hk : 0 < k) :
    ∃ average, averageUtil (env.after ps lba k) = some average ∧
      average.value quotient = meanRate (hundredfold counter) (clock timer) k := by
  obtain ⟨i, rfl⟩ : ∃ i, k = i + 1 := ⟨k - 1, by omega⟩
  have hold := h.holds hd (Nat.lt_succ_self i)
  refine ⟨_, averageUtil_after hd hu, ?_⟩
  have hquotient : quotient (BitVec.ofNat 64 (counter (i + 1)) - BitVec.ofNat 64 0)
      (BitVec.ofNat 64 (timer (i + 1)) - BitVec.ofNat 64 0) = _ :=
    quotient_ofNat_sub (Nat.zero_le _) (h.counter_bound (i + 1) le_rfl) (Nat.zero_le _)
      (h.timer_bound (i + 1) le_rfl)
  rw [meanRate_eq h.clock_lt, hold.counter, hold.timer, hundredfold, hundredfold, clock, clock,
    h.counter_zero, h.timer_zero, ← hquotient]
  show quotient _ _ = _
  rw [BitVec.sub_zero, BitVec.sub_zero]

omit hd in
/-- A busy counter that advances no more than the timer gives percentages. -/
theorem Counting.rate_mem (hbusy : ∀ i < k, counter (i + 1) - counter i ≤ timer (i + 1) - timer i)
    {i : ℕ} (hi : i < k) :
    0 ≤ rate (hundredfold counter) (clock timer) i ∧
      rate (hundredfold counter) (clock timer) i ≤ 100 := by
  have hcounter : (counter i : ℚ) ≤ counter (i + 1) := by exact_mod_cast h.counter_le i hi
  have hadvance : (counter (i + 1) : ℚ) + timer i ≤ timer (i + 1) + counter i := by
    have hle := hbusy i hi
    have hlt := h.timer_lt i hi
    exact_mod_cast (by omega : counter (i + 1) + timer i ≤ timer (i + 1) + counter i)
  have hpos : (0 : ℚ) < timer (i + 1) - timer i := sub_pos.mpr (h.clock_lt i hi)
  unfold rate hundredfold clock
  constructor
  · apply div_nonneg _ hpos.le
    linarith
  · rw [div_le_iff₀ hpos]
    linarith

end

/-! ## Runs -/

section

variable {nsamples : ℕ} {lbas : List LbaInfo} {run : Run}

theorem length_rows (h : RunSpec ps env nsamples lbas run) :
    run.rows.length = env.samples nsamples 0 := by
  rw [h.rows, List.length_map, List.length_range]

theorem utilAt_eq (h : RunSpec ps env nsamples lbas run) {i j : ℕ} (hi : i < run.rows.length)
    (hj : lbas[j]? = some lba) : utilAt run i j = env.util ps lba i := by
  rw [length_rows h] at hi
  rw [utilAt, h.rows, List.getElem?_map, List.getElem?_range hi, Option.map_some, Option.bind_some,
    Env.row, List.getElem?_map, hj]
  rfl

theorem averageAt_eq {mem : MeasureMemory} {numLbaDisplay : ℕ}
    (hrun : measureUtilization mem ps env nsamples numLbaDisplay lbas = .ok run) {j : ℕ}
    (hj : lbas[j]? = some lba) :
    averageAt run j = averageUtil (env.after ps lba run.rows.length) := by
  obtain ⟨banner, -, hfrom⟩ := measureUtilization_banner hrun
  have hout := measureFrom_out hfrom averages rfl fun _ => rfl
  have hnone : (List.range (env.samples nsamples 0)).flatMap
      (fun i => averages (.result (env.row ps lbas i))) = [] := by simp [averages]
  rw [averageAt, hout, hnone, List.nil_append, averages, List.getElem?_map, hj,
    length_rows (measureUtilization_eq hrun)]
  rfl

end

/-- In a run of the program that completes a sample, and for a displayed LBA whose counters
    start from 0, do not wrap and are not missed, the final average is the mean of the
    percentages printed before, weighted with the advances of the timer. It lies between
    the smallest and the largest of them, and all are from 0 to 100 if the busy counter
    advances no more than the timer. -/
theorem main_average {opts : Options} {m : Machine} {l : Listing} {run : Run}
    (hl : listLbas opts m = .ok l) (hrun : main opts m = .ok (.measured run))
    (hk : 0 < run.rows.length) {j : ℕ} {lba : LbaInfo} (hj : l.lbas[j]? = some lba)
    (hd : lba.display ≠ 0) {timer counter : ℕ → ℕ}
    (h : Counting m.pageSize m.env lba.name run.rows.length timer counter) :
    ∃ (utils : ℕ → Util) (average : Util),
      (∀ i < run.rows.length, utilAt run i j = some (utils i)) ∧
      averageAt run j = some average ∧
      average.value quotient =
        (Finset.range run.rows.length).centerMass (fun i => (timer (i + 1) : ℚ) - timer i)
          (fun i => (utils i).value quotient) ∧
      (Finset.range run.rows.length).inf' (Finset.nonempty_range_iff.mpr hk.ne')
        (fun i => (utils i).value quotient) ≤ average.value quotient ∧
      average.value quotient ≤
        (Finset.range run.rows.length).sup' (Finset.nonempty_range_iff.mpr hk.ne')
          (fun i => (utils i).value quotient) ∧
      ((∀ i < run.rows.length, counter (i + 1) - counter i ≤ timer (i + 1) - timer i) →
        (∀ i < run.rows.length,
          0 ≤ (utils i).value quotient ∧ (utils i).value quotient ≤ 100) ∧
        0 ≤ average.value quotient ∧ average.value quotient ≤ 100) := by
  obtain ⟨-, hmeasure⟩ := main_measured hl hrun
  obtain ⟨e, hinit⟩ := listLbas_initialized hl (List.mem_of_getElem? hj)
  have hu : lba.inUse ≠ 0 := by
    rw [hinit.inUse]
    decide
  obtain ⟨utils, hutils⟩ := h.utils hd hu hinit.prevTimer hinit.prevCounter
  obtain ⟨average, haverage, hmean⟩ := h.average_eq hd hu hk
  have hrate : ∀ i ∈ Finset.range run.rows.length, (utils i).value quotient =
      rate (hundredfold counter) (clock timer) i :=
    fun i hi => (hutils i (Finset.mem_range.mp hi)).2
  have hinf : _ ≤ meanRate (hundredfold counter) (clock timer) run.rows.length :=
    inf_le_meanRate h.clock_lt hk
  have hsup : meanRate (hundredfold counter) (clock timer) run.rows.length ≤ _ :=
    meanRate_le_sup h.clock_lt hk
  refine ⟨utils, average, fun i hi => ?_, ?_, ?_, ?_, ?_, fun hbusy => ⟨fun i hi => ?_, ?_, ?_⟩⟩
  · rw [utilAt_eq (measureUtilization_eq hmeasure) hi hj, (hutils i hi).1]
  · rw [averageAt_eq hmeasure hj, haverage]
  · rw [hmean, meanRate]
    exact Finset.centerMass_congr_fun fun i hi _ => (hrate i hi).symm
  · rw [hmean, Finset.inf'_congr _ rfl hrate]
    exact hinf
  · rw [hmean, Finset.sup'_congr _ rfl hrate]
    exact hsup
  · rw [(hutils i hi).2]
    exact h.rate_mem hbusy hi
  · rw [hmean]
    refine le_trans (Finset.le_inf' _ _ fun i hi => ?_) hinf
    exact (h.rate_mem hbusy (Finset.mem_range.mp hi)).1
  · rw [hmean]
    refine le_trans hsup (Finset.sup'_le _ _ fun i hi => ?_)
    exact (h.rate_mem hbusy (Finset.mem_range.mp hi)).2

/-- In sample `i` the counters of `tickingEnv 5` show `5 * (i + 1)` and `3 * i`. -/
theorem counting_tickingEnv (hk : k ≤ 60) (name : CString) :
    Counting ps (tickingEnv 5) name k (fun i => 5 * i) (fun i => 3 * (i - 1)) where
  timer_zero := rfl
  counter_zero := rfl
  collected i hi := by
    have hshows : (tickingEnv 5).reading i name = ⟨true, .data (utilizationShow
        (Chip.apollo.utilization (tickingRegs 5 i)))⟩ := rfl
    have htimer : (BitVec.ofNat 64 (5 + 5 * i)).toNat % 2 ^ 48 = 5 * (i + 1) := by
      rw [BitVec.toNat_ofNat]
      omega
    have hcounter : (BitVec.ofNat 64 (3 * i)).toNat % 2 ^ 48 = 3 * (i + 1 - 1) := by
      rw [BitVec.toNat_ofNat]
      omega
    rw [hshows, counters_utilizationShow, Chip.utilization_eq, ← htimer, ← hcounter]
    rfl
  timer_lt i _ := by omega
  counter_le i _ := by omega
  timer_bound i hi := by omega
  counter_bound i hi := by omega

theorem main_average_oneLba :
    ∃ (run : Run) (j : ℕ) (average : Util),
      main noFilter (oneLba "pci0000:00".toList (tickingEnv 5)) = .ok (.measured run) ∧
      averageAt run j = some average ∧ 0 ≤ average.value quotient ∧
      average.value quotient ≤ 100 := by
  obtain ⟨l, hl, hnum, hdisplay, hbridge⟩ := listLbas_oneLba (tickingEnv 5)
  obtain ⟨run, hrun⟩ := main_measures hl rfl hnum hdisplay rfl hbridge
  have hlen : run.rows.length = 60 := by
    rw [length_rows (measureUtilization_eq (main_measured hl hrun).2)]
    decide
  obtain ⟨lba, hmem, hd⟩ := listLbas_displayed hl hdisplay
  obtain ⟨j, hj⟩ := List.mem_iff_getElem?.mp hmem
  obtain ⟨utils, average, -, haverage, -, -, -, hbusy⟩ :=
    main_average hl hrun (by omega) hj hd (counting_tickingEnv hlen.le lba.name)
  have hadvances : ∀ i < run.rows.length, 3 * (i + 1 - 1) - 3 * (i - 1) ≤ 5 * (i + 1) - 5 * i := by
    intro i _
    omega
  exact ⟨run, j, average, hrun, haverage, (hbusy hadvances).2⟩

end Pcitop.System
