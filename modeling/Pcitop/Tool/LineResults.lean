import Pcitop.Common.Columns
import Pcitop.Common.Fixed
import Pcitop.Tool.Measure

/-!
# The rows of percentages

`measure_utilization` formats the percentages of a sample, and in the end the average,
into `line_results`, an array of `LINE_WIDTH(num_lba_display) + 1` bytes. A percentage
is a `double`; the division that gives it is a parameter, and only finite values are
considered.

* `length_lineResults`: the length of a row of percentages from 0 to 100.
* `lineResults_fit_iff`: the rows of a run fit exactly when the last LBA of the list is
  displayed and the width does not overflow.
-/

namespace Pcitop.Tool

open Pcitop.Common

/-- `lba->display`. -/
def displayed (lba : LbaInfo) : Bool := lba.display ≠ 0

/-- The value of a percentage, where `divide num den` is `num * 100.0 / den`. -/
def Util.value (divide : BitVec 64 → BitVec 64 → ℚ) : Util → ℚ
  | .zero => 0
  | .ratio num den => divide num den

/-- `"%06.2f%%%*s"` for a displayed LBA (lines 947–951 and 972–976). -/
def resultCell (divide : BitVec 64 → BitVec 64 → ℚ) (last : Bool) : Option Util → CString
  | none => []
  | some util => fixed 6 2 (util.value divide) ++ '%' :: padStr (colWidth last - 7) [' ']

/-- The text in `line_results`: the header and the columns of a row. -/
def lineResults (divide : BitVec 64 → BitVec 64 → ℚ) (utils : List (Option Util)) : CString :=
  padStr (-(COLUMN_HEADER_WIDTH + COLUMN_SEP_WIDTH)) [' '] ++
    (cells Option.isSome (resultCell divide) utils).flatten

/-- The rows a run formats into `line_results`. -/
def Output.line : Output → List (List (Option Util))
  | .result utils => [utils]
  | .average utils => [utils]
  | _ => []

def Run.lines (run : Run) : List (List (Option Util)) := run.out.flatMap Output.line

/-- The percentages of a row are from 0 to 100. -/
def Percentages (divide : BitVec 64 → BitVec 64 → ℚ) (utils : List (Option Util)) : Prop :=
  ∀ util, some util ∈ utils → 0 ≤ util.value divide ∧ util.value divide ≤ 100

/-! ## The array -/

theorem toNat_lineWidth (n : ℕ) :
    (LINE_WIDTH (BitVec.ofNat 32 n)).toNat = (18 * n + 6) % 2 ^ 32 := by
  simp only [LINE_WIDTH, BitVec.ofNat_eq_ofNat, BitVec.toNat_add, BitVec.toNat_mul,
    BitVec.toNat_sub, BitVec.toNat_ofNat]
  omega

/-- The size asked for. -/
theorem toNat_lineWidth_add_one (n : ℕ) :
    (LINE_WIDTH (BitVec.ofNat 32 n) + 1).toNat = (18 * n + 7) % 2 ^ 32 := by
  rw [BitVec.toNat_add, toNat_lineWidth]
  simp only [BitVec.ofNat_eq_ofNat, BitVec.toNat_ofNat]
  omega

/-! ## The length of a row -/

theorem length_resultCell {divide : BitVec 64 → BitVec 64 → ℚ} {util : Util}
    (h0 : 0 ≤ util.value divide) (h : util.value divide ≤ 100) (last : Bool) :
    (resultCell divide last (some util)).length = if last then 16 else 16 + 2 := by
  have hfixed : (fixed 6 2 (util.value divide)).length = 6 :=
    length_fixed (k := 2) (by norm_num) (by norm_num) h0 (by norm_num; exact h)
  cases last with
  | true => simp [resultCell, hfixed, colWidth, padStr, padLeft, COLUMN_DATA_WIDTH]
  | false =>
    simp [resultCell, hfixed, colWidth, padStr, padLeft, COLUMN_DATA_WIDTH, COLUMN_SEP_WIDTH]

/-- The columns of a row are 16 characters wide, with 2 more unless the LBA is the last
    of the list. -/
theorem length_lineResults {divide : BitVec 64 → BitVec 64 → ℚ} {utils : List (Option Util)}
    (h : Percentages divide utils) :
    (lineResults divide utils).length + (if lastShown Option.isSome utils then 2 else 0) =
      8 + utils.countP Option.isSome * (16 + 2) := by
  have hcells : (cells Option.isSome (resultCell divide) utils).map List.length =
      cells Option.isSome (fun last _ => if last then 16 else 16 + 2) utils := by
    rw [map_cells]
    apply cells_congr
    rintro (_ | util) hmem hsome last
    · exact absurd hsome (by simp)
    · exact length_resultCell (h util hmem).1 (h util hmem).2 last
  have hheader : (padStr (-(COLUMN_HEADER_WIDTH + COLUMN_SEP_WIDTH)) [' ']).length = 8 := by
    decide
  rw [lineResults, List.length_append, List.length_flatten, hcells, hheader, Nat.add_assoc,
    sum_cells_width]

/-! ## The rows of a run -/

section Runs

variable {mem : MeasureMemory} {ps : PageSize} {env : Env} {nsamples numLbaDisplay : ℕ}
  {lbas : List LbaInfo} {run : Run}

/-- A row has a percentage for every displayed LBA. -/
structure RowOf (lbas : List LbaInfo) (utils : List (Option Util)) : Prop where
  countP : utils.countP Option.isSome = lbas.countP displayed
  lastShown : lastShown Option.isSome utils = lastShown displayed lbas

theorem rowOf_map {f : LbaInfo → Option Util} (hf : ∀ lba, (f lba).isSome = displayed lba) :
    RowOf lbas (lbas.map f) where
  countP := by
    rw [List.countP_map]
    congr 1
    funext lba
    exact hf lba
  lastShown := by
    rw [Common.lastShown, Common.lastShown, List.getLast?_map, Option.any_map]
    congr 1
    funext lba
    exact hf lba

theorem isSome_util (lba : LbaInfo) (i : ℕ) : (env.util ps lba i).isSome = displayed lba := by
  have hd : (collectLba ps (env.reading i) (env.after ps lba i)).display = lba.display :=
    (sameLba_collectLba _ _).display.trans (sameLba_after lba i).display
  by_cases h : lba.display = 0
  · rw [Env.util, processCounts, hd, if_neg (not_not.mpr h)]
    simp [displayed, h]
  · rw [Env.util, processCounts, hd, if_pos h]
    simpa [displayed] using h

theorem isSome_averageUtil (lba : LbaInfo) (i : ℕ) :
    (averageUtil (env.after ps lba i)).isSome = displayed lba := by
  by_cases h : lba.display = 0
  · rw [averageUtil, (sameLba_after lba i).display, if_neg (not_not.mpr h)]
    simp [displayed, h]
  · rw [averageUtil, (sameLba_after lba i).display, if_pos h]
    simpa [displayed] using h

theorem measureUtilization_lines
    (hrun : measureUtilization mem ps env nsamples numLbaDisplay lbas = .ok run) :
    run.lines = (List.range (env.samples nsamples 0)).map (env.row ps lbas) ++
      [lbas.map fun lba => averageUtil (env.after ps lba (env.samples nsamples 0))] := by
  obtain ⟨banner, -, hfrom⟩ := measureUtilization_banner hrun
  rw [Run.lines, measureFrom_out hfrom Output.line rfl fun _ => rfl]
  simp only [Output.line, ← List.map_eq_flatMap]

theorem rowOf_of_mem_lines
    (hrun : measureUtilization mem ps env nsamples numLbaDisplay lbas = .ok run)
    {utils : List (Option Util)} (h : utils ∈ run.lines) : RowOf lbas utils := by
  rw [measureUtilization_lines hrun, List.mem_append, List.mem_map, List.mem_singleton] at h
  rcases h with ⟨i, -, rfl⟩ | rfl
  · exact rowOf_map fun lba => isSome_util lba i
  · exact rowOf_map fun lba => isSome_averageUtil lba _

/-- A run formats at least the average. -/
theorem lines_ne_nil
    (hrun : measureUtilization mem ps env nsamples numLbaDisplay lbas = .ok run) :
    run.lines ≠ [] := by
  rw [measureUtilization_lines hrun]
  simp

/-- The rows of a run, each with its terminator, fit exactly when the last LBA of the
    list is displayed and the width does not overflow. -/
theorem lineResults_fit_iff (divide : BitVec 64 → BitVec 64 → ℚ)
    (hrun : measureUtilization mem ps env nsamples numLbaDisplay lbas = .ok run)
    (hcount : numLbaDisplay = lbas.countP displayed)
    (hutils : ∀ utils ∈ run.lines, Percentages divide utils) :
    (∀ utils ∈ run.lines, (lineResults divide utils).length + 1 ≤
        (LINE_WIDTH (BitVec.ofNat 32 numLbaDisplay) + 1).toNat) ↔
      lastShown displayed lbas = true ∧ 18 * numLbaDisplay + 7 < 2 ^ 32 := by
  have hlen : ∀ utils ∈ run.lines, (lineResults divide utils).length +
      (if lastShown displayed lbas then 2 else 0) = 8 + 18 * numLbaDisplay := by
    intro utils hmem
    have hrow := rowOf_of_mem_lines hrun hmem
    have := length_lineResults (hutils utils hmem)
    rw [hrow.countP, hrow.lastShown, ← hcount] at this
    omega
  rw [toNat_lineWidth_add_one]
  constructor
  · intro h
    obtain ⟨utils, hmem⟩ := List.exists_mem_of_ne_nil _ (lines_ne_nil hrun)
    have hfit := h utils hmem
    have hl := hlen utils hmem
    cases hlast : lastShown displayed lbas with
    | true =>
      rw [hlast] at hl
      simp only [if_true] at hl
      exact ⟨rfl, by omega⟩
    | false =>
      rw [hlast] at hl
      simp only [Bool.false_eq_true, if_false] at hl
      omega
  · rintro ⟨hlast, hwidth⟩ utils hmem
    have hl := hlen utils hmem
    rw [hlast] at hl
    simp only [if_true] at hl
    omega

end Runs

/-- The quotient that the `double` approximates. -/
def quotient (num den : BitVec 64) : ℚ := num.toNat * 100 / den.toNat

/-- Counters that show a quarter, in every sample. -/
def quarterEnv : Env where
  timeToQuit _ := false
  reading _ _ := ⟨true, .data "8,2\n".toList⟩

/-- The LBA `lba0`, filtered out. -/
def hidden0 : LbaInfo :=
  { lba0 with
    name := "0000:01:00.0".toList
    display := 0 }

/-- An LBA on a bridge with the slots 1 to 6. -/
def crowded0 : LbaInfo :=
  { lba0 with
    name := "0000:02:00.0".toList
    sysfsRootBridge := some ⟨"0000:02".toList, ["1", "2", "3", "4", "5", "6"].map fun name =>
      ⟨name.toList, ⟨"0000:02".toList, some 0⟩⟩⟩ }

/-- In the sample and in the average an LBA of these shows a quarter, if it shows
    anything. -/
theorem util_quarterEnv : ∀ lba ∈ [lba0, hidden0, crowded0], ∀ util,
    quarterEnv.util ⟨4096, le_rfl⟩ lba 0 = some util ∨
      averageUtil (quarterEnv.after ⟨4096, le_rfl⟩ lba 1) = some util → util = .ratio 2 8 := by
  have h : ∀ lba ∈ [lba0, hidden0, crowded0],
      quarterEnv.util ⟨4096, le_rfl⟩ lba 0 ∈ [none, some (.ratio 2 8)] ∧
        averageUtil (quarterEnv.after ⟨4096, le_rfl⟩ lba 1) ∈ [none, some (.ratio 2 8)] := by
    decide +kernel
  intro lba hmem util hutil
  obtain ⟨h1, h2⟩ := h lba hmem
  rcases hutil with hutil | hutil
  · rw [hutil] at h1
    simpa using h1
  · rw [hutil] at h2
    simpa using h2

/-- One sample of such LBAs. -/
theorem run_quarterEnv {lbas : List LbaInfo} (h : ∀ lba ∈ lbas, lba ∈ [lba0, hidden0, crowded0])
    (numLbaDisplay : ℕ) :
    ∃ run, measureUtilization ⟨true, true⟩ ⟨4096, le_rfl⟩ quarterEnv 1 numLbaDisplay lbas =
        .ok run ∧
      ∀ utils ∈ run.lines, Percentages quotient utils := by
  have hall : ∀ lba ∈ [lba0, hidden0, crowded0],
      lba.sysfsRootBridge.isSome ∧ lba.ops = true := by decide
  have hbridge : Bridged lbas := fun lba hmem _ => (hall lba (h lba hmem)).1
  have hok : ∃ run, measureUtilization ⟨true, true⟩ ⟨4096, le_rfl⟩ quarterEnv 1 numLbaDisplay
      lbas = .ok run :=
    measureUtilization_ok 1 numLbaDisplay hbridge fun lba hmem _ => (hall lba (h lba hmem)).2
  obtain ⟨run, hrun⟩ := hok
  refine ⟨run, hrun, fun utils hmem util hutil => ?_⟩
  have hratio : util = .ratio 2 8 := by
    rw [measureUtilization_lines hrun, List.mem_append, List.mem_map, List.mem_singleton] at hmem
    rcases hmem with ⟨i, hi, rfl⟩ | rfl
    · obtain rfl : i = 0 := by simpa [Env.samples, quarterEnv] using hi
      obtain ⟨lba, hlba, hu⟩ := List.mem_map.mp hutil
      exact util_quarterEnv lba (h lba hlba) util (.inl hu)
    · obtain ⟨lba, hlba, hu⟩ := List.mem_map.mp hutil
      exact util_quarterEnv lba (h lba hlba) util (.inr hu)
  have hnum : (2 : BitVec 64).toNat = 2 := rfl
  have hden : (8 : BitVec 64).toNat = 8 := rfl
  rw [hratio, Util.value, quotient, hnum, hden]
  norm_num

/-- With the LBA that is filtered out before the last of the list the rows fit, with
    it at the end they do not. -/
theorem lineResults_fit_iff_threeLbas :
    (∃ run, measureUtilization ⟨true, true⟩ ⟨4096, le_rfl⟩ quarterEnv 1 2
        [lba0, hidden0, crowded0] = .ok run ∧
      ∀ utils ∈ run.lines,
        (lineResults quotient utils).length + 1 ≤
          (LINE_WIDTH (BitVec.ofNat 32 2) + 1).toNat) ∧
    ∃ run, measureUtilization ⟨true, true⟩ ⟨4096, le_rfl⟩ quarterEnv 1 2
        [lba0, crowded0, hidden0] = .ok run ∧
      ¬ ∀ utils ∈ run.lines,
        (lineResults quotient utils).length + 1 ≤
          (LINE_WIDTH (BitVec.ofNat 32 2) + 1).toNat := by
  have hsub : ∀ lba ∈ [lba0, hidden0, crowded0], lba ∈ [lba0, hidden0, crowded0] := by simp
  have hsub' : ∀ lba ∈ [lba0, crowded0, hidden0], lba ∈ [lba0, hidden0, crowded0] := by decide
  obtain ⟨run, hrun, hutils⟩ := run_quarterEnv hsub 2
  obtain ⟨run', hrun', hutils'⟩ := run_quarterEnv hsub' 2
  refine ⟨⟨run, hrun, ?_⟩, run', hrun', ?_⟩
  · exact (lineResults_fit_iff quotient hrun (by decide) hutils).mpr (by decide)
  · rw [lineResults_fit_iff quotient hrun' (by decide) hutils']
    decide

/-- With an LBA after it that is not displayed, `lba0` makes every row too long. -/
theorem not_lineResults_fit_hidden0 :
    ∃ run, measureUtilization ⟨true, true⟩ ⟨4096, le_rfl⟩ quarterEnv 1 1 [lba0, hidden0] = .ok run ∧
      1 = [lba0, hidden0].countP displayed ∧ (∀ utils ∈ run.lines, Percentages quotient utils) ∧
      ¬ ∀ utils ∈ run.lines,
        (lineResults quotient utils).length + 1 ≤ (LINE_WIDTH (BitVec.ofNat 32 1) + 1).toNat := by
  have hsub : ∀ lba ∈ [lba0, hidden0], lba ∈ [lba0, hidden0, crowded0] := by simp
  obtain ⟨run, hrun, hutils⟩ := run_quarterEnv hsub 1
  refine ⟨run, hrun, by decide, hutils, fun h => ?_⟩
  obtain ⟨utils, hmem⟩ := List.exists_mem_of_ne_nil _ (lines_ne_nil hrun)
  have hfit := h utils hmem
  have hrow := rowOf_of_mem_lines hrun hmem
  have hlen := length_lineResults (hutils utils hmem)
  rw [hrow.countP, hrow.lastShown, show lastShown displayed [lba0, hidden0] = false by decide,
    show [lba0, hidden0].countP displayed = 1 by decide] at hlen
  rw [toNat_lineWidth_add_one] at hfit
  simp only [Bool.false_eq_true, if_false] at hlen
  omega

end Pcitop.Tool
