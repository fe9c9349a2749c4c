import Pcitop.Tool.Banner

/-!
# The columns of the display

The rows of the banner and those of the percentages have a cell for every displayed LBA.
A cell starts with its text, and is filled up to the next one: in the row of the slots
by the difference of their text to the width of a column.

* `bannerRows_eq_cells`, `lineResults_eq_cells`: the rows from their cells.
* `aligned_iff`: the exact lists for which the cells of all rows start at the columns.
-/

namespace Pcitop.Tool

open Pcitop.Common

/-- The header of a row. -/
def headerText (header : CString) : CString :=
  padStr (-(COLUMN_HEADER_WIDTH + COLUMN_SEP_WIDTH)) header

/-- The rows of the banner: the header of each, and its cells. -/
def bannerCells (lbas : List LbaInfo) : List (CString × List CString) :=
  [(headerText "bridge".toList, cells displayed bridgeColumn lbas),
    (headerText "type".toList, cells displayed typeColumn lbas),
    (headerText "speed".toList, cells displayed speedColumn lbas),
    (headerText "slots".toList,
      cells displayed (fun last lba => textOf (slotsWrites last lba)) lbas),
    (headerText "ropes".toList, cells displayed ropesColumn lbas)]

/-- A row of percentages. -/
def resultCells (divide : BitVec 64 → BitVec 64 → ℚ) (utils : List (Option Util)) :
    CString × List CString :=
  (headerText [' '], cells Option.isSome (resultCell divide) utils)

theorem bannerRow_eq_cells {header : CString} {text : Bool → LbaInfo → Except Fault CString}
    {cell : Bool → LbaInfo → CString} {lbas : List LbaInfo}
    (h : ∀ lba ∈ lbas, lba.display ≠ 0 → ∀ last, text last lba = .ok (cell last lba)) :
    bannerRow header text lbas =
      .ok (headerText header ++ (cells displayed cell lbas).flatten ++ ['\n']) := by
  rw [bannerRow, forDisplayed_eq_cells h]
  rfl

/-- The rows of the banner are their headers and their cells. -/
theorem bannerRows_eq_cells {lbas : List LbaInfo} (h : Bridged lbas) :
    bannerRows lbas = .ok ((bannerCells lbas).map fun row => row.1 ++ row.2.flatten ++ ['\n']) := by
  have hbridge : bannerRow "bridge".toList (fun last lba => .ok (bridgeColumn last lba)) lbas = _ :=
    bannerRow_eq_cells fun _ _ _ _ => rfl
  have htype : bannerRow "type".toList (fun last lba => .ok (typeColumn last lba)) lbas = _ :=
    bannerRow_eq_cells fun _ _ _ _ => rfl
  have hspeed : bannerRow "speed".toList (fun last lba => .ok (speedColumn last lba)) lbas = _ :=
    bannerRow_eq_cells fun _ _ _ _ => rfl
  have hslots : bannerRow "slots".toList slotsColumn lbas = _ :=
    bannerRow_eq_cells fun lba hmem hd last => slotsColumn_eq_writes (h lba hmem hd) last
  have hropes : bannerRow "ropes".toList (fun last lba => .ok (ropesColumn last lba)) lbas = _ :=
    bannerRow_eq_cells fun _ _ _ _ => rfl
  rw [bannerRows, hbridge, htype, hspeed, hslots, hropes]
  rfl

theorem lineResults_eq_cells (divide : BitVec 64 → BitVec 64 → ℚ) (utils : List (Option Util)) :
    lineResults divide utils =
      (resultCells divide utils).1 ++ (resultCells divide utils).2.flatten :=
  rfl

/-! ## Where the cells start -/

/-- The `k`-th cell of a row, counted from 0, starts at the `k`-th column. -/
def AtColumns (row : CString × List CString) : Prop :=
  ∀ k < row.2.length, (offset row.1.length row.2 k : ℤ) =
    COLUMN_HEADER_WIDTH + COLUMN_SEP_WIDTH + k * (COLUMN_DATA_WIDTH + COLUMN_SEP_WIDTH)

/-- The cells of the banner and of the rows of percentages start at the columns. -/
def Aligned (divide : BitVec 64 → BitVec 64 → ℚ) (lbas : List LbaInfo)
    (lines : List (List (Option Util))) : Prop :=
  ∀ row ∈ bannerCells lbas ++ lines.map (resultCells divide), AtColumns row

theorem length_headerText {header : CString} (h : header.length ≤ 8) :
    (headerText header).length = 8 := by
  have hpad : (padStr (-(COLUMN_HEADER_WIDTH + COLUMN_SEP_WIDTH)) header).length =
      8 + (header.length - 8) := length_padStr_neg (by norm_num) _
  rw [headerText, hpad]
  omega

/-- The cells of a row start at the columns when all but the last are 18 characters
    long. -/
theorem atColumns_iff {header : CString} (h : header.length ≤ 8) (row : List CString) :
    AtColumns (headerText header, row) ↔ ∀ c ∈ row.dropLast, c.length = 18 := by
  rw [← offset_eq_iff 8 18 row, AtColumns, length_headerText h]
  refine forall₂_congr fun k _ => ?_
  simp only [COLUMN_HEADER_WIDTH, COLUMN_SEP_WIDTH, COLUMN_DATA_WIDTH]
  omega

/-- The LBA is displayed, and so is one after it in the list. -/
def FollowedBy (lbas : List LbaInfo) (lba : LbaInfo) : Prop :=
  ∃ before after, lbas = before ++ lba :: after ∧ displayed lba = true ∧
    after.any displayed = true

/-- The same for the row of a column. -/
theorem atColumns_cells_iff {header : CString} (h : header.length ≤ 8)
    (column : Bool → LbaInfo → CString) (lbas : List LbaInfo) :
    AtColumns (headerText header, cells displayed column lbas) ↔
      ∀ lba, FollowedBy lbas lba → (column false lba).length = 18 := by
  rw [atColumns_iff h, forall_dropLast_cells_iff]
  constructor
  · rintro hcol lba ⟨before, after, hlbas, hd, hany⟩
    exact hcol before lba after hlbas hd hany
  · exact fun hcol before lba after hlbas hd hany => hcol lba ⟨before, after, hlbas, hd, hany⟩

/-- Percentages are at their columns. -/
theorem atColumns_resultCells {divide : BitVec 64 → BitVec 64 → ℚ} {utils : List (Option Util)}
    (h : Percentages divide utils) : AtColumns (resultCells divide utils) := by
  rw [resultCells, atColumns_iff (by decide), forall_dropLast_cells_iff]
  rintro before (_ | util) after hutils hsome -
  · exact absurd hsome (by decide)
  · have hmem : some util ∈ utils := by
      rw [hutils]
      simp
    exact length_resultCell (h util hmem).1 (h util hmem).2 false

/-! ## When the rows are aligned -/

/-- The texts of the LBA leave room for what follows them. -/
structure FitsColumns (lba : LbaInfo) : Prop where
  name : lba.name.length ≤ 18
  busType : (strOrNull lba.busType).length ≤ 18
  busSpeed : (strOrNull lba.busSpeed).length ≤ 18
  slots : ∀ bridge, lba.sysfsRootBridge = some bridge →
    bridge.slots = [] ∨ (slotNumbers ", ".toList bridge).length < 16

theorem length_padStr_colWidth_eq_iff (s : CString) :
    (padStr (-colWidth false) s).length = 18 ↔ s.length ≤ 18 := by
  have hw : columnChars false = 18 := rfl
  rw [length_padStr_colWidth, hw]
  omega

theorem slotsExcess_eq_zero_iff (bridge : SysfsRootBridge) :
    slotsExcess bridge = 0 ↔
      bridge.slots = [] ∨ (slotNumbers ", ".toList bridge).length < 16 := by
  rw [slotsExcess, ← List.isEmpty_iff]
  split_ifs with hshort heq
  · exact iff_of_true rfl hshort
  · exact iff_of_false not_false hshort
  · obtain ⟨-, hlong⟩ := not_or.mp hshort
    exact iff_of_false (by omega) hshort

theorem fitsColumns_iff {lba : LbaInfo} (h : lba.sysfsRootBridge.isSome) :
    FitsColumns lba ↔ (bridgeColumn false lba).length = 18 ∧ (typeColumn false lba).length = 18 ∧
      (speedColumn false lba).length = 18 ∧ (textOf (slotsWrites false lba)).length = 18 := by
  obtain ⟨bridge, hb⟩ := Option.isSome_iff_exists.mp h
  have hw : columnChars false = 18 := rfl
  rw [bridgeColumn, typeColumn, speedColumn, length_padStr_colWidth_eq_iff,
    length_padStr_colWidth_eq_iff, length_padStr_colWidth_eq_iff, length_slotsWrites h, hw, hb,
    Option.elim_some]
  have hslots : 18 + slotsExcess bridge = 18 ↔ slotsExcess bridge = 0 := by omega
  rw [hslots, slotsExcess_eq_zero_iff]
  constructor
  · rintro ⟨hname, htype, hspeed, hslots⟩
    exact ⟨hname, htype, hspeed, hslots bridge hb⟩
  · rintro ⟨hname, htype, hspeed, hslots⟩
    refine ⟨hname, htype, hspeed, fun bridge' hb' => ?_⟩
    rwa [← Option.some.inj (hb.symm.trans hb')]

/-- A run that prints anything has root bridges for its displayed LBAs. -/
theorem bridged_of_measureUtilization {mem : MeasureMemory} {ps : PageSize} {env : Env}
    {nsamples numLbaDisplay : ℕ} {lbas : List LbaInfo} {run : Run}
    (hrun : measureUtilization mem ps env nsamples numLbaDisplay lbas = .ok run) :
    Bridged lbas := by
  obtain ⟨banner, hbanner, -⟩ := measureUtilization_banner hrun
  by_contra hn
  cases hmem : mem.banner with
  | true =>
    rw [hmem, buildBanner_error hn] at hbanner
    exact absurd hbanner (by simp)
  | false =>
    rw [hmem] at hbanner
    exact absurd hbanner (by simp [buildBanner])

/-- The rows of a run are aligned exactly when the names and the slots of every displayed
    LBA that another displayed one follows leave room in their columns. -/
theorem aligned_iff {mem : MeasureMemory} {ps : PageSize} {env : Env}
    {nsamples numLbaDisplay : ℕ} {lbas : List LbaInfo} {run : Run}
    (divide : BitVec 64 → BitVec 64 → ℚ)
    (hrun : measureUtilization mem ps env nsamples numLbaDisplay lbas = .ok run)
    (hutils : ∀ utils ∈ run.lines, Percentages divide utils) :
    Aligned divide lbas run.lines ↔ ∀ lba, FollowedBy lbas lba → FitsColumns lba := by
  have hbridge := bridged_of_measureUtilization hrun
  have hresults : ∀ row ∈ run.lines.map (resultCells divide), AtColumns row := by
    intro row hmem
    obtain ⟨utils, hu, rfl⟩ := List.mem_map.mp hmem
    exact atColumns_resultCells (hutils utils hu)
  have hropes : ∀ lba, FollowedBy lbas lba → (ropesColumn false lba).length = 18 := by
    intro lba _
    rw [ropesColumn_eq_writes, length_ropesWrites]
    rfl
  have hfits : ∀ lba, FollowedBy lbas lba → (FitsColumns lba ↔
      (bridgeColumn false lba).length = 18 ∧ (typeColumn false lba).length = 18 ∧
        (speedColumn false lba).length = 18 ∧ (textOf (slotsWrites false lba)).length = 18) := by
    rintro lba ⟨before, after, hlbas, hd, -⟩
    have hmem : lba ∈ lbas := by
      rw [hlbas]
      simp
    exact fitsColumns_iff (hbridge lba hmem (by simpa [displayed] using hd))
  rw [Aligned, List.forall_mem_append, and_iff_left hresults, bannerCells]
  simp only [List.forall_mem_cons, List.not_mem_nil, false_implies, implies_true, and_true]
  rw [atColumns_cells_iff (by decide), atColumns_cells_iff (by decide),
    atColumns_cells_iff (by decide), atColumns_cells_iff (by decide),
    atColumns_cells_iff (by decide)]
  constructor
  · rintro ⟨hname, htype, hspeed, hslots, -⟩ lba hlba
    exact (hfits lba hlba).mpr ⟨hname lba hlba, htype lba hlba, hspeed lba hlba, hslots lba hlba⟩
  · intro h
    have h := fun lba hlba => (hfits lba hlba).mp (h lba hlba)
    exact ⟨fun lba hlba => (h lba hlba).1, fun lba hlba => (h lba hlba).2.1,
      fun lba hlba => (h lba hlba).2.2.1, fun lba hlba => (h lba hlba).2.2.2, hropes⟩

/-- The six slots of the last LBA shift nothing. -/
theorem aligned_iff_threeLbas :
    ∃ run, measureUtilization ⟨true, true⟩ ⟨4096, le_rfl⟩ quarterEnv 1 2
        [lba0, hidden0, crowded0] = .ok run ∧
      Aligned quotient [lba0, hidden0, crowded0] run.lines := by
  have hsub : ∀ lba ∈ [lba0, hidden0, crowded0], lba ∈ [lba0, hidden0, crowded0] := by simp
  obtain ⟨run, hrun, hutils⟩ := run_quarterEnv hsub 2
  refine ⟨run, hrun, (aligned_iff quotient hrun hutils).mpr ?_⟩
  rintro lba ⟨before, after, hlbas, hd, hafter⟩
  have hfirst : lba = lba0 := by
    rcases before with _ | ⟨a, _ | ⟨b, before⟩⟩
    · have hcons : lba = lba0 ∧ after = [hidden0, crowded0] := by simpa using hlbas.symm
      exact hcons.1
    · obtain ⟨-, rfl, -⟩ : lba0 = a ∧ hidden0 = lba ∧ [crowded0] = after := by simpa using hlbas
      exact absurd hd (by decide)
    · have hnil : after = [] := by
        have := congrArg List.length hlbas
        simp only [List.length_cons, List.length_nil, List.length_append] at this
        exact List.length_eq_zero_iff.mp (by omega)
      rw [hnil] at hafter
      exact absurd hafter (by decide)
  rw [hfirst]
  refine ⟨by decide, by decide, by decide, fun bridge hb => .inl ?_⟩
  rw [← Option.some.inj (show some ⟨"0000:00".toList, []⟩ = some bridge from hb)]

/-- The numbers of six slots take 16 characters, and the LBA after them is shifted. -/
theorem not_aligned_crowded0 :
    ∃ run, measureUtilization ⟨true, true⟩ ⟨4096, le_rfl⟩ quarterEnv 1 2 [crowded0, lba0] =
        .ok run ∧
      (∀ utils ∈ run.lines, Percentages quotient utils) ∧
      ¬ Aligned quotient [crowded0, lba0] run.lines := by
  have hsub : ∀ lba ∈ [crowded0, lba0], lba ∈ [lba0, hidden0, crowded0] := by simp
  obtain ⟨run, hrun, hutils⟩ := run_quarterEnv hsub 2
  refine ⟨run, hrun, hutils, fun h => ?_⟩
  have hrow := h _ (List.mem_append_left _
    (show (headerText "slots".toList, cells displayed
      (fun last lba => textOf (slotsWrites last lba)) [crowded0, lba0]) ∈
        bannerCells [crowded0, lba0] by simp [bannerCells]))
  have hfirst := (atColumns_cells_iff (by decide) _ _).mp hrow crowded0
    ⟨[], [lba0], rfl, by decide, by decide⟩
  exact absurd hfirst (by decide)

end Pcitop.Tool
