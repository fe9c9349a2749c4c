import Pcitop.Common.Writer
import Pcitop.Tool.Attributes
import Pcitop.Tool.LineResults

/-!
# The array of the banner

The writes of `build_banner` into the array it allocates, and what is left there. The
five rows between the lines pad their columns in three ways: to the width of the column,
to 16 characters and a separator, and, for the slots, by what is missing to 16
characters.

* `buildBanner_eq_textOf`: the text of the writes is the banner.
* `length_banner`: its length, from the characters that do not fit in their columns.
* `banner_fits_iff`: the exact lists whose banner fits in the array and is terminated
  there.
-/

namespace Pcitop.Tool

open Pcitop.Common

/-! ## The writes -/

/-- The argument of `malloc` (line 768), an `unsigned int`. -/
def bannerSize (numLbas : BitVec 32) : BitVec 32 :=
  (LINE_WIDTH numLbas + 1) * BitVec.ofNat 32 NUM_BANNER_ROWS + 1

/-- `for (i = 0; i < LINE_WIDTH(num_lbas); i++) *p++ = '-'`. -/
def lineText (numLbas : BitVec 32) : CString := List.replicate (LINE_WIDTH numLbas).toNat '-'

/-- The slot numbers with `", "` between them (lines 821–833). -/
def slotWrites : List SysfsSlot → List Write
  | [] => []
  | [slot] => [.sprintf (integritySlotStr slot.name)]
  | slot :: slots =>
    .sprintf (integritySlotStr slot.name) :: .sprintf ", ".toList :: slotWrites slots

/-- `sprintf(p, "%*s", COLUMN_SEP_WIDTH, " ")` after a column but the last. -/
def sepWrites (last : Bool) : List Write :=
  if last then [] else [.sprintf (padStr COLUMN_SEP_WIDTH [' '])]

/-- The writes for a displayed LBA, row by row (lines 780–853). -/
def bridgeWrites (last : Bool) (lba : LbaInfo) : List Write := [.sprintf (bridgeColumn last lba)]
def typeWrites (last : Bool) (lba : LbaInfo) : List Write := [.sprintf (typeColumn last lba)]
def speedWrites (last : Bool) (lba : LbaInfo) : List Write := [.sprintf (speedColumn last lba)]
def slotsWrites (last : Bool) (lba : LbaInfo) : List Write :=
  match lba.sysfsRootBridge with
  | none => []
  | some bridge =>
    (if bridge.slots.isEmpty then [.sprintf (padStr (-COLUMN_DATA_WIDTH) "n/a".toList)]
    else
      slotWrites bridge.slots ++
        [.sprintf
          (padStr (COLUMN_DATA_WIDTH - (textOf (slotWrites bridge.slots)).length) [' '])]) ++
      sepWrites last
def ropesWrites (last : Bool) (lba : LbaInfo) : List Write :=
  .sprintf (padStr (-COLUMN_DATA_WIDTH) (decInt lba.ropes.toInt)) :: sepWrites last

/-- A row: the header, the displayed LBAs and the end of the line. -/
def rowWrites (header : CString) (column : Bool → LbaInfo → List Write) (lbas : List LbaInfo) :
    List Write :=
  .sprintf (padStr (-(COLUMN_HEADER_WIDTH + COLUMN_SEP_WIDTH)) header) ::
    (cells displayed column lbas).flatten ++ [.putc '\n']

/-- The rows between the lines. -/
def rowsWrites (lbas : List LbaInfo) : List Write :=
  rowWrites "bridge".toList bridgeWrites lbas ++ rowWrites "type".toList typeWrites lbas ++
    rowWrites "speed".toList speedWrites lbas ++ rowWrites "slots".toList slotsWrites lbas ++
    rowWrites "ropes".toList ropesWrites lbas

/-- The writes of `build_banner`, in order. -/
def bannerWrites (numLbas : BitVec 32) (lbas : List LbaInfo) : List Write :=
  (lineText numLbas).map .putc ++ [.putc '\n'] ++ rowsWrites lbas ++ (lineText numLbas).map .putc

/-! ## The text of the writes -/

theorem textOf_flatten (wss : List (List Write)) :
    textOf wss.flatten = (wss.map textOf).flatten := by
  induction wss with
  | nil => rfl
  | cons ws wss ih => rw [List.flatten_cons, textOf_append, ih, List.map_cons, List.flatten_cons]

theorem textOf_slotWrites (bridge : SysfsRootBridge) :
    textOf (slotWrites bridge.slots) = slotNumbers ", ".toList bridge := by
  rw [slotNumbers]
  induction bridge.slots with
  | nil => rfl
  | cons slot slots ih =>
    cases slots with
    | nil => simp [slotWrites]
    | cons slot' slots =>
      rw [slotWrites, textOf_cons, textOf_cons, ih]
      · simp
      · exact List.cons_ne_nil slot' slots

/-- A walk whose texts do not fail gives the cells of the displayed LBAs. -/
theorem forDisplayed_eq_cells {text : Bool → LbaInfo → Except Fault CString}
    {cell : Bool → LbaInfo → CString} {lbas : List LbaInfo}
    (h : ∀ lba ∈ lbas, lba.display ≠ 0 → ∀ last, text last lba = .ok (cell last lba)) :
    forDisplayed text lbas = .ok (cells displayed cell lbas).flatten := by
  induction lbas with
  | nil => rfl
  | cons lba lbas ih =>
    have ih := ih fun x hx => h x (List.mem_cons_of_mem _ hx)
    rw [forDisplayed, cells, ih]
    by_cases hd : lba.display ≠ 0
    · rw [if_pos hd, h lba (by simp) hd, if_pos (by simpa [displayed] using hd)]
      rfl
    · rw [if_neg hd, if_neg (by simpa [displayed] using hd)]
      rfl

theorem bannerRow_eq_writes {header : CString} {text : Bool → LbaInfo → Except Fault CString}
    {column : Bool → LbaInfo → List Write} {lbas : List LbaInfo}
    (h : ∀ lba ∈ lbas, lba.display ≠ 0 → ∀ last, text last lba = .ok (textOf (column last lba))) :
    bannerRow header text lbas = .ok (textOf (rowWrites header column lbas)) := by
  rw [bannerRow, forDisplayed_eq_cells h, rowWrites, List.cons_append, textOf_cons, textOf_append,
    textOf_flatten, map_cells]
  simp [Except.map]

theorem slotsColumn_eq_writes {lba : LbaInfo} (h : lba.sysfsRootBridge.isSome) (last : Bool) :
    slotsColumn last lba = .ok (textOf (slotsWrites last lba)) := by
  obtain ⟨bridge, hb⟩ := Option.isSome_iff_exists.mp h
  have hsep : textOf (sepWrites last) = columnSep last := by
    cases last with
    | true => rfl
    | false => simp [sepWrites, columnSep]
  rw [slotsColumn, slotsWrites, hb]
  simp only [textOf_append, hsep]
  split_ifs
  · simp
  · simp [textOf_slotWrites]

theorem ropesColumn_eq_writes (lba : LbaInfo) (last : Bool) :
    ropesColumn last lba = textOf (ropesWrites last lba) := by
  cases last with
  | true => simp [ropesColumn, ropesWrites, sepWrites, columnSep]
  | false => simp [ropesColumn, ropesWrites, sepWrites, columnSep]

/-- The writes leave the banner. -/
theorem buildBanner_eq_textOf {lbas : List LbaInfo} (h : Bridged lbas) (numLbas : BitVec 32) :
    buildBanner true numLbas lbas = .ok (some (textOf (bannerWrites numLbas lbas))) := by
  have hbridge : bannerRow "bridge".toList (fun last lba => .ok (bridgeColumn last lba)) lbas =
      .ok (textOf (rowWrites "bridge".toList bridgeWrites lbas)) :=
    bannerRow_eq_writes fun lba _ _ last => by simp [bridgeWrites]
  have htype : bannerRow "type".toList (fun last lba => .ok (typeColumn last lba)) lbas =
      .ok (textOf (rowWrites "type".toList typeWrites lbas)) :=
    bannerRow_eq_writes fun lba _ _ last => by simp [typeWrites]
  have hspeed : bannerRow "speed".toList (fun last lba => .ok (speedColumn last lba)) lbas =
      .ok (textOf (rowWrites "speed".toList speedWrites lbas)) :=
    bannerRow_eq_writes fun lba _ _ last => by simp [speedWrites]
  have hslots : bannerRow "slots".toList slotsColumn lbas =
      .ok (textOf (rowWrites "slots".toList slotsWrites lbas)) :=
    bannerRow_eq_writes fun lba hmem hd last => slotsColumn_eq_writes (h lba hmem hd) last
  have hropes : bannerRow "ropes".toList (fun last lba => .ok (ropesColumn last lba)) lbas =
      .ok (textOf (rowWrites "ropes".toList ropesWrites lbas)) :=
    bannerRow_eq_writes fun lba _ _ last => by rw [ropesColumn_eq_writes]
  have hrows : bannerRows lbas = .ok [textOf (rowWrites "bridge".toList bridgeWrites lbas),
      textOf (rowWrites "type".toList typeWrites lbas),
      textOf (rowWrites "speed".toList speedWrites lbas),
      textOf (rowWrites "slots".toList slotsWrites lbas),
      textOf (rowWrites "ropes".toList ropesWrites lbas)] := by
    rw [bannerRows, hbridge, htype, hspeed, hslots, hropes]
    rfl
  rw [buildBanner, if_neg (by decide), hrows, ← lineText]
  simp [Except.map, bannerWrites, rowsWrites, textOf_map_putc]

/-! ## The length of the banner -/

/-- The width of a column with its separator. -/
def columnChars (last : Bool) : ℕ := if last then 16 else 16 + 2

/-- The characters of the slots beyond their column. From 16 on, the padding adds to
    them. -/
def slotsExcess (bridge : SysfsRootBridge) : ℕ :=
  let totCnt := (slotNumbers ", ".toList bridge).length
  if bridge.slots.isEmpty ∨ totCnt < 16 then 0 else if totCnt = 16 then 1 else 2 * (totCnt - 16)

/-- The characters for an LBA beyond its columns. -/
def excess (last : Bool) (lba : LbaInfo) : ℕ :=
  (lba.name.length - columnChars last) + ((strOrNull lba.busType).length - columnChars last) +
    ((strOrNull lba.busSpeed).length - columnChars last) + lba.sysfsRootBridge.elim 0 slotsExcess

/-- The characters of all displayed LBAs beyond their columns. -/
def excessOf (lbas : List LbaInfo) : ℕ := (cells displayed excess lbas).sum

theorem length_padStr_neg {w : ℕ} (hw : 0 < w) (s : CString) :
    (padStr (-(w : ℤ)) s).length = w + (s.length - w) := by
  rw [padStr, if_pos (by omega), List.length_append, List.length_replicate]
  omega

theorem length_padStr_colWidth (last : Bool) (s : CString) :
    (padStr (-colWidth last) s).length = columnChars last + (s.length - columnChars last) := by
  have hw : colWidth last = (columnChars last : ℕ) := by cases last <;> rfl
  rw [hw, length_padStr_neg]
  cases last <;> decide

/-- `"%*s"` of one blank, whatever the sign of the width. -/
theorem length_padStr_blank (width : ℤ) : (padStr width [' ']).length = max 1 width.natAbs := by
  rw [padStr]
  split_ifs with h
  · rw [List.length_append, List.length_replicate, List.length_singleton]
    omega
  · rw [length_padLeft, List.length_singleton]
    omega

theorem length_sepWrites (last : Bool) :
    16 + (textOf (sepWrites last)).length = columnChars last := by
  cases last <;> decide

theorem length_slotsWrites {lba : LbaInfo} (h : lba.sysfsRootBridge.isSome) (last : Bool) :
    (textOf (slotsWrites last lba)).length =
      columnChars last + lba.sysfsRootBridge.elim 0 slotsExcess := by
  obtain ⟨bridge, hb⟩ := Option.isSome_iff_exists.mp h
  have hsep := length_sepWrites last
  rw [slotsWrites, hb]
  simp only [textOf_append, List.length_append, Option.elim_some, slotsExcess]
  cases he : bridge.slots.isEmpty with
  | true =>
    have hna : (textOf [.sprintf (padStr (-COLUMN_DATA_WIDTH) "n/a".toList)]).length = 16 := by
      decide
    simp only [if_true, true_or, hna]
    omega
  | false =>
    simp only [Bool.false_eq_true, if_false, false_or, textOf_append, List.length_append,
      textOf_slotWrites, textOf_cons, Write.text_sprintf, textOf_nil, List.append_nil,
      length_padStr_blank, COLUMN_DATA_WIDTH]
    split_ifs <;> omega

/-- A 32-bit number takes at most 11 characters. -/
theorem length_decInt_le (v : BitVec 32) : (decInt v.toInt).length ≤ 11 := by
  have hlt := BitVec.toInt_lt (x := v)
  have hle := BitVec.le_toInt v
  norm_num at hlt hle
  unfold decInt
  split_ifs with h
  · have := length_dec_le (k := 10) (by norm_num) (show v.toInt.natAbs < 10 ^ 10 by omega)
    rw [List.length_cons]
    omega
  · have := length_dec_le (k := 10) (by norm_num) (show v.toInt.toNat < 10 ^ 10 by omega)
    omega

theorem length_ropesWrites (lba : LbaInfo) (last : Bool) :
    (textOf (ropesWrites last lba)).length = columnChars last := by
  have hsep := length_sepWrites last
  have hropes := length_decInt_le lba.ropes
  have hpad : (padStr (-COLUMN_DATA_WIDTH) (decInt lba.ropes.toInt)).length =
      16 + ((decInt lba.ropes.toInt).length - 16) := length_padStr_neg (by norm_num) _
  rw [ropesWrites, textOf_cons, List.length_append, Write.text_sprintf, hpad]
  omega

/-- A row: its header, the columns of the displayed LBAs with what goes beyond them, and
    the end of the line. -/
theorem length_rowWrites {header : CString} (hheader : header.length ≤ 8)
    (column : Bool → LbaInfo → List Write) (extra : Bool → LbaInfo → ℕ) {lbas : List LbaInfo}
    (h : ∀ lba ∈ lbas, displayed lba = true → ∀ last,
      (textOf (column last lba)).length = columnChars last + extra last lba) :
    (textOf (rowWrites header column lbas)).length +
        (if lastShown displayed lbas then 2 else 0) =
      9 + 18 * lbas.countP displayed + (cells displayed extra lbas).sum := by
  have hpad : (padStr (-(COLUMN_HEADER_WIDTH + COLUMN_SEP_WIDTH)) header).length =
      8 + (header.length - 8) := length_padStr_neg (by norm_num) _
  have hcells : (cells displayed column lbas).map (List.length ∘ textOf) =
      cells displayed (fun last lba => columnChars last + extra last lba) lbas := by
    rw [map_cells]
    exact cells_congr h
  have hsum : (cells displayed (fun last lba => columnChars last + extra last lba) lbas).sum =
      (cells displayed (fun last _ => columnChars last) lbas).sum +
        (cells displayed extra lbas).sum := sum_cells_add _ _ _
  have hwidth : (cells displayed (fun last _ => columnChars last) lbas).sum +
      (if lastShown displayed lbas then 2 else 0) = lbas.countP displayed * (16 + 2) :=
    sum_cells_width _ _ _
  rw [rowWrites, textOf_append, textOf_cons, textOf_flatten, List.length_append,
    List.length_append, Write.text_sprintf, hpad, List.length_flatten, List.map_map, hcells, hsum]
  simp only [textOf_cons, Write.text_putc, textOf_nil, List.append_nil, List.length_singleton]
  omega

/-- A row with one text for every LBA. -/
theorem length_textRow {header : CString} (hheader : header.length ≤ 8)
    (text : LbaInfo → CString) (lbas : List LbaInfo) :
    (textOf (rowWrites header (fun last lba => [.sprintf (padStr (-colWidth last) (text lba))])
        lbas)).length + (if lastShown displayed lbas then 2 else 0) =
      9 + 18 * lbas.countP displayed +
        (cells displayed (fun last lba => (text lba).length - columnChars last) lbas).sum := by
  refine length_rowWrites hheader _ _ fun lba _ _ last => ?_
  rw [textOf_cons, textOf_nil, List.append_nil, Write.text_sprintf]
  exact length_padStr_colWidth last (text lba)

theorem excessOf_eq (lbas : List LbaInfo) :
    excessOf lbas =
      (cells displayed (fun last lba => lba.name.length - columnChars last) lbas).sum +
        (cells displayed (fun last lba => (strOrNull lba.busType).length - columnChars last)
          lbas).sum +
        (cells displayed (fun last lba => (strOrNull lba.busSpeed).length - columnChars last)
          lbas).sum +
        (cells displayed (fun _ lba => lba.sysfsRootBridge.elim 0 slotsExcess) lbas).sum := by
  rw [← sum_cells_add, ← sum_cells_add, ← sum_cells_add]
  rfl

/-- The length of the banner: its two lines and its rows, the characters beyond the
    columns, and in each of the five rows a separator too many unless the last LBA is
    displayed. -/
theorem length_banner {lbas : List LbaInfo} (h : Bridged lbas) (numLbas : BitVec 32) :
    (textOf (bannerWrites numLbas lbas)).length +
        (if lastShown displayed lbas then 10 else 0) =
      2 * (LINE_WIDTH numLbas).toNat + 46 + 90 * lbas.countP displayed + excessOf lbas := by
  have hbridge : (textOf (rowWrites "bridge".toList bridgeWrites lbas)).length + _ = _ :=
    length_textRow (by decide) LbaInfo.name lbas
  have htype : (textOf (rowWrites "type".toList typeWrites lbas)).length + _ = _ :=
    length_textRow (by decide) (fun lba => strOrNull lba.busType) lbas
  have hspeed : (textOf (rowWrites "speed".toList speedWrites lbas)).length + _ = _ :=
    length_textRow (by decide) (fun lba => strOrNull lba.busSpeed) lbas
  have hslots : (textOf (rowWrites "slots".toList slotsWrites lbas)).length + _ = _ :=
    length_rowWrites (by decide) slotsWrites
      (fun _ lba => lba.sysfsRootBridge.elim 0 slotsExcess) fun lba hmem hd last =>
        length_slotsWrites (h lba hmem (by simpa [displayed] using hd)) last
  have hropes : (textOf (rowWrites "ropes".toList ropesWrites lbas)).length + _ = _ :=
    length_rowWrites (by decide) ropesWrites (fun _ _ => 0) fun lba _ _ last =>
      length_ropesWrites lba last
  have hzero : (cells displayed (fun _ (_ : LbaInfo) => 0) lbas).sum = 0 := by
    apply List.sum_eq_zero
    intro n hn
    obtain ⟨-, -, -, -, rfl⟩ := mem_cells hn
    rfl
  have hexcess := excessOf_eq lbas
  simp only [bannerWrites, rowsWrites, textOf_append, textOf_map_putc, List.length_append,
    textOf_cons, Write.text_putc, textOf_nil, List.append_nil, List.length_singleton, lineText,
    List.length_replicate]
  cases hlast : lastShown displayed lbas with
  | true =>
    simp only [hlast, if_true] at hbridge htype hspeed hslots hropes ⊢
    omega
  | false =>
    simp only [hlast, Bool.false_eq_true, if_false] at hbridge htype hspeed hslots hropes ⊢
    omega

/-! ## The texts of an LBA -/

/-- The strings of an LBA that are printed. -/
structure PrintsStrings (lba : LbaInfo) : Prop where
  name : NoNul lba.name
  busType : NoNul (strOrNull lba.busType)
  busSpeed : NoNul (strOrNull lba.busSpeed)

/-- The names of the tables are short and without NUL. -/
theorem busTypeOf_short (attrib : CString) :
    NoNul (busTypeOf attrib) ∧ (busTypeOf attrib).length ≤ 16 := by
  rw [busTypeOf]
  cases Hplba.hplbaBusOpModeToValue busOpModesTab attrib <;> decide

theorem busSpeedOf_short (attrib : CString) :
    NoNul (busSpeedOf attrib) ∧ (busSpeedOf attrib).length ≤ 16 := by
  rw [busSpeedOf]
  cases Hplba.hplbaBusSpeedToValue busSpeedsTab attrib <;> decide

/-- The strings of an LBA as `init_lba` makes it. -/
theorem printsStrings_of_initLba {ps : PageSize} {e : LbaEntry} {numLba numLba' : ℕ}
    {lba : LbaInfo} (h : initLba ps e numLba = .ok (some lba, numLba')) :
    PrintsStrings lba ∧ (strOrNull lba.busType).length ≤ 16 ∧
      (strOrNull lba.busSpeed).length ≤ 16 := by
  have hfits := fits_of_initLba h
  have hname : NoNul lba.name := by
    obtain ⟨lba', hrun, hinit, -⟩ := initLba_of_fits hfits ps numLba
    rw [h, Except.ok.injEq, Prod.mk.injEq, Option.some.injEq] at hrun
    rw [hrun.1, hinit.name]
    exact (noNul_cstr _).take _
  cases ha : e.memory.attrib with
  | true =>
    obtain ⟨lba', hrun, htype, hspeed, -⟩ := initLba_attributes hfits ha ps numLba
    rw [h, Except.ok.injEq, Prod.mk.injEq, Option.some.injEq] at hrun
    rw [← hrun.1] at htype hspeed
    rw [htype, hspeed]
    exact ⟨⟨hname, by rw [htype]; exact (busTypeOf_short _).1,
      by rw [hspeed]; exact (busSpeedOf_short _).1⟩, (busTypeOf_short _).2, (busSpeedOf_short _).2⟩
  | false =>
    have hnull : lba.busType = none ∧ lba.busSpeed = none := by
      simp only [initLba, hfits.1, hfits.2, ha, Bool.not_true, Bool.false_eq_true, if_false,
        Bool.not_false, if_true, Except.ok.injEq, Prod.mk.injEq, Option.some.injEq] at h
      rw [← h.1]
      exact ⟨rfl, rfl⟩
    rw [hnull.1, hnull.2]
    exact ⟨⟨hname, by rw [hnull.1]; decide, by rw [hnull.2]; decide⟩, by decide, by decide⟩

/-- With short names only the slots go beyond their columns. -/
theorem excessOf_of_short {lbas : List LbaInfo}
    (h : ∀ lba ∈ lbas, lba.name.length ≤ 16 ∧ (strOrNull lba.busType).length ≤ 16 ∧
      (strOrNull lba.busSpeed).length ≤ 16) :
    excessOf lbas =
      (cells displayed (fun _ lba => lba.sysfsRootBridge.elim 0 slotsExcess) lbas).sum := by
  rw [excessOf]
  congr 1
  refine cells_congr fun lba hmem _ last => ?_
  obtain ⟨hname, htype, hspeed⟩ := h lba hmem
  have hwidth : 16 ≤ columnChars last := by cases last <;> decide
  rw [excess]
  omega

theorem noNul_padStr (width : ℤ) {s : CString} (h : NoNul s) : NoNul (padStr width s) := by
  have hblank (n : ℕ) : NoNul (List.replicate n ' ') :=
    fun hmem => absurd (List.eq_of_mem_replicate hmem) (by decide)
  unfold padStr padLeft
  split_ifs
  · exact h.append (hblank _)
  · exact (hblank _).append h

theorem noNul_slotWrites (slots : List SysfsSlot) : ∀ w ∈ slotWrites slots, NoNul w.text := by
  induction slots with
  | nil => exact fun w hw => absurd hw List.not_mem_nil
  | cons slot slots ih =>
    have hslot : NoNul (Write.sprintf (integritySlotStr slot.name)).text := noNul_decInt _
    cases slots with
    | nil =>
      intro w hw
      rw [List.mem_singleton.mp hw]
      exact hslot
    | cons slot' slots =>
      rw [slotWrites, List.forall_mem_cons, List.forall_mem_cons]
      · exact ⟨hslot, by decide, ih⟩
      · exact List.cons_ne_nil slot' slots

theorem noNul_sepWrites (last : Bool) : NoNul (textOf (sepWrites last)) := by
  cases last <;> decide

theorem noNul_slotsWrites (last : Bool) (lba : LbaInfo) :
    NoNul (textOf (slotsWrites last lba)) := by
  unfold slotsWrites
  split
  · exact List.not_mem_nil
  · rename_i bridge _
    rw [textOf_append]
    refine NoNul.append ?_ (noNul_sepWrites last)
    split_ifs
    · decide
    · rw [textOf_append, textOf_cons, textOf_nil, List.append_nil]
      exact (noNul_textOf (noNul_slotWrites bridge.slots)).append (noNul_padStr _ (by decide))

theorem noNul_rowWrites {header : CString} (hheader : NoNul header)
    {column : Bool → LbaInfo → List Write} {lbas : List LbaInfo}
    (h : ∀ lba ∈ lbas, ∀ last, NoNul (textOf (column last lba))) :
    NoNul (textOf (rowWrites header column lbas)) := by
  have hcells : NoNul (textOf (cells displayed column lbas).flatten) := by
    rw [textOf_flatten]
    intro hmem
    obtain ⟨t, ht, hnul⟩ := List.mem_flatten.mp hmem
    obtain ⟨ws, hws, rfl⟩ := List.mem_map.mp ht
    obtain ⟨lba, hlba, -, last, rfl⟩ := mem_cells hws
    exact h lba hlba last hnul
  rw [rowWrites, textOf_append, textOf_cons]
  exact ((noNul_padStr _ hheader).append hcells).append (by decide)

theorem noNul_banner {lbas : List LbaInfo} (h : ∀ lba ∈ lbas, PrintsStrings lba)
    (numLbas : BitVec 32) : NoNul (textOf (bannerWrites numLbas lbas)) := by
  have hline : NoNul (lineText numLbas) :=
    fun hmem => absurd (List.eq_of_mem_replicate hmem) (by decide)
  have hbridge : NoNul (textOf (rowWrites "bridge".toList bridgeWrites lbas)) :=
    noNul_rowWrites (by decide) fun lba hmem last => by
      simpa [bridgeWrites, bridgeColumn] using noNul_padStr _ (h lba hmem).name
  have htype : NoNul (textOf (rowWrites "type".toList typeWrites lbas)) :=
    noNul_rowWrites (by decide) fun lba hmem last => by
      simpa [typeWrites, typeColumn] using noNul_padStr _ (h lba hmem).busType
  have hspeed : NoNul (textOf (rowWrites "speed".toList speedWrites lbas)) :=
    noNul_rowWrites (by decide) fun lba hmem last => by
      simpa [speedWrites, speedColumn] using noNul_padStr _ (h lba hmem).busSpeed
  have hslots : NoNul (textOf (rowWrites "slots".toList slotsWrites lbas)) :=
    noNul_rowWrites (by decide) fun lba _ last => noNul_slotsWrites last lba
  have hropes : NoNul (textOf (rowWrites "ropes".toList ropesWrites lbas)) :=
    noNul_rowWrites (by decide) fun lba _ last =>
      (noNul_padStr _ (noNul_decInt _)).append (noNul_sepWrites last)
  simp only [bannerWrites, rowsWrites, textOf_append, textOf_map_putc]
  exact ((hline.append (by decide)).append
    ((((hbridge.append htype).append hspeed).append hslots).append hropes)).append hline

/-! ## The array -/

theorem toNat_bannerSize (n : ℕ) :
    (bannerSize (BitVec.ofNat 32 n)).toNat = (126 * n + 50) % 2 ^ 32 := by
  rw [bannerSize, BitVec.toNat_add, BitVec.toNat_mul, toNat_lineWidth_add_one]
  simp only [BitVec.ofNat_eq_ofNat, BitVec.toNat_ofNat, NUM_BANNER_ROWS]
  omega

/-- A banner that fits is one whose size does not overflow. -/
theorem size_lt_of_le {n : ℕ}
    (h : 2 * ((18 * n + 6) % 2 ^ 32) + 36 + 90 * n ≤ (126 * n + 50) % 2 ^ 32) :
    126 * n + 50 < 2 ^ 32 := by
  have hmod : (126 * n + 50) % 2 ^ 32 < 2 ^ 32 := Nat.mod_lt _ (by norm_num)
  have hline : (18 * n + 6) % 2 ^ 32 = 18 * n + 6 := Nat.mod_eq_of_lt (by omega)
  omega

/-- The banner is written one character at a time from the end of its last row on. -/
theorem bannerWrites_eq_append_putc (numLbas : BitVec 32) (lbas : List LbaInfo) :
    ∃ ws, bannerWrites numLbas lbas = ws ++ ('\n' :: lineText numLbas).map .putc :=
  ⟨(lineText numLbas).map .putc ++ [.putc '\n'] ++ (rowWrites "bridge".toList bridgeWrites lbas ++
      rowWrites "type".toList typeWrites lbas ++ rowWrites "speed".toList speedWrites lbas ++
      rowWrites "slots".toList slotsWrites lbas ++
      (.sprintf (padStr (-(COLUMN_HEADER_WIDTH + COLUMN_SEP_WIDTH)) "ropes".toList) ::
        (cells displayed ropesWrites lbas).flatten)), by
    simp [bannerWrites, rowsWrites, rowWrites]⟩

/-- What `build_banner` writes stays in its array, which is terminated. `fill` is what
    `malloc` found there. -/
def BannerFits (fill : Memory) (numLbas : BitVec 32) (lbas : List LbaInfo) : Prop :=
  extent (bannerWrites numLbas lbas) 0 ≤ (bannerSize numLbas).toNat ∧
    ∃ i < (bannerSize numLbas).toNat, writeAll (bannerWrites numLbas lbas) 0 fill i = nul

/-- No terminator is written: with the last LBA of the list displayed two bytes are left
    behind the banner, less what goes beyond the columns, and one of these must have been
    0 before. -/
theorem bannerFits_iff (fill : Memory) {lbas : List LbaInfo} (hbridge : Bridged lbas)
    (hprints : ∀ lba ∈ lbas, PrintsStrings lba) :
    BannerFits fill (BitVec.ofNat 32 (lbas.countP displayed)) lbas ↔
      lastShown displayed lbas = true ∧ 126 * lbas.countP displayed + 50 < 2 ^ 32 ∧
        ∃ i, 126 * lbas.countP displayed + 48 + excessOf lbas ≤ i ∧
          i < 126 * lbas.countP displayed + 50 ∧ fill i = nul := by
  have hlen := length_banner hbridge (BitVec.ofNat 32 (lbas.countP displayed))
  have hnul := noNul_banner hprints (BitVec.ofNat 32 (lbas.countP displayed))
  obtain ⟨ws, hws⟩ := bannerWrites_eq_append_putc (BitVec.ofNat 32 (lbas.countP displayed)) lbas
  rw [hws] at hlen hnul
  have hne : '\n' :: lineText (BitVec.ofNat 32 (lbas.countP displayed)) ≠ [] :=
    List.cons_ne_nil _ _
  rw [BannerFits, hws, extent_append_putc ws hne 0, nul_writeAll_iff hne hnul, toNat_bannerSize,
    Nat.zero_add]
  rw [toNat_lineWidth] at hlen
  cases hlast : lastShown displayed lbas with
  | true =>
    rw [hlast] at hlen
    simp only [if_true] at hlen
    constructor
    · rintro ⟨hfit, i, hi, hlt, hfill⟩
      have hsize : 126 * lbas.countP displayed + 50 < 2 ^ 32 := size_lt_of_le (by omega)
      have hline := Nat.mod_eq_of_lt (show 18 * lbas.countP displayed + 6 < 2 ^ 32 by omega)
      exact ⟨rfl, hsize, i, by omega, by omega, hfill⟩
    · rintro ⟨-, hsize, i, hi, hlt, hfill⟩
      have hline := Nat.mod_eq_of_lt (show 18 * lbas.countP displayed + 6 < 2 ^ 32 by omega)
      have hmod := Nat.mod_eq_of_lt hsize
      exact ⟨by omega, i, by omega, by omega, hfill⟩
  | false =>
    rw [hlast] at hlen
    simp only [Bool.false_eq_true, if_false] at hlen
    refine iff_of_false ?_ fun h => absurd h.1 (by decide)
    rintro ⟨hfit, -⟩
    omega

/-- Memory with a single 0. -/
def nulAt (i : ℕ) : Memory := fun j => if j = i then nul else 'x'

/-- The sixth slot of `crowded0` takes the place of one of the two bytes that are left
    behind the banner of these LBAs; a 0 counts in the other only. -/
theorem bannerFits_iff_threeLbas :
    BannerFits (nulAt 301) (BitVec.ofNat 32 2) [hidden0, lba0, crowded0] ∧
      ¬ BannerFits (nulAt 300) (BitVec.ofNat 32 2) [hidden0, lba0, crowded0] := by
  have hbridge : Bridged [hidden0, lba0, crowded0] := by
    unfold Bridged
    decide
  have hprints : ∀ lba ∈ [hidden0, lba0, crowded0], PrintsStrings lba := by
    simp only [List.forall_mem_cons, List.not_mem_nil, false_implies, implies_true, and_true]
    exact ⟨⟨by decide, by decide, by decide⟩, ⟨by decide, by decide, by decide⟩,
      ⟨by decide, by decide, by decide⟩⟩
  have hexcess : excessOf [hidden0, lba0, crowded0] = 1 := by decide
  constructor
  · exact (bannerFits_iff (nulAt 301) hbridge hprints).mpr
      ⟨by decide, by decide, 301, by decide, by decide, rfl⟩
  · intro hfits
    obtain ⟨-, -, i, hi, hlt, hnul⟩ := (bannerFits_iff (nulAt 300) hbridge hprints).mp hfits
    rw [hexcess, show [hidden0, lba0, crowded0].countP displayed = 2 by decide] at hi
    rw [nulAt, if_neg (by omega)] at hnul
    exact absurd hnul (by decide)

/-- With an LBA after it that is not displayed, the banner of `lba0` is written past the
    end of its array. -/
theorem not_bannerFits_hidden0 :
    ¬ BannerFits (fun _ => nul) (BitVec.ofNat 32 1) [lba0, hidden0] := by
  have hbridge : Bridged [lba0, hidden0] := by
    unfold Bridged
    decide
  rintro ⟨hfit, -⟩
  have hlen := length_banner hbridge (BitVec.ofNat 32 1)
  have hext := le_extent (bannerWrites (BitVec.ofNat 32 1) [lba0, hidden0]) 0
  rw [show lastShown displayed [lba0, hidden0] = false by decide,
    show [lba0, hidden0].countP displayed = 1 by decide, toNat_lineWidth] at hlen
  rw [toNat_bannerSize] at hfit
  simp only [Bool.false_eq_true, if_false] at hlen
  omega

end Pcitop.Tool
