import Pcitop.Common.Arrays
import Pcitop.Tool.LbaInfo

/-!
# The attributes of an LBA

`init_lba` reads five attributes of an LBA into one page, which it clears once, and
drops what `read_lba_attribute` returns. A read that fails leaves the text of an
earlier attribute in the page.

* `readLbaAttribute_lastPage`: the page holds the last file that could be read, as if
  that had been read alone.
* `field_iff`: a field has the value of its own file when that can be read, or when
  nothing comes of what is in the page instead.
* `ownAttributes_iff`: the same for the five fields of an LBA.
-/

namespace Pcitop.Tool

open Pcitop.Common Pcitop.Hplba

/-! ## The page -/

/-- A file read into a cleared page. -/
def ownPage (ps : PageSize) (file : FileRead) : CString := readLbaAttribute ps file (zeroed ps)

/-- The page after reading some files, of which the last comes first. -/
def lastPage (ps : PageSize) : List FileRead → CString
  | [] => zeroed ps
  | .data bytes :: _ => ownPage ps (.data bytes)
  | _ :: files => lastPage ps files

/-- No read goes past the first `PATH_MAX` bytes. -/
theorem drop_lastPage (ps : PageSize) (files : List FileRead) :
    (lastPage ps files).drop PATH_MAX = (zeroed ps).drop PATH_MAX := by
  induction files with
  | nil => rfl
  | cons file files ih =>
    cases file with
    | data bytes =>
      have hps : PATH_MAX ≤ ps := ps.2
      rw [lastPage, ownPage, readLbaAttribute, readAttribute_of_le ps bytes _ hps]
      exact drop_strncpy _ _ _
    | noMemory => exact ih
    | noOpen => exact ih
    | noRead => exact ih

/-- One more read. -/
theorem readLbaAttribute_lastPage (ps : PageSize) (file : FileRead) (files : List FileRead) :
    readLbaAttribute ps file (lastPage ps files) = lastPage ps (file :: files) := by
  cases file with
  | data bytes =>
    have hps : PATH_MAX ≤ ps := ps.2
    rw [lastPage, ownPage, readLbaAttribute, readLbaAttribute,
      readAttribute_of_le ps bytes _ hps, readAttribute_of_le ps bytes _ hps]
    exact strncpy_congr_drop (drop_lastPage ps files) _
  | noMemory => rfl
  | noOpen => rfl
  | noRead => rfl

/-! ## The fields -/

/-- A field that has the value of its own file, or a fixed one when that cannot be
    read. -/
def ownValue {α : Type} (ps : PageSize) (file : FileRead) (value : CString → α) (unknown : α) : α :=
  match file with
  | .data bytes => value (ownPage ps (.data bytes))
  | _ => unknown

/-- A field is its own exactly when its file can be read, or nothing comes of the file
    read before. -/
theorem field_iff {α : Type} (ps : PageSize) (file : FileRead) (files : List FileRead)
    (value : CString → α) (unknown : α) :
    value (lastPage ps (file :: files)) = ownValue ps file value unknown ↔
      (¬ file.Reads → value (lastPage ps files) = unknown) := by
  cases file with
  | data bytes => exact iff_of_true rfl fun h => absurd trivial h
  | noMemory => exact ⟨fun h _ => h, fun h => h (by simp [FileRead.Reads])⟩
  | noOpen => exact ⟨fun h _ => h, fun h => h (by simp [FileRead.Reads])⟩
  | noRead => exact ⟨fun h _ => h, fun h => h (by simp [FileRead.Reads])⟩

/-- What `init_lba` makes of the page, for each field in turn. -/
def busTypeOf (attrib : CString) : CString :=
  hplbaBusOpModeToStr busOpModesTab (hplbaBusOpModeToValue busOpModesTab attrib).code
def busSpeedOf (attrib : CString) : CString :=
  hplbaBusSpeedToStr busSpeedsTab (hplbaBusSpeedToValue busSpeedsTab attrib).code
def idOf (attrib : CString) : BitVec 32 := assignUint (sscanf functionIdFmt attrib) 0 0
def revisionOf (attrib : CString) : CString := strncpy (zeroed REV_LEN) attrib REV_LEN
def ropesOf (attrib : CString) : BitVec 32 := BitVec.ofInt 32 (atoi attrib)

/-- The LBA made for an entry with memory. -/
theorem initLba_attributes {e : LbaEntry} (h : e.Fits) (ha : e.memory.attrib = true)
    (ps : PageSize) (numLba : ℕ) :
    ∃ lba, initLba ps e numLba = .ok (some lba, numLba + 1) ∧
      lba.busType = some (busTypeOf (lastPage ps [e.busMode])) ∧
      lba.busSpeed = some (busSpeedOf (lastPage ps [e.busSpeed, e.busMode])) ∧
      lba.id = idOf (lastPage ps [e.functionId, e.busSpeed, e.busMode]) ∧
      lba.revision = revisionOf (lastPage ps [e.revision, e.functionId, e.busSpeed, e.busMode]) ∧
      lba.ropes =
        ropesOf (lastPage ps [e.ropes, e.revision, e.functionId, e.busSpeed, e.busMode]) := by
  unfold initLba
  simp only [h.1, h.2, ha, Bool.not_true, Bool.false_eq_true, if_false]
  refine ⟨_, rfl, ?_⟩
  simp only [← readLbaAttribute_lastPage]
  exact ⟨rfl, rfl, rfl, rfl, rfl⟩

/-! ## When nothing comes of a page -/

theorem busTypeOf_zeroed (n : ℕ) : busTypeOf (zeroed n) = "unknown".toList := by
  have hnil : NoNul [] := List.not_mem_nil
  have hc : cstr (zeroed n) = cstr [] := cstr_append_replicate hnil n
  have hv : hplbaBusOpModeToValue busOpModesTab (zeroed n) =
      hplbaBusOpModeToValue busOpModesTab [] := by
    simp only [hplbaBusOpModeToValue, toValue, nameMatches, strneq, charAt, hc]
  rw [busTypeOf, hv]
  decide

theorem busSpeedOf_eq_unknown_iff (attrib : CString) :
    busSpeedOf attrib = "unknown".toList ↔
      hplbaBusSpeedToValue busSpeedsTab attrib = .unkSpeed := by
  rw [busSpeedOf]
  cases hplbaBusSpeedToValue busSpeedsTab attrib <;> decide

theorem idOf_eq_zero_iff (attrib : CString) :
    idOf attrib = 0 ↔ ∀ v, (sscanf functionIdFmt attrib)[0]? = some (.uint v) → v = 0 := by
  rw [idOf, assignUint]
  constructor
  · intro h v hv
    rwa [hv] at h
  · intro h
    split
    · rename_i v hv
      exact h v hv
    · rfl

theorem revisionOf_eq_zeroed_iff (attrib : CString) :
    revisionOf attrib = zeroed REV_LEN ↔ strlen attrib = 0 := by
  rw [revisionOf, strncpy_zeroed, strncpyBytes, strlen, List.length_eq_zero_iff]
  constructor
  · intro h
    cases hs : cstr attrib with
    | nil => rfl
    | cons c s =>
      have hne : c ≠ nul := by
        rintro rfl
        exact noNul_cstr attrib (by simp [hs])
      rw [hs] at h
      exact absurd (List.cons.inj h).1 hne
  · intro h
    rw [h]
    simp [zeroed]

theorem ropesOf_eq_zero_iff (attrib : CString) : ropesOf attrib = 0 ↔ atoi attrib = 0 := by
  rw [ropesOf, atoi, BitVec.ofInt_toInt, ← BitVec.toInt_inj]
  rfl

/-! ## The five fields -/

/-- The fields come from the files they are named after: unknown or zero for a file that
    cannot be read. -/
structure OwnAttributes (ps : PageSize) (e : LbaEntry) (lba : LbaInfo) : Prop where
  busType : lba.busType = some (ownValue ps e.busMode busTypeOf "unknown".toList)
  busSpeed : lba.busSpeed = some (ownValue ps e.busSpeed busSpeedOf "unknown".toList)
  id : lba.id = ownValue ps e.functionId idOf 0
  revision : lba.revision = ownValue ps e.revision revisionOf (zeroed REV_LEN)
  ropes : lba.ropes = ownValue ps e.ropes ropesOf 0

/-- Whatever LBA `init_lba` makes by reading the attributes of the entry has them from
    their own files. -/
def InitsFromOwnFiles (ps : PageSize) (e : LbaEntry) : Prop :=
  ∀ numLba lba numLba', initLba ps e numLba = .ok (some lba, numLba') →
    e.memory.attrib = true → OwnAttributes ps e lba

/-- Where a file cannot be read, the last one that could is of no use for its field: it
    is not the name of a speed, not a hexadecimal number but 0, empty, not a number but
    0. -/
structure NothingLeft (ps : PageSize) (e : LbaEntry) : Prop where
  busSpeed : ¬ e.busSpeed.Reads →
    hplbaBusSpeedToValue busSpeedsTab (lastPage ps [e.busMode]) = .unkSpeed
  id : ¬ e.functionId.Reads →
    ∀ v, (sscanf functionIdFmt (lastPage ps [e.busSpeed, e.busMode]))[0]? = some (.uint v) → v = 0
  revision : ¬ e.revision.Reads → strlen (lastPage ps [e.functionId, e.busSpeed, e.busMode]) = 0
  ropes : ¬ e.ropes.Reads →
    atoi (lastPage ps [e.revision, e.functionId, e.busSpeed, e.busMode]) = 0

theorem ownAttributes_of_initLba {ps : PageSize} {e : LbaEntry} {lba : LbaInfo} {numLba : ℕ}
    {numLba' : ℕ} (hinit : initLba ps e numLba = .ok (some lba, numLba'))
    (hfits : e.Fits) (ha : e.memory.attrib = true) : OwnAttributes ps e lba ↔ NothingLeft ps e := by
  obtain ⟨lba', hrun, htype, hspeed, hid, hrev, hropes⟩ := initLba_attributes hfits ha ps numLba
  obtain rfl : lba = lba' := by
    have := hinit.symm.trans hrun
    simp only [Except.ok.injEq, Prod.mk.injEq, Option.some.injEq] at this
    exact this.1
  have hspeed_iff := field_iff ps e.busSpeed [e.busMode] busSpeedOf "unknown".toList
  have hid_iff := field_iff ps e.functionId [e.busSpeed, e.busMode] idOf 0
  have hrev_iff := field_iff ps e.revision [e.functionId, e.busSpeed, e.busMode] revisionOf
    (zeroed REV_LEN)
  have hropes_iff := field_iff ps e.ropes [e.revision, e.functionId, e.busSpeed, e.busMode]
    ropesOf 0
  rw [busSpeedOf_eq_unknown_iff] at hspeed_iff
  rw [idOf_eq_zero_iff] at hid_iff
  rw [revisionOf_eq_zeroed_iff] at hrev_iff
  rw [ropesOf_eq_zero_iff] at hropes_iff
  constructor
  · intro h
    refine ⟨hspeed_iff.mp ?_, hid_iff.mp ?_, hrev_iff.mp ?_, hropes_iff.mp ?_⟩
    · exact Option.some.inj (hspeed.symm.trans h.busSpeed)
    · exact hid.symm.trans h.id
    · exact hrev.symm.trans h.revision
    · exact hropes.symm.trans h.ropes
  · intro h
    refine ⟨htype.trans (congrArg some ?_),
      hspeed.trans (congrArg some (hspeed_iff.mpr h.busSpeed)),
      hid.trans (hid_iff.mpr h.id), hrev.trans (hrev_iff.mpr h.revision),
      hropes.trans (hropes_iff.mpr h.ropes)⟩
    -- Before the first file the page is clear.
    exact (field_iff ps e.busMode [] busTypeOf "unknown".toList).mpr fun _ => busTypeOf_zeroed ps

/-- The fields of every LBA made for an entry are its own exactly when nothing usable is
    left in the page where a read fails. -/
theorem initsFromOwnFiles_iff (ps : PageSize) (e : LbaEntry) :
    InitsFromOwnFiles ps e ↔ (e.Fits → e.memory.attrib = true → NothingLeft ps e) := by
  constructor
  · intro h hfits ha
    obtain ⟨lba, hrun, -⟩ := initLba_attributes hfits ha ps 0
    exact (ownAttributes_of_initLba hrun hfits ha).mp (h 0 lba 1 hrun ha)
  · intro h numLba lba numLba' hrun ha
    have hfits := fits_of_initLba hrun
    exact (ownAttributes_of_initLba hrun hfits ha).mpr (h hfits ha)

/-- An LBA whose `revision` cannot be opened, after a `function_id`. -/
def noRevision : LbaEntry where
  dName := "0000:00:00.0".toList
  memory := ⟨true, true, true, fun _ => ⟨true, true, true⟩⟩
  pciId := ⟨0, 0, 0, 0⟩
  busMode := .data "PCI-X mode 1\n".toList
  busSpeed := .data "133 MHz\n".toList
  functionId := .data "0x122e\n".toList
  revision := .noOpen
  ropes := .data "2\n".toList

theorem not_initsFromOwnFiles_noRevision : ¬ InitsFromOwnFiles ⟨4096, le_rfl⟩ noRevision := by
  intro h
  obtain ⟨lba, hrun, -, -, -, hrev, -⟩ := initLba_attributes (e := noRevision) ⟨rfl, rfl⟩ rfl
    ⟨4096, le_rfl⟩ 0
  have hown := hrev.symm.trans (h 0 lba 1 hrun rfl).revision
  have hleft : strlen (lastPage ⟨4096, le_rfl⟩ [noRevision.functionId, noRevision.busSpeed,
      noRevision.busMode]) = 6 := by decide
  have hzero := (revisionOf_eq_zeroed_iff _).mp hown
  rw [show lastPage ⟨4096, le_rfl⟩ [noRevision.revision, noRevision.functionId,
    noRevision.busSpeed, noRevision.busMode] = lastPage ⟨4096, le_rfl⟩ [noRevision.functionId,
      noRevision.busSpeed, noRevision.busMode] from rfl, hleft] at hzero
  exact absurd hzero (by decide)

end Pcitop.Tool
