import Pcitop.Tool.LbaInfo

/-!
# Text about the displayed LBAs

Model of `show_all_root_info` and `build_banner` (`pcitop.c`). Both walk over
`host_lba_list` and print something for every LBA whose `display` is set; the
slots of an LBA are those of its root bridge, whose pointer neither tests.

* `forDisplayed_ok`, `NeedsBridge.forDisplayed_error`: such a walk succeeds when the text of
  every displayed LBA does, and fails like one that does not.
* `buildBanner_ok`, `buildBanner_error`, `showAllRootInfo_ok`,
  `showAllRootInfo_error`: what matters is a root bridge for every displayed LBA.
-/

namespace Pcitop.Tool

open Pcitop.Common

/-- Display constants (lines 61–66). -/
def COLUMN_SEP_WIDTH : ℤ := 2
def COLUMN_HEADER_WIDTH : ℤ := 6
def COLUMN_DATA_WIDTH : ℤ := 16
def NUM_BANNER_ROWS : ℕ := 7
def SCREEN_ROWS : ℕ := 24
def UTIL_ROWS : ℕ := SCREEN_ROWS - NUM_BANNER_ROWS - 1

/-- `LINE_WIDTH(lbas)` (lines 68–71) of an `unsigned int`. -/
def LINE_WIDTH (lbas : BitVec 32) : BitVec 32 := 6 + 2 + lbas * 16 + (lbas - 1) * 2

/-- A string printed with `%s`; the library prints `(null)` for NULL. -/
def strOrNull (s : Option CString) : CString := s.getD "(null)".toList

/-- `list_for_each(&host_lba_list, lba, list) if (lba->display) …`: what `text`
    prints for the displayed LBAs, told whether each is the last of the list. -/
def forDisplayed (text : Bool → LbaInfo → Except Fault CString) :
    List LbaInfo → Except Fault CString
  | [] => .ok []
  | lba :: lbas =>
    match (if lba.display ≠ 0 then text lbas.isEmpty lba else .ok []) with
    | .error fault => .error fault
    | .ok t =>
      match forDisplayed text lbas with
      | .error fault => .error fault
      | .ok ts => .ok (t ++ ts)

/-! ## `show_all_root_info` -/

/-- `%#x`. -/
def hexAlt (v : ℕ) : CString := if v = 0 then ['0'] else "0x".toList ++ Nat.toDigits 16 v

/-- The slots of a bridge, their numbers separated by `sep`. -/
def slotNumbers (sep : CString) (bridge : SysfsRootBridge) : CString :=
  sep.intercalate (bridge.slots.map fun slot => integritySlotStr slot.name)

/-- The line of one LBA (lines 724–751). -/
def rootInfo (verbose : Bool) (sysInfo : IntegritySysInfo) (lba : LbaInfo) :
    Except Fault CString :=
  match lba.sysfsRootBridge with
  | none => .error .nullLbaRootBridge
  | some bridge => .ok <|
    padStr (-14) lba.name ++ ' ' :: strOrNull lba.busType ++ '/' :: strOrNull lba.busSpeed ++
      [' '] ++
    (if verbose then
      "lba id = ".toList ++ hexAlt lba.id.toNat ++ " rev=".toList ++ cstr lba.revision ++ [' ']
    else []) ++
    "ropes=".toList ++ decInt lba.ropes.toInt ++ [' '] ++
    (if sysInfo.numCabinets > 1 then
      "cabinet ".toList ++ integrityCabinetToStr lba.archInfo.cabinet ++ [' '] else []) ++
    (if sysInfo.numBays > 1 then
      "bay ".toList ++ integrityBayToStr lba.archInfo.bay ++ [' '] else []) ++
    (if sysInfo.numChassis > 1 then
      "chassis ".toList ++ integrityChassisToStr lba.archInfo.chassis ++ [' '] else []) ++
    (if bridge.slots.isEmpty then [] else "slots ".toList ++ slotNumbers [','] bridge) ++ ['\n']

/-- `show_all_root_info` (lines 716–754): the text printed. -/
def showAllRootInfo (verbose : Bool) (sysInfo : IntegritySysInfo) (lbas : List LbaInfo) :
    Except Fault CString :=
  forDisplayed (fun _ => rootInfo verbose sysInfo) lbas

/-! ## `build_banner` -/

/-- The width of a column: the separator is left out after the last LBA. -/
def colWidth (last : Bool) : ℤ :=
  if last then COLUMN_DATA_WIDTH else COLUMN_DATA_WIDTH + COLUMN_SEP_WIDTH

/-- The separator printed after a column, `"%*s"` of `" "`. -/
def columnSep (last : Bool) : CString := if last then [] else padStr COLUMN_SEP_WIDTH [' ']

/-- A row of the banner: its header and its columns. -/
def bannerRow (header : CString) (text : Bool → LbaInfo → Except Fault CString)
    (lbas : List LbaInfo) : Except Fault CString :=
  (forDisplayed text lbas).map fun columns =>
    padStr (-(COLUMN_HEADER_WIDTH + COLUMN_SEP_WIDTH)) header ++ columns ++ ['\n']

/-- The column of the slots (lines 815–840). -/
def slotsColumn (last : Bool) (lba : LbaInfo) : Except Fault CString :=
  match lba.sysfsRootBridge with
  | none => .error .nullLbaRootBridge
  | some bridge =>
    let numbers := slotNumbers ", ".toList bridge
    .ok <| (if bridge.slots.isEmpty then padStr (-COLUMN_DATA_WIDTH) "n/a".toList
      else numbers ++ padStr (COLUMN_DATA_WIDTH - numbers.length) [' ']) ++ columnSep last

/-- The columns of the other rows (lines 782–785, 793–796, 804–807
    and 848–852). -/
def bridgeColumn (last : Bool) (lba : LbaInfo) : CString := padStr (-colWidth last) lba.name
def typeColumn (last : Bool) (lba : LbaInfo) : CString :=
  padStr (-colWidth last) (strOrNull lba.busType)
def speedColumn (last : Bool) (lba : LbaInfo) : CString :=
  padStr (-colWidth last) (strOrNull lba.busSpeed)
def ropesColumn (last : Bool) (lba : LbaInfo) : CString :=
  padStr (-COLUMN_DATA_WIDTH) (decInt lba.ropes.toInt) ++ columnSep last

/-- The rows of the banner between its two lines. -/
def bannerRows (lbas : List LbaInfo) : Except Fault (List CString) := do
  let bridge ← bannerRow "bridge".toList (fun last lba => .ok (bridgeColumn last lba)) lbas
  let type ← bannerRow "type".toList (fun last lba => .ok (typeColumn last lba)) lbas
  let speed ← bannerRow "speed".toList (fun last lba => .ok (speedColumn last lba)) lbas
  let slots ← bannerRow "slots".toList slotsColumn lbas
  let ropes ← bannerRow "ropes".toList (fun last lba => .ok (ropesColumn last lba)) lbas
  return [bridge, type, speed, slots, ropes]

/-- `build_banner` (lines 756–861): the text in the array returned, or NULL. -/
def buildBanner (malloc : Bool) (numLbas : BitVec 32) (lbas : List LbaInfo) :
    Except Fault (Option CString) :=
  if !malloc then .ok none
  else
    let line := List.replicate (LINE_WIDTH numLbas).toNat '-'
    (bannerRows lbas).map fun rows => some (line ++ ['\n'] ++ rows.flatten ++ line)

/-! ## Root bridges of the displayed LBAs -/

/-- Every displayed LBA has a root bridge. -/
def Bridged (lbas : List LbaInfo) : Prop :=
  ∀ lba ∈ lbas, lba.display ≠ 0 → lba.sysfsRootBridge.isSome

/-- A text that is there exactly for the LBAs with a root bridge. -/
structure NeedsBridge (text : Bool → LbaInfo → Except Fault CString) : Prop where
  ok : ∀ last lba bridge, lba.sysfsRootBridge = some bridge → ∃ t, text last lba = .ok t
  fault : ∀ last lba, lba.sysfsRootBridge = none → text last lba = .error .nullLbaRootBridge

theorem needsBridge_rootInfo (verbose : Bool) (sysInfo : IntegritySysInfo) :
    NeedsBridge fun _ => rootInfo verbose sysInfo where
  ok _ lba bridge h := ⟨_, by rw [rootInfo, h]⟩
  fault _ lba h := by rw [rootInfo, h]

theorem needsBridge_slotsColumn : NeedsBridge slotsColumn where
  ok _ lba bridge h := ⟨_, by rw [slotsColumn, h]⟩
  fault _ lba h := by rw [slotsColumn, h]

/-- A walk over LBAs of which the displayed ones have bridges succeeds. -/
theorem forDisplayed_ok {text : Bool → LbaInfo → Except Fault CString} {lbas : List LbaInfo}
    (h : ∀ lba ∈ lbas, lba.display ≠ 0 → ∀ last, ∃ t, text last lba = .ok t) :
    ∃ t, forDisplayed text lbas = .ok t := by
  induction lbas with
  | nil => exact ⟨[], rfl⟩
  | cons lba lbas ih =>
    obtain ⟨ts, hts⟩ := ih fun x hx => h x (List.mem_cons_of_mem _ hx)
    rw [forDisplayed, hts]
    by_cases hd : lba.display ≠ 0
    · obtain ⟨t, ht⟩ := h lba (by simp) hd lbas.isEmpty
      exact ⟨t ++ ts, by simp only [if_pos hd, ht]⟩
    · exact ⟨ts, by simp only [if_neg hd, List.nil_append]⟩

theorem NeedsBridge.forDisplayed_ok {text : Bool → LbaInfo → Except Fault CString}
    (htext : NeedsBridge text) {lbas : List LbaInfo} (h : Bridged lbas) :
    ∃ t, forDisplayed text lbas = .ok t := by
  refine Tool.forDisplayed_ok fun lba hmem hd last => ?_
  obtain ⟨bridge, hb⟩ := Option.isSome_iff_exists.mp (h lba hmem hd)
  exact htext.ok last lba bridge hb

/-- A walk over LBAs of which a displayed one has no bridge fails. -/
theorem NeedsBridge.forDisplayed_error {text : Bool → LbaInfo → Except Fault CString}
    (htext : NeedsBridge text) {lbas : List LbaInfo} (h : ¬ Bridged lbas) :
    forDisplayed text lbas = .error .nullLbaRootBridge := by
  induction lbas with
  | nil => exact absurd (fun _ hmem => absurd hmem List.not_mem_nil) h
  | cons lba lbas ih =>
    rw [forDisplayed]
    obtain hb | ⟨bridge, hb⟩ := Option.eq_none_or_eq_some lba.sysfsRootBridge
    · by_cases hd : lba.display ≠ 0
      · rw [if_pos hd, htext.fault _ lba hb]
      · have hrest : ¬ Bridged lbas := by
          intro hrest
          refine h fun x hx hxd => ?_
          rcases List.mem_cons.mp hx with rfl | hx
          · exact absurd hxd hd
          · exact hrest x hx hxd
        simp only [if_neg hd, ih hrest]
    · obtain ⟨t, ht⟩ := htext.ok lbas.isEmpty lba bridge hb
      have hrest : ¬ Bridged lbas := by
        intro hrest
        refine h fun x hx hxd => ?_
        rcases List.mem_cons.mp hx with rfl | hx
        · rw [hb, Option.isSome_some]
        · exact hrest x hx hxd
      rw [ih hrest, ht]
      split_ifs <;> rfl

theorem showAllRootInfo_ok {lbas : List LbaInfo} (h : Bridged lbas) (verbose : Bool)
    (sysInfo : IntegritySysInfo) : ∃ t, showAllRootInfo verbose sysInfo lbas = .ok t :=
  (needsBridge_rootInfo verbose sysInfo).forDisplayed_ok h

theorem showAllRootInfo_error {lbas : List LbaInfo} (h : ¬ Bridged lbas) (verbose : Bool)
    (sysInfo : IntegritySysInfo) :
    showAllRootInfo verbose sysInfo lbas = .error .nullLbaRootBridge :=
  (needsBridge_rootInfo verbose sysInfo).forDisplayed_error h

/-- A row whose texts do not fail is there. -/
theorem bannerRow_ok (header : CString) (text : Bool → LbaInfo → CString) (lbas : List LbaInfo) :
    ∃ t, bannerRow header (fun last lba => .ok (text last lba)) lbas = .ok t := by
  have hok : ∃ t, forDisplayed (fun last lba => .ok (text last lba)) lbas = .ok t :=
    forDisplayed_ok fun lba _ _ last => ⟨_, rfl⟩
  obtain ⟨t, ht⟩ := hok
  exact ⟨_, by rw [bannerRow, ht]; rfl⟩

theorem bannerRows_ok {lbas : List LbaInfo} (h : Bridged lbas) :
    ∃ rows, bannerRows lbas = .ok rows := by
  obtain ⟨b, hb⟩ := bannerRow_ok "bridge".toList bridgeColumn lbas
  obtain ⟨t, ht⟩ := bannerRow_ok "type".toList typeColumn lbas
  obtain ⟨s, hs⟩ := bannerRow_ok "speed".toList speedColumn lbas
  obtain ⟨c, hc⟩ := needsBridge_slotsColumn.forDisplayed_ok h
  obtain ⟨r, hr⟩ := bannerRow_ok "ropes".toList ropesColumn lbas
  rw [bannerRows, hb, ht, hs, hr, bannerRow, hc]
  exact ⟨_, rfl⟩

theorem bannerRows_error {lbas : List LbaInfo} (h : ¬ Bridged lbas) :
    bannerRows lbas = .error .nullLbaRootBridge := by
  obtain ⟨b, hb⟩ := bannerRow_ok "bridge".toList bridgeColumn lbas
  obtain ⟨t, ht⟩ := bannerRow_ok "type".toList typeColumn lbas
  obtain ⟨s, hs⟩ := bannerRow_ok "speed".toList speedColumn lbas
  have hc : bannerRow "slots".toList slotsColumn lbas = .error .nullLbaRootBridge := by
    rw [bannerRow, needsBridge_slotsColumn.forDisplayed_error h]
    rfl
  rw [bannerRows, hb, ht, hs, hc]
  rfl

theorem buildBanner_ok {lbas : List LbaInfo} (h : Bridged lbas) (numLbas : BitVec 32) :
    ∃ t, buildBanner true numLbas lbas = .ok (some t) := by
  obtain ⟨rows, hrows⟩ := bannerRows_ok h
  exact ⟨_, by rw [buildBanner, if_neg (by decide), hrows]; rfl⟩

theorem buildBanner_error {lbas : List LbaInfo} (h : ¬ Bridged lbas) (numLbas : BitVec 32) :
    buildBanner true numLbas lbas = .error .nullLbaRootBridge := by
  rw [buildBanner, if_neg (by decide), bannerRows_error h]
  rfl

end Pcitop.Tool
