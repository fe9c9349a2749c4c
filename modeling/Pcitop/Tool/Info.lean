import Pcitop.Tool.Banner
import Pcitop.Tool.CommandLine
import Pcitop.Tool.Locations
import Pcitop.Tool.NameToPciId

/-!
# What `--info` prints

`show_all_root_info` prints a line for every displayed LBA. Of its location it tells the
parts in which the slots of the machine differ. The texts of a line are also what the
filters take: `-C`, `-B`, `-A` and `-S` a number as it is printed, `-P` a name.

* `main_info_iff`: the runs with `--info` that print, and their lines, from the slots
  behind the LBAs.
* `filters_shown`: texts of the lines, given back as filters, select the lines of the LBAs
  that go with them, and change nothing in these.
-/

namespace Pcitop.Tool

open Pcitop.Common

/-! ## The lines -/

/-- The text of a location: that of the last slot. -/
def LbaInfo.locationText (lba : LbaInfo) (loc : Location) : CString :=
  integrityToStr ((lba.slots.map loc.ofSlot).getLast?.getD 0)

/-- The texts of the slots. -/
def LbaInfo.slotTexts (lba : LbaInfo) : List CString :=
  lba.slots.map fun slot => integritySlotStr slot.name

/-- The word before a location. -/
def Location.word : Location → CString
  | .cabinet => "cabinet ".toList
  | .bay => "bay ".toList
  | .chassis => "chassis ".toList

/-- A part of the location, if the slots differ in it. -/
def locationField (lbas : List LbaInfo) (lba : LbaInfo) (loc : Location) : CString :=
  if Several lbas loc then loc.word ++ lba.locationText loc ++ [' '] else []

/-- The line of an LBA among others. -/
def infoLine (verbose : Bool) (lbas : List LbaInfo) (lba : LbaInfo) : CString :=
  padStr (-14) lba.name ++ ' ' :: strOrNull lba.busType ++ '/' :: strOrNull lba.busSpeed ++
    [' '] ++
  (if verbose then
    "lba id = ".toList ++ hexAlt lba.id.toNat ++ " rev=".toList ++ cstr lba.revision ++ [' ']
  else []) ++
  "ropes=".toList ++ decInt lba.ropes.toInt ++ [' '] ++
  locationField lbas lba .cabinet ++ locationField lbas lba .bay ++
  locationField lbas lba .chassis ++
  (if lba.slots.isEmpty then [] else "slots ".toList ++ [','].intercalate lba.slotTexts) ++ ['\n']

/-- The number of an LBA, as it is printed. -/
theorem LbaInfo.AtLastSlot.text {lba : LbaInfo} (h : lba.AtLastSlot) (loc : Location) :
    integrityToStr (loc.number lba.archInfo) = lba.locationText loc := by
  rw [h loc]
  rfl

theorem locationField_eq {lbas : List LbaInfo} {sysInfo : IntegritySysInfo} {lba : LbaInfo}
    (hlast : lba.AtLastSlot) {loc : Location} (hmany : 1 < loc.num sysInfo ↔ Several lbas loc) :
    (if 1 < loc.num sysInfo then loc.word ++ integrityToStr (loc.number lba.archInfo) ++ [' ']
      else []) = locationField lbas lba loc := by
  rw [hlast.text]
  exact if_congr hmany rfl rfl

theorem rootInfo_eq {lbas : List LbaInfo} {sysInfo : IntegritySysInfo} {lba : LbaInfo}
    (hlast : lba.AtLastSlot) (hmany : ∀ loc : Location, 1 < loc.num sysInfo ↔ Several lbas loc)
    (hbridge : lba.sysfsRootBridge.isSome) (verbose : Bool) :
    rootInfo verbose sysInfo lba = .ok (infoLine verbose lbas lba) := by
  obtain ⟨bridge, hb⟩ := Option.isSome_iff_exists.mp hbridge
  have hslots : lba.slots = bridge.slots := by rw [LbaInfo.slots, hb]
  rw [infoLine, ← locationField_eq hlast (hmany .cabinet), ← locationField_eq hlast (hmany .bay),
    ← locationField_eq hlast (hmany .chassis), LbaInfo.slotTexts, hslots]
  simp only [rootInfo, hb]
  rfl

theorem forDisplayed_eq {text : LbaInfo → Except Fault CString} {f : LbaInfo → CString}
    {lbas : List LbaInfo} (h : ∀ lba ∈ lbas, lba.display ≠ 0 → text lba = .ok (f lba)) :
    forDisplayed (fun _ => text) lbas =
      .ok ((lbas.filter fun lba => lba.display ≠ 0).flatMap f) := by
  induction lbas with
  | nil => rfl
  | cons lba lbas ih =>
    have hrest := ih fun x hx => h x (List.mem_cons_of_mem _ hx)
    rw [forDisplayed, hrest]
    by_cases hd : lba.display ≠ 0
    · rw [if_pos hd, h lba List.mem_cons_self hd, List.filter_cons_of_pos (by simpa using hd),
        List.flatMap_cons]
    · rw [if_neg hd, List.filter_cons_of_neg (by simpa using hd)]
      rfl

theorem main_eq_info_iff {opts : Options} {m : Machine} (hmem : m.Counts)
    (hinfo : opts.optShowInfo = true) (outcome : Outcome) :
    main opts m = .ok outcome ↔ ∃ l, listLbas opts m = .ok l ∧ Bridged l.lbas ∧
      outcome = .info ((l.lbas.filter fun lba => lba.display ≠ 0).flatMap
        (infoLine opts.optVerbose l.lbas)) := by
  have hshow : ∀ l, listLbas opts m = .ok l → Bridged l.lbas →
      showAllRootInfo opts.optVerbose l.sysInfo l.lbas =
        .ok ((l.lbas.filter fun lba => lba.display ≠ 0).flatMap
          (infoLine opts.optVerbose l.lbas)) := by
    intro l hl hb
    have hlast := (located_of_listLbas hmem hl).last
    exact forDisplayed_eq fun lba hlba hd =>
      rootInfo_eq (hlast lba hlba) (one_lt_num_iff hmem hl) (hb lba hlba hd) _
  unfold main
  cases hl : listLbas opts m with
  | error fault => simp
  | ok l =>
    simp only [hinfo, if_true, Except.ok.injEq, exists_eq_left']
    by_cases hb : Bridged l.lbas
    · rw [hshow l hl hb]
      simp only [hb, true_and]
      exact ⟨fun h => (Except.ok.inj h).symm, fun h => congrArg Except.ok h.symm⟩
    · rw [showAllRootInfo_error hb]
      simp [hb, Except.map]

/-- The tree of root bridges and the list of LBAs are made. -/
structure Machine.Builds (m : Machine) (tree : PciTree) (st : LbaState) : Prop where
  tree_eq : m.pciTree = .ok tree
  init_eq : initLbas m.pageSize tree.rootBridgeList m.hplba ⟨[], 0, integrityInitSysInfo⟩ =
    .ok (0, st)

/-- **The text of a run with `--info`.** It prints when its lists are made, the filter does
    not get to the slots of an LBA without a root bridge, and the LBAs displayed have one. -/
theorem main_info_iff {opts : Options} {m : Machine} (hmem : m.Counts)
    (hinfo : opts.optShowInfo = true) (outcome : Outcome) :
    main opts m = .ok outcome ↔ ∃ tree st, m.Builds tree st ∧ ¬ MissesBridge opts m st ∧
      Bridged (opts.listing m st).lbas ∧
      outcome = .info (((opts.listing m st).lbas.filter fun lba => lba.display ≠ 0).flatMap
        (infoLine opts.optVerbose (opts.listing m st).lbas)) := by
  rw [main_eq_info_iff hmem hinfo]
  constructor
  · rintro ⟨l, hl, hb, hout⟩
    obtain ⟨tree, st, htree, hinit, hmiss, rfl⟩ := listLbas_eq_ok_iff.mp hl
    exact ⟨tree, st, ⟨htree, hinit⟩, hmiss, hb, hout⟩
  · rintro ⟨tree, st, hbuilds, hmiss, hb, hout⟩
    exact ⟨_, listLbas_eq_ok_iff.mpr ⟨tree, st, hbuilds.tree_eq, hbuilds.init_eq, hmiss, rfl⟩,
      hb, hout⟩

/-- With root bridges throughout, nothing stands in the way. -/
theorem passes_of_bridged (opts : Options) (m : Machine) {st : LbaState}
    (h : ∀ lba ∈ st.hostLbaList, lba.sysfsRootBridge.isSome) :
    ¬ MissesBridge opts m st ∧ Bridged (opts.listing m st).lbas := by
  constructor
  · rintro ⟨j, lba, hj, -, hb⟩
    have hsome := h lba (List.mem_of_getElem? hj)
    rw [hb] at hsome
    exact Bool.false_ne_true hsome
  · intro lba hlba _
    obtain ⟨j, lba, hj, rfl⟩ := mem_markedList hlba
    exact h lba (List.mem_of_getElem? hj)

/-- An entry of `/sys/class/hplba` with these attributes. -/
def infoEntry (dName : CString) : LbaEntry where
  dName := dName
  memory := ⟨true, true, true, fun _ => ⟨true, true, true⟩⟩
  pciId := ⟨0, 0, 0, 0⟩
  busMode := .data "PCI\n".toList
  busSpeed := .data "66 MHz\n".toList
  functionId := .data "0x122e\n".toList
  revision := .data "3.1\n".toList
  ropes := .data "1\n".toList

/-- An entry of `/sys/class/pci_bus` for the bus of a root bridge. -/
def infoBus (name : CString) : BusEntry :=
  ⟨name, false, none, some ("../../../devices/pci".toList ++ name)⟩

/-- Three root bridges, of which the first has two LBAs and a slot in chassis 1, the second
    two slots in chassis 2, and the third none. -/
def infoMachine : Machine :=
  { oneLba [] ⟨fun _ => true, fun _ _ => ⟨true, .noOpen⟩⟩ with
    dirs := ⟨some ["pci0000:00".toList, "pci0000:10".toList, "pci0000:20".toList],
      some (["0000:00".toList, "0000:10".toList, "0000:20".toList].map infoBus),
      some [⟨"103".toList, .data "0000:00:01\n".toList⟩,
        ⟨"204".toList, .data "0000:10:01\n".toList⟩, ⟨"205".toList, .data "0000:10:02\n".toList⟩]⟩
    hplba := some (["0000:00:00.0".toList, "0000:00:01.0".toList, "0000:10:00.0".toList,
      "0000:20:00.0".toList].map infoEntry) }

theorem counts_infoMachine : infoMachine.Counts := by
  intro e he i
  obtain ⟨dName, -, rfl⟩ := List.mem_map.mp he
  rfl

/-- With `-i -S 4` there is one line, which tells the chassis: the slot that is not displayed
    has another. -/
theorem main_info_iff_infoMachine :
    main { noFilter with optShowInfo := true, optMatchSlot := some "4".toList } infoMachine =
      .ok (.info "0000:10:00.0   PCI/66 MHz ropes=1 chassis 2 slots 4,5\n".toList) := by
  have hbuilds : ∃ tree st, infoMachine.Builds tree st ∧
      (∀ lba ∈ st.hostLbaList, lba.sysfsRootBridge.isSome) ∧
      let opts : Options := { noFilter with optShowInfo := true, optMatchSlot := some "4".toList }
      ((opts.listing infoMachine st).lbas.filter fun lba => lba.display ≠ 0).flatMap
          (infoLine opts.optVerbose (opts.listing infoMachine st).lbas) =
        "0000:10:00.0   PCI/66 MHz ropes=1 chassis 2 slots 4,5\n".toList := by
    refine ⟨_, _, ⟨rfl, rfl⟩, ?_, rfl⟩
    rw [← List.all_eq_true]
    rfl
  obtain ⟨tree, st, hbuilds, hall, htext⟩ := hbuilds
  obtain ⟨hmiss, hbridged⟩ := passes_of_bridged _ infoMachine hall
  exact (main_info_iff counts_infoMachine rfl _).mpr
    ⟨tree, st, hbuilds, hmiss, hbridged, congrArg Outcome.info htext.symm⟩

/-! ## Numbers of slots -/

/-- A digit of a `char` is an `int`. -/
theorem exists_int_of_mem {n : ℤ} (h : -176 ≤ n ∧ n ≤ 79) : ∃ v : BitVec 32, n = v.toInt := by
  refine ⟨BitVec.ofInt 32 n, ?_⟩
  rw [BitVec.toInt_ofInt]
  exact (Int.bmod_eq_of_le (by omega) (by omega)).symm

/-- The numbers of a slot are `int`s. -/
theorem exists_int_parseSlot (slotName : CString) : ∃ cabinet chassis bay slot : BitVec 32,
    integrityParseSlot slotName =
      ⟨cabinet.toInt, chassis.toInt, bay.toInt, slot.toInt⟩ := by
  obtain ⟨hcabinet, hchassis, hbay, slot, hslot⟩ := parseSlot_numbers slotName
  obtain ⟨cabinet, hcabinet⟩ := exists_int_of_mem hcabinet
  obtain ⟨chassis, hchassis⟩ := exists_int_of_mem hchassis
  obtain ⟨bay, hbay⟩ := exists_int_of_mem hbay
  refine ⟨cabinet, chassis, bay, slot, ?_⟩
  rw [← hcabinet, ← hchassis, ← hbay, ← hslot]

/-! ## Texts given back -/

/-- The text `n/a` apart, a number is printed as itself and read back. -/
theorem integrityMatch_text {v v' : BitVec 32} (h : integrityToStr v.toInt ≠ "n/a".toList) :
    integrityMatch (integrityToStr v.toInt) v'.toInt = 0 ↔
      integrityToStr v.toInt = integrityToStr v'.toInt := by
  have hread : ∀ v : BitVec 32, atoi (decInt v.toInt) = v.toInt := fun v =>
    atoi_decInt (cstr_eq_self (noNul_decInt _)) (BitVec.le_toInt v) BitVec.toInt_lt
  have hnone : v.toInt ≠ INTEGRITY_NONE := fun hv => h (if_pos hv)
  have htext : integrityToStr v.toInt = decInt v.toInt := if_neg hnone
  rw [integrityMatch_eq_zero_iff, htext, hread]
  constructor
  · intro hv
    rw [← hv, htext]
  · intro hv
    by_cases hnone' : v'.toInt = INTEGRITY_NONE
    · exact absurd (htext.trans (hv.trans (if_pos hnone'))) h
    · rw [← hread v, hv, show integrityToStr v'.toInt = decInt v'.toInt from if_neg hnone', hread]

theorem exists_int_location (lba : LbaInfo) (loc : Location) :
    ∃ v : BitVec 32, (lba.slots.map loc.ofSlot).getLast?.getD 0 = v.toInt := by
  cases hlast : lba.slots.getLast? with
  | none => exact ⟨0, by rw [List.getLast?_map, hlast]; rfl⟩
  | some slot =>
    obtain ⟨cabinet, chassis, bay, _, hparse⟩ := exists_int_parseSlot slot.name
    rw [List.getLast?_map, hlast]
    simp only [Option.map_some, Option.getD_some, Location.ofSlot, hparse]
    cases loc with
    | cabinet => exact ⟨cabinet, rfl⟩
    | bay => exact ⟨bay, rfl⟩
    | chassis => exact ⟨chassis, rfl⟩

/-- The text of a location matches the LBAs that have it. -/
theorem integrityMatch_locationText {lba lba' : LbaInfo} {loc : Location}
    (h : lba.locationText loc ≠ "n/a".toList) (hlast : lba'.AtLastSlot) :
    integrityMatch (lba.locationText loc) (loc.number lba'.archInfo) = 0 ↔
      lba.locationText loc = lba'.locationText loc := by
  obtain ⟨v, hv⟩ := exists_int_location lba loc
  obtain ⟨v', hv'⟩ := exists_int_location lba' loc
  unfold LbaInfo.locationText at h ⊢
  rw [hv] at h ⊢
  rw [hlast loc, hv']
  exact integrityMatch_text h

/-- So does the text of a slot. -/
theorem hasSlot_slotText {lba : LbaInfo} {text : CString} (h : text ∈ lba.slotTexts)
    (bridge : SysfsRootBridge) :
    hasSlot bridge text = true ↔
      text ∈ bridge.slots.map fun slot => integritySlotStr slot.name := by
  have hwhole : ∀ name, (cstr (integritySlotStr name)).take (SLOT_NAME_LEN - 1) =
      integritySlotStr name := by
    intro name
    obtain ⟨_, _, _, v, hparse⟩ := exists_int_parseSlot name
    have hlen := length_decInt_le v
    rw [integritySlotStr, hparse, cstr_eq_self (noNul_decInt _)]
    exact List.take_of_length_le (hlen.trans (by decide))
  obtain ⟨slot, -, rfl⟩ := List.mem_map.mp h
  simp only [hasSlot, List.any_eq_true, strneq_iff, hwhole, List.mem_map]
  exact exists_congr fun x => and_congr_right fun _ => eq_comm

theorem noNul_of_lspciAddress {s : CString} {p : ℕ × ℕ} (h : lspciAddress s = some p) :
    NoNul s := by
  have hdigit : ∀ {c : Char}, isDigitOf 16 c = true → '\x00' ≠ c := fun hc =>
    (ne_of_isDigitOf (by norm_num) hc rfl).symm
  unfold lspciAddress at h
  split at h
  · split_ifs at h with hdigits
    simp only [List.all_cons, Bool.and_eq_true, List.all_nil] at hdigits
    obtain ⟨h1, h2, h3, h4, h5, -⟩ := hdigits
    simp [NoNul, hdigit h1, hdigit h2, hdigit h3, hdigit h4, hdigit h5, nul]
  · split_ifs at h with hdigits
    simp only [List.all_cons, Bool.and_eq_true, List.all_nil] at hdigits
    obtain ⟨h1, h2, h3, h4, h5, h6, h7, h8, h9, -⟩ := hdigits
    simp [NoNul, hdigit h1, hdigit h2, hdigit h3, hdigit h4, hdigit h5, hdigit h6, hdigit h7,
      hdigit h8, hdigit h9, nul]
  · exact absurd h (by simp)

/-- The criterion that a setting supplies. -/
def Setting.criterion? : Setting → Option Criterion
  | .cabinet s => some (.cabinet s)
  | .bay s => some (.bay s)
  | .chassis s => some (.chassis s)
  | .slot s => some (.slot s)
  | .lspci s => some (.lspci s)
  | _ => none

/-- The text of a setting is one for the line of an LBA: that of a location, told or not, or
    of a slot, or its name, if that is an address. -/
def Setting.shownBy (lba : LbaInfo) : Setting → Bool
  | .cabinet s => s = lba.locationText .cabinet
  | .bay s => s = lba.locationText .bay
  | .chassis s => s = lba.locationText .chassis
  | .slot s => s ∈ lba.slotTexts
  | .lspci s => s = lba.name && (lspciAddress s).isSome
  | _ => false

/-- An LBA goes with a text: it has the text in its line, or the domain and bus number of an
    address. -/
def Setting.fits (lba : LbaInfo) : Setting → Bool
  | .lspci s =>
    lspciAddress s = some (lba.pciId.pciDomain.toNat % 2 ^ 16, lba.pciId.pciBusid.toNat)
  | s => s.shownBy lba

theorem length_le_of_lspciAddress {s : CString} (h : (lspciAddress s).isSome) : s.length ≤ 12 := by
  unfold lspciAddress at h
  split at h
  · simp
  · simp
  · exact absurd h (by simp)

/-- An LBA goes with the texts of its line. -/
theorem fits_of_shownBy {e : LbaEntry} {lba : LbaInfo} (h : Initialized e lba) {s : Setting}
    (hs : s.shownBy lba = true) : s.fits lba = true := by
  cases s with
  | lspci text =>
    rw [Setting.shownBy, Bool.and_eq_true, decide_eq_true_iff] at hs
    obtain ⟨rfl, haddress⟩ := hs
    have hlen := length_le_of_lspciAddress haddress
    have hname : lba.name = cstr e.dName := by
      rw [h.name, LbaEntry.lbaName, List.length_take] at hlen
      rw [h.name, LbaEntry.lbaName,
        List.take_of_length_le (by unfold PATH_MAX at hlen ⊢; omega)]
    rw [hname, lspciAddress_eq, Option.isSome_map] at haddress
    obtain ⟨id, hid⟩ := Option.isSome_iff_exists.mp haddress
    have hlspci : lspciAddress (cstr e.dName) =
        some (id.pciDomain.toNat, id.pciBusid.toNat) := by
      rw [lspciAddress_eq, hid, Option.map_some]
    have hdomain : id.pciDomain.toNat < 2 ^ 16 := (leadingFields_of_address hlspci id).2.1
    rw [Setting.fits, decide_eq_true_iff, hname, h.pciId, nameToPciId_of_address hid,
      Nat.mod_eq_of_lt hdomain, hlspci]
  | _ => exact hs

/-- A text of a line, given back, matches the LBAs that go with it. -/
theorem matches_eq_fits {s : Setting} {c : Criterion} (hc : s.criterion? = some c)
    {lba lba' : LbaInfo} (hs : s.shownBy lba = true) (hn : s.text? ≠ some "n/a".toList)
    (hlast : lba'.AtLastSlot) (hbridge : lba'.sysfsRootBridge.isSome) (locals : PciId) :
    c.matches locals lba' = s.fits lba' := by
  have hlocation : ∀ {text : CString} {loc : Location}, text = lba.locationText loc →
      text ≠ "n/a".toList → (integrityMatch text (loc.number lba'.archInfo) == 0) =
        decide (text = lba'.locationText loc) := by
    intro text loc htext hne
    subst htext
    rw [Bool.eq_iff_iff, beq_iff_eq, decide_eq_true_iff]
    exact integrityMatch_locationText hne hlast
  have hne : ∀ {text : CString}, s.text? = some text → text ≠ "n/a".toList := by
    rintro text htext rfl
    exact hn htext
  cases s with
  | cabinet text =>
    obtain rfl := Option.some.inj hc
    exact hlocation (of_decide_eq_true hs) (hne rfl)
  | bay text =>
    obtain rfl := Option.some.inj hc
    exact hlocation (of_decide_eq_true hs) (hne rfl)
  | chassis text =>
    obtain rfl := Option.some.inj hc
    exact hlocation (of_decide_eq_true hs) (hne rfl)
  | slot text =>
    obtain rfl := Option.some.inj hc
    obtain ⟨bridge, hb⟩ := Option.isSome_iff_exists.mp hbridge
    simp only [Criterion.matches, hb, Option.any_some, Setting.fits, Setting.shownBy]
    rw [Bool.eq_iff_iff, hasSlot_slotText (of_decide_eq_true hs), decide_eq_true_iff,
      LbaInfo.slotTexts, LbaInfo.slots, hb]
  | lspci text =>
    obtain rfl := Option.some.inj hc
    have haddress : (lspciAddress text).isSome := by
      rw [Setting.shownBy, Bool.and_eq_true] at hs
      exact hs.2
    obtain ⟨p, hp⟩ := Option.isSome_iff_exists.mp haddress
    have htext : cstr text = text := cstr_eq_self (noNul_of_lspciAddress hp)
    have hmatch : MatchesAddress locals text (lba'.pciId.pciDomain.setWidth 16)
        lba'.pciId.pciBusid :=
      matchesAddress_of_address (by rwa [htext]) _ _ _
    rw [MatchesAddress, htext, BitVec.toNat_setWidth] at hmatch
    rw [Bool.eq_iff_iff, Setting.fits, decide_eq_true_iff, Criterion.matches, beq_iff_eq]
    exact hmatch
  | _ => exact absurd hc (by simp [Setting.criterion?])

/-! ## The options -/

/-- Settings of one kind are the same. -/
def OneEach (ss : List Setting) : Prop := ∀ s ∈ ss, ∀ s' ∈ ss, s.letter = s'.letter → s = s'

theorem lastOf_eq_some_iff {f : Setting → Option CString} {g : CString → Setting}
    {ss : List Setting} (hone : OneEach ss) (hf : ∀ s ∈ ss, ∀ a, f s = some a ↔ s = g a)
    (hg : ∀ a b, (g a).letter = (g b).letter) (a : CString) :
    lastOf f ss = some a ↔ g a ∈ ss := by
  constructor
  · intro h
    obtain ⟨s, hs, hsa⟩ := mem_of_lastOf h
    rwa [← (hf s hs a).mp hsa]
  · intro h
    cases hlast : lastOf f ss with
    | none =>
      have hnil : ss.filterMap f = [] := List.getLast?_eq_none_iff.mp hlast
      have hmem : a ∈ ss.filterMap f := List.mem_filterMap.mpr ⟨g a, h, (hf _ h a).mpr rfl⟩
      rw [hnil] at hmem
      exact absurd hmem List.not_mem_nil
    | some b =>
      obtain ⟨s, hs, hsb⟩ := mem_of_lastOf hlast
      rw [(hf s hs b).mp hsb] at hs
      have hga := hone _ hs _ h (hg b a)
      rw [← (hf _ h b).mpr hga.symm, (hf _ h a).mpr rfl]

/-- The settings for the lines, a mode and criteria. -/
def infoSettings (and : Bool) (ss : List Setting) : List Setting :=
  .info :: (if and then .and else .or) :: ss

section

variable {sys : SysDevices} {and : Bool} {ss : List Setting}

theorem lastOf_infoSettings {β : Type} (f : Setting → Option β) (hinfo : f .info = none)
    (hand : f .and = none) (hor : f .or = none) :
    lastOf f (infoSettings and ss) = lastOf f ss := by
  rw [infoSettings, lastOf_cons, lastOf_cons, hinfo, Option.or_none]
  cases and with
  | false => rw [if_neg Bool.false_ne_true, hor, Option.or_none]
  | true => rw [if_pos rfl, hand, Option.or_none]

theorem lastOf_eq_none {β : Type} {f : Setting → Option β} (h : ∀ s ∈ ss, f s = none) :
    lastOf f ss = none := by
  rw [lastOf, List.filterMap_eq_nil_iff.mpr h]
  rfl

/-- The criteria of the options are those of the settings. -/
theorem mem_criteria_settled (hone : OneEach ss) (hss : ∀ s ∈ ss, s.criterion?.isSome)
    (c : Criterion) : c ∈ (settled sys (infoSettings and ss)).criteria ↔
      ∃ s ∈ ss, s.criterion? = some c := by
  have hnone : ∀ {f : Setting → Option ℤ}, f .info = none → f .and = none → f .or = none →
      (∀ s, s.criterion?.isSome → f s = none) → lastOf f (infoSettings and ss) = none :=
    fun hinfo hand hor h =>
      (lastOf_infoSettings _ hinfo hand hor).trans (lastOf_eq_none fun s hs => h s (hss s hs))
  have hsome : ∀ {f : Setting → Option CString} {g : CString → Setting}, f .info = none →
      f .and = none → f .or = none →
      (∀ s, s.criterion?.isSome → ∀ a, f s = some a ↔ s = g a) →
      (∀ a b, (g a).letter = (g b).letter) → ∀ a,
        lastOf f (infoSettings and ss) = some a ↔ g a ∈ ss := by
    intro f g hinfo hand hor hf hg a
    rw [lastOf_infoSettings f hinfo hand hor]
    exact lastOf_eq_some_iff hone (fun s hs => hf s (hss s hs)) hg a
  have hdomain : lastOf Setting.domain? (infoSettings and ss) = none :=
    hnone rfl rfl rfl fun s hs => by
      cases s <;> first | rfl | exact absurd hs Bool.false_ne_true
  have hbus : lastOf Setting.bus? (infoSettings and ss) = none :=
    hnone rfl rfl rfl fun s hs => by
      cases s <;> first | rfl | exact absurd hs Bool.false_ne_true
  have hlspci : ∀ a, lastOf (Setting.lspci? sys) (infoSettings and ss) = some a ↔
      Setting.lspci a ∈ ss := by
    refine hsome rfl rfl rfl (fun s hs a => ?_) fun _ _ => rfl
    cases s <;> first | exact absurd hs Bool.false_ne_true | simp [Setting.lspci?]
  have hcabinet : ∀ a, lastOf Setting.cabinet? (infoSettings and ss) = some a ↔
      Setting.cabinet a ∈ ss := by
    refine hsome rfl rfl rfl (fun s _ a => ?_) fun _ _ => rfl
    cases s <;> simp [Setting.cabinet?]
  have hbay : ∀ a, lastOf Setting.bay? (infoSettings and ss) = some a ↔ Setting.bay a ∈ ss := by
    refine hsome rfl rfl rfl (fun s _ a => ?_) fun _ _ => rfl
    cases s <;> simp [Setting.bay?]
  have hchassis : ∀ a, lastOf Setting.chassis? (infoSettings and ss) = some a ↔
      Setting.chassis a ∈ ss := by
    refine hsome rfl rfl rfl (fun s _ a => ?_) fun _ _ => rfl
    cases s <;> simp [Setting.chassis?]
  have hslot : ∀ a, lastOf Setting.slot? (infoSettings and ss) = some a ↔
      Setting.slot a ∈ ss := by
    refine hsome rfl rfl rfl (fun s _ a => ?_) fun _ _ => rfl
    cases s <;> simp [Setting.slot?]
  simp only [settled, Options.criteria, Options.plainCriteria, hdomain, hbus, Option.getD_none,
    List.mem_append, List.mem_map, Option.mem_toList, hlspci, hcabinet, hbay, hchassis, hslot]
  constructor
  · rintro ((((((h | h) | ⟨a, ha, rfl⟩) | ⟨a, ha, rfl⟩) | ⟨a, ha, rfl⟩) | ⟨a, ha, rfl⟩) |
      ⟨a, ha, rfl⟩)
    · exact absurd h (by simp)
    · exact absurd h (by simp)
    · exact ⟨_, ha, rfl⟩
    · exact ⟨_, ha, rfl⟩
    · exact ⟨_, ha, rfl⟩
    · exact ⟨_, ha, rfl⟩
    · exact ⟨_, ha, rfl⟩
  · rintro ⟨s, hs, hc⟩
    cases s with
    | lspci a => exact .inl (.inl (.inl (.inl (.inr ⟨a, hs, Option.some.inj hc⟩))))
    | cabinet a => exact .inl (.inl (.inl (.inr ⟨a, hs, Option.some.inj hc⟩)))
    | bay a => exact .inl (.inl (.inr ⟨a, hs, Option.some.inj hc⟩))
    | chassis a => exact .inl (.inr ⟨a, hs, Option.some.inj hc⟩)
    | slot a => exact .inr ⟨a, hs, Option.some.inj hc⟩
    | _ => exact absurd hc (by simp [Setting.criterion?])

/-- Given back, the texts select the LBAs that go with all of them, or with one. -/
theorem selects_settled (hone : OneEach ss) {lbas : List LbaInfo}
    (hshown : ∀ s ∈ ss, s.text? ≠ some "n/a".toList ∧ ∃ lba ∈ lbas, s.shownBy lba = true)
    {lba : LbaInfo} (hlast : lba.AtLastSlot) (hbridge : lba.sysfsRootBridge.isSome)
    (locals : PciId) : (settled sys (infoSettings and ss)).selects locals lba =
      if and then ss.all (·.fits lba) else ss.any (·.fits lba) := by
  have hss : ∀ s ∈ ss, s.criterion?.isSome := by
    intro s hs
    obtain ⟨-, x, -, hx⟩ := hshown s hs
    cases s <;> first | rfl | exact absurd hx Bool.false_ne_true
  have hmatch : ∀ s ∈ ss, ∀ c, s.criterion? = some c → c.matches locals lba = s.fits lba := by
    intro s hs c hc
    obtain ⟨hn, x, -, hx⟩ := hshown s hs
    exact matches_eq_fits hc hx hn hlast hbridge locals
  have hmode : (settled sys (infoSettings and ss)).optMatchAnd = and := by
    have hnone : lastOf Setting.and? ss = none := by
      refine lastOf_eq_none fun s hs => ?_
      have := hss s hs
      cases s <;> first | rfl | exact absurd this Bool.false_ne_true
    simp only [settled, infoSettings, lastOf_cons, hnone]
    cases and <;> rfl
  unfold Options.selects
  rw [hmode]
  cases and with
  | true =>
    rw [if_pos rfl, if_pos rfl, Bool.eq_iff_iff, List.all_eq_true, List.all_eq_true]
    constructor
    · intro h s hs
      obtain ⟨c, hc⟩ := Option.isSome_iff_exists.mp (hss s hs)
      rw [← hmatch s hs c hc]
      exact h c ((mem_criteria_settled hone hss c).mpr ⟨s, hs, hc⟩)
    · intro h c hmem
      obtain ⟨s, hs, hc⟩ := (mem_criteria_settled hone hss c).mp hmem
      rw [hmatch s hs c hc]
      exact h s hs
  | false =>
    rw [if_neg Bool.false_ne_true, if_neg Bool.false_ne_true, Bool.eq_iff_iff, List.any_eq_true,
      List.any_eq_true]
    constructor
    · rintro ⟨c, hmem, h⟩
      obtain ⟨s, hs, hc⟩ := (mem_criteria_settled hone hss c).mp hmem
      exact ⟨s, hs, (hmatch s hs c hc).symm.trans h⟩
    · rintro ⟨s, hs, h⟩
      obtain ⟨c, hc⟩ := Option.isSome_iff_exists.mp (hss s hs)
      exact ⟨c, (mem_criteria_settled hone hss c).mpr ⟨s, hs, hc⟩, (hmatch s hs c hc).trans h⟩

end

/-! ## The program -/

/-- A run with settings, one in a word. -/
theorem pcitop_words_iff {host : Host} {ss : List Setting}
    (htext : ∀ s ∈ ss, ∀ a ∈ s.text?, NoNul a)
    (hfits : ∀ s ∈ ss, s.overflow? host.sysDevices = none) (outcome : Outcome) :
    pcitop host (ss.flatMap Setting.words) = .ok outcome ↔
      host.euid = 0 ∧ driversLoaded host.loaded = true ∧
        main (settled host.sysDevices ss).toOptions host.machine = .ok outcome := by
  have hsaid : Says host.posixlyCorrect (ss.flatMap Setting.words) (ss.map .set) :=
    says_words host.posixlyCorrect htext
  rw [pcitop_eq_ok_iff]
  refine and_congr_right fun _ => and_congr_right fun _ => ⟨?_, fun h => ⟨ss, hsaid, hfits, h⟩⟩
  rintro ⟨ss', hsaid', hfits', hmain⟩
  have hparse := parseOptions_of_means (.options hsaid hfits) host.myLspci
  rw [parseOptions_of_means (.options hsaid' hfits') host.myLspci] at hparse
  rwa [Except.ok.inj hparse] at hmain

theorem infoLine_markedList (opts : Options) (locals : ℕ → PciId) (verbose : Bool)
    (lbas : List LbaInfo) :
    infoLine verbose (opts.markedList locals 0 lbas) = infoLine verbose lbas := by
  funext lba
  have hfield : ∀ loc, locationField (opts.markedList locals 0 lbas) lba loc =
      locationField lbas lba loc := by
    intro loc
    refine if_congr ?_ rfl rfl
    rw [Several, Several, slotLocations_markedList]
  simp only [infoLine, hfield]

/-- The filter leaves out lines. -/
theorem flatMap_markedList {opts : Options} {locals : ℕ → PciId} (verbose : Bool)
    (all : List LbaInfo) {p : LbaInfo → Bool} {lbas : List LbaInfo} (i : ℕ)
    (h : ∀ j lba, lbas[j]? = some lba → opts.selects (locals (i + j)) lba = p lba) :
    ((opts.markedList locals i lbas).filter fun lba => lba.display ≠ 0).flatMap
      (infoLine verbose all) = (lbas.filter p).flatMap (infoLine verbose all) := by
  induction lbas generalizing i with
  | nil => rfl
  | cons lba lbas ih =>
    have hrest := ih (i + 1) fun j x hx => by
      rw [show i + 1 + j = i + (j + 1) by omega]
      exact h (j + 1) x hx
    have hfirst : opts.selects (locals i) lba = p lba := h 0 lba rfl
    have hdisplay := marked_display_ne_zero_iff opts (locals i) lba
    rw [markedList_cons]
    cases hp : p lba with
    | true =>
      rw [List.filter_cons_of_pos (by simpa using hdisplay.mpr (hfirst.trans hp)),
        List.filter_cons_of_pos hp, List.flatMap_cons, List.flatMap_cons, hrest]
      rfl
    | false =>
      have hhide : ¬ (opts.marked (locals i) lba).display ≠ 0 := by
        rw [hdisplay, hfirst, hp]
        exact Bool.false_ne_true
      rw [List.filter_cons_of_neg (by simpa using hhide),
        List.filter_cons_of_neg (by simp [hp]), hrest]

/-- The LBAs of a machine, all of them with a root bridge. -/
structure Machine.Lists (m : Machine) (tree : PciTree) (st : LbaState) : Prop
    extends m.Builds tree st where
  bridged : ∀ lba ∈ st.hostLbaList, lba.sysfsRootBridge.isSome

theorem main_lines {m : Machine} {tree : PciTree} {st : LbaState} (h : m.Lists tree st)
    (hmem : m.Counts) {opts : Options} (hinfo : opts.optShowInfo = true) {p : LbaInfo → Bool}
    (hp : ∀ j lba, st.hostLbaList[j]? = some lba → opts.selects (m.locals j) lba = p lba) :
    main opts m = .ok (.info ((st.hostLbaList.filter p).flatMap
      (infoLine opts.optVerbose st.hostLbaList))) := by
  obtain ⟨hmiss, hbridged⟩ := passes_of_bridged opts m h.bridged
  have hlist : listLbas opts m = .ok (opts.listing m st) :=
    listLbas_eq_ok_iff.mpr ⟨tree, st, h.tree_eq, h.init_eq, hmiss, rfl⟩
  refine (main_eq_info_iff hmem hinfo _).mpr ⟨_, hlist, hbridged, ?_⟩
  simp only [Options.listing, infoLine_markedList]
  rw [flatMap_markedList _ _ 0 fun j lba hj => by rw [Nat.zero_add]; exact hp j lba hj]

/-- A run with `-i` that prints tells the LBAs. -/
theorem lists_of_info {host : Host} (hmem : host.machine.Counts) {text : CString}
    (h : pcitop host Setting.info.words = .ok (.info text)) :
    host.euid = 0 ∧ driversLoaded host.loaded = true ∧ ∃ tree st, host.machine.Lists tree st ∧
      text = st.hostLbaList.flatMap (infoLine false st.hostLbaList) ∧
      ∀ lba ∈ st.hostLbaList, lba.AtLastSlot ∧ ∃ e, Initialized e lba := by
  have hwords : [Setting.info].flatMap Setting.words = Setting.info.words := by
    rw [List.flatMap_cons, List.flatMap_nil, List.append_nil]
  rw [← hwords, pcitop_words_iff (by simp [Setting.text?]) (by simp [Setting.overflow?])] at h
  obtain ⟨heuid, hloaded, hmain⟩ := h
  let opts : Options := (settled host.sysDevices [.info]).toOptions
  have hall : ∀ locals lba, opts.selects locals lba = true := fun _ _ => rfl
  obtain ⟨l, hl, hb, htext⟩ := (main_eq_info_iff hmem rfl _).mp hmain
  obtain ⟨tree, st, htree, hinit, -, rfl⟩ := listLbas_eq_ok_iff.mp hl
  have hlists : host.machine.Lists tree st := by
    refine ⟨⟨htree, hinit⟩, fun lba hlba => ?_⟩
    obtain ⟨j, hj⟩ := List.mem_iff_getElem?.mp hlba
    exact hb (opts.marked (host.machine.locals j) lba) (marked_mem hj)
      ((marked_display_ne_zero_iff _ _ _).mpr (hall _ _))
  refine ⟨heuid, hloaded, tree, st, hlists, ?_, fun lba hlba => ?_⟩
  · have hlines : main opts host.machine = .ok (.info ((st.hostLbaList.filter fun _ => true).flatMap
        (infoLine false st.hostLbaList))) :=
      main_lines hlists hmem rfl fun j lba _ => hall _ lba
    rw [List.filter_true] at hlines
    exact Outcome.info.inj (Except.ok.inj (hmain.symm.trans hlines))
  · obtain ⟨j, hj⟩ := List.mem_iff_getElem?.mp hlba
    obtain ⟨e, he⟩ := listLbas_initialized hl (marked_mem hj)
    exact ⟨(located_of_listLbas hmem hl).last (opts.marked (host.machine.locals j) lba)
      (marked_mem hj), e, he.name, he.pciId, he.ops, he.inUse, he.timer, he.prevTimer,
      he.prevCounter⟩

theorem noNul_integrityToStr (v : ℤ) : NoNul (integrityToStr v) := by
  unfold integrityToStr
  split_ifs
  · decide
  · exact noNul_decInt v

/-- The texts of a line go through the command line. -/
theorem of_shownBy {s : Setting} {lba : LbaInfo} (h : s.shownBy lba = true) :
    (∀ a ∈ s.text?, NoNul a) ∧ (∀ sys, s.overflow? sys = none) ∧ s ≠ .verbose := by
  have htext : ∀ {s : Setting} {a : CString}, s.text? = some a → NoNul a →
      ∀ b ∈ s.text?, NoNul b := by
    intro s a hs ha b hb
    rw [hs, Option.mem_some] at hb
    exact hb ▸ ha
  cases s with
  | cabinet a =>
    obtain rfl := of_decide_eq_true h
    exact ⟨htext rfl (noNul_integrityToStr _), fun _ => rfl, by simp⟩
  | bay a =>
    obtain rfl := of_decide_eq_true h
    exact ⟨htext rfl (noNul_integrityToStr _), fun _ => rfl, by simp⟩
  | chassis a =>
    obtain rfl := of_decide_eq_true h
    exact ⟨htext rfl (noNul_integrityToStr _), fun _ => rfl, by simp⟩
  | slot a =>
    obtain ⟨slot, -, rfl⟩ := List.mem_map.mp (of_decide_eq_true h)
    exact ⟨htext rfl (noNul_decInt _), fun _ => rfl, by simp⟩
  | lspci a =>
    rw [Setting.shownBy, Bool.and_eq_true, Option.isSome_iff_exists] at h
    obtain ⟨-, p, hp⟩ := h
    have ha := noNul_of_lspciAddress hp
    exact ⟨htext rfl ha, fun _ => rfl, by simp⟩
  | _ => exact absurd h Bool.false_ne_true

/-- **The texts of `--info`, given back.** An LBA goes with the texts of its line, and a
    filter with texts of the lines, one of each kind, prints the lines of the LBAs that go
    with all of them, or with one after `-o`, as they were. -/
theorem filters_shown {host : Host} (hmem : host.machine.Counts) {text : CString}
    (h : pcitop host Setting.info.words = .ok (.info text)) :
    ∃ tree st, host.machine.Lists tree st ∧
      text = st.hostLbaList.flatMap (infoLine false st.hostLbaList) ∧
      (∀ lba ∈ st.hostLbaList, ∀ s : Setting, s.shownBy lba = true → s.fits lba = true) ∧
      ∀ (and : Bool) (ss : List Setting), OneEach ss →
        (∀ s ∈ ss, s.text? ≠ some "n/a".toList ∧
          ∃ lba ∈ st.hostLbaList, s.shownBy lba = true) →
        pcitop host ((infoSettings and ss).flatMap Setting.words) =
          .ok (.info ((st.hostLbaList.filter fun lba =>
            if and then ss.all (·.fits lba) else ss.any (·.fits lba)).flatMap
              (infoLine false st.hostLbaList))) := by
  obtain ⟨heuid, hloaded, tree, st, hlists, htext, hlbas⟩ := lists_of_info hmem h
  have hlast : ∀ lba ∈ st.hostLbaList, lba.AtLastSlot := fun lba hlba => (hlbas lba hlba).1
  refine ⟨tree, st, hlists, htext, fun lba hlba s hs => ?_, fun and ss hone hshown => ?_⟩
  · obtain ⟨-, e, he⟩ := hlbas lba hlba
    exact fits_of_shownBy he hs
  have hmem_ss : ∀ s ∈ infoSettings and ss, s ∈ ss ∨ s = .info ∨ s = .and ∨ s = .or := by
    intro s hs
    rcases List.mem_cons.mp hs with rfl | hs
    · exact .inr (.inl rfl)
    · rcases List.mem_cons.mp hs with rfl | hs
      · cases and
        · exact .inr (.inr (.inr rfl))
        · exact .inr (.inr (.inl rfl))
      · exact .inl hs
  have hword : ∀ s ∈ infoSettings and ss, (∀ a ∈ s.text?, NoNul a) ∧
      (∀ sys, s.overflow? sys = none) ∧ s ≠ .verbose := by
    intro s hs
    rcases hmem_ss s hs with hs | rfl | rfl | rfl
    · obtain ⟨-, lba, -, hlba⟩ := hshown s hs
      exact of_shownBy hlba
    · exact ⟨by simp [Setting.text?], fun _ => rfl, by simp⟩
    · exact ⟨by simp [Setting.text?], fun _ => rfl, by simp⟩
    · exact ⟨by simp [Setting.text?], fun _ => rfl, by simp⟩
  have hverbose : (settled host.sysDevices (infoSettings and ss)).optVerbose = false := by
    refine List.any_eq_false.mpr fun s hs => ?_
    rw [decide_eq_true_iff]
    exact (hword s hs).2.2
  rw [pcitop_words_iff (fun s hs => (hword s hs).1) (fun s hs => (hword s hs).2.1 _)]
  refine ⟨heuid, hloaded, ?_⟩
  rw [main_lines hlists hmem (by simp [settled, infoSettings]) fun j lba hj =>
    selects_settled hone hshown (hlast lba (List.mem_of_getElem? hj))
      (hlists.bridged lba (List.mem_of_getElem? hj)) _, hverbose]

theorem Machine.Lists.unique {m : Machine} {tree tree' : PciTree} {st st' : LbaState}
    (h : m.Lists tree st) (h' : m.Lists tree' st') : st = st' := by
  obtain rfl : tree = tree' := Except.ok.inj (h.tree_eq.symm.trans h'.tree_eq)
  exact (Prod.mk.inj (Except.ok.inj (h.init_eq.symm.trans h'.init_eq))).2

/-- The machine, with drivers and privileges. -/
def infoHost : Host where
  sysDevices := ⟨none⟩
  posixlyCorrect := false
  euid := 0
  loaded _ := true
  myLspci := zeroed LSPCI_SIZE
  machine := infoMachine

/-- The lines of its LBAs. -/
def infoLine0 : CString := "0000:00:00.0   PCI/66 MHz ropes=1 chassis 1 slots 3\n".toList
def infoLine1 : CString := "0000:00:01.0   PCI/66 MHz ropes=1 chassis 1 slots 3\n".toList
def infoLine2 : CString := "0000:10:00.0   PCI/66 MHz ropes=1 chassis 2 slots 4,5\n".toList
def infoLine3 : CString := "0000:20:00.0   PCI/66 MHz ropes=1 chassis 0 \n".toList

/-- An address and a slot of the first LBA, with `-a`: the second is on the same bus. -/
def sameBus : List Setting := [.lspci "0000:00:00.0".toList, .slot "3".toList]

/-- An address of the last and a slot of the third, with `-o`. -/
def eitherOne : List Setting := [.lspci "0000:20:00.0".toList, .slot "4".toList]

theorem filters_shown_infoHost :
    pcitop infoHost Setting.info.words =
        .ok (.info (infoLine0 ++ infoLine1 ++ infoLine2 ++ infoLine3)) ∧
      pcitop infoHost ((infoSettings true sameBus).flatMap Setting.words) =
        .ok (.info (infoLine0 ++ infoLine1)) ∧
      pcitop infoHost ((infoSettings false eitherOne).flatMap Setting.words) =
        .ok (.info (infoLine2 ++ infoLine3)) := by
  have hlists : ∃ tree st, infoHost.machine.Lists tree st ∧
      st.hostLbaList.flatMap (infoLine false st.hostLbaList) =
        infoLine0 ++ infoLine1 ++ infoLine2 ++ infoLine3 ∧
      (st.hostLbaList.filter fun lba => sameBus.all (·.fits lba)).flatMap
        (infoLine false st.hostLbaList) = infoLine0 ++ infoLine1 ∧
      (st.hostLbaList.filter fun lba => eitherOne.any (·.fits lba)).flatMap
        (infoLine false st.hostLbaList) = infoLine2 ++ infoLine3 ∧
      (sameBus ++ eitherOne).all fun s => st.hostLbaList.any (s.shownBy ·) := by
    refine ⟨_, _, ⟨⟨rfl, rfl⟩, ?_⟩, rfl, rfl, rfl, rfl⟩
    rw [← List.all_eq_true]
    rfl
  have hmem := counts_infoMachine
  obtain ⟨tree, st, hlists, hlines, hsame, heither, hshown⟩ := hlists
  have hrun : pcitop infoHost ([Setting.info].flatMap Setting.words) =
      .ok (.info (infoLine0 ++ infoLine1 ++ infoLine2 ++ infoLine3)) := by
    rw [pcitop_words_iff (by simp [Setting.text?]) (by simp [Setting.overflow?])]
    refine ⟨rfl, rfl, (main_lines hlists hmem rfl fun _ _ _ => rfl).trans ?_⟩
    rw [List.filter_true]
    exact congrArg (Except.ok ∘ Outcome.info) hlines
  obtain ⟨tree', st', hlists', -, -, hfilter⟩ := filters_shown hmem hrun
  obtain rfl := hlists.unique hlists'
  simp only [List.all_eq_true, List.any_eq_true, List.mem_append] at hshown
  refine ⟨hrun, ?_, ?_⟩
  · rw [hfilter true sameBus (by simp [OneEach, sameBus, Setting.letter])
      fun s hs => ⟨by revert s; decide, hshown s (.inl hs)⟩]
    exact congrArg (Except.ok ∘ Outcome.info) hsame
  · rw [hfilter false eitherOne (by simp [OneEach, eitherOne, Setting.letter])
      fun s hs => ⟨by revert s; decide, hshown s (.inr hs)⟩]
    exact congrArg (Except.ok ∘ Outcome.info) heither

end Pcitop.Tool
