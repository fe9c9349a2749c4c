import Pcitop.Tool.Measure

/-!
# The program

Model of `main` (`pcitop.c`) once the command line is parsed and the drivers are
found to be loaded: the PCI tree, the list of LBAs, the filter, and then either the
text of `--info` or a measurement. A `Machine` is what the program meets on its way.

* `listLbas_of_fits`, `listLbas_error`: the ways in which the lists may turn out.
* `listLbas_ok`: the lists of a run that gets past the filter.
* `main_measured`, `main_measures`: the runs that measure.
-/

namespace Pcitop.Tool

open Pcitop.Common

/-- What the program meets. -/
structure Machine where
  pageSize : PageSize
  dirs : PciDirs
  /-- `/sys/class/hplba`, `none` when `opendir` fails -/
  hplba : Option (List LbaEntry)
  /-- what the array `address` of `create_sysfs_slot_list` holds on entry -/
  address : CString
  /-- what the variables of `pcicmp` hold on entry, LBA by LBA -/
  locals : ℕ → PciId
  treeMemory : PciMemory
  measureMemory : MeasureMemory
  env : Env

/-- The state of the program after `filter_lbas`. -/
structure Listing where
  lbas : List LbaInfo
  numLba : ℕ
  numLbaDisplay : ℕ
  sysInfo : IntegritySysInfo

/-- What a run of the program prints. -/
inductive Outcome where
  | info (text : CString)
  | measured (run : Run)
  deriving DecidableEq, Repr

/-- `create_sysfs_pci_tree` on a machine. -/
def Machine.pciTree (m : Machine) : Except Fault PciTree :=
  createSysfsPciTree m.treeMemory m.pageSize m.address m.dirs

/-- `main` from `integrity_init_sys_info` to `filter_lbas` (lines 1090–1096). -/
def listLbas (opts : Options) (m : Machine) : Except Fault Listing :=
  match m.pciTree with
  | .error fault => .error fault
  | .ok tree =>
    match initLbas m.pageSize tree.rootBridgeList m.hplba ⟨[], 0, integrityInitSysInfo⟩ with
    | .error fault => .error fault
    | .ok (ret, st) =>
      if ret ≠ 0 then .error (.exit 1)
      else
        match filterLbas opts m.locals 0 st.hostLbaList 0 with
        | .error fault => .error fault
        | .ok (lbas, numLbaDisplay) => .ok ⟨lbas, st.numLba, numLbaDisplay, st.sysInfo⟩

/-- `options.nsamples` as `main` leaves it (lines 1085–1086). -/
def Options.sampleCount (opts : Options) : ℕ := if opts.nsamples = 0 then 60 else opts.nsamples

/-- `main` from line 1085 on. -/
def main (opts : Options) (m : Machine) : Except Fault Outcome :=
  match listLbas opts m with
  | .error fault => .error fault
  | .ok l =>
    if opts.optShowInfo then
      (showAllRootInfo opts.optVerbose l.sysInfo l.lbas).map .info
    else if l.numLba = 0 then .error (.exit 1)
    else if l.numLbaDisplay = 0 then .error (.exit 1)
    else (measureUtilization m.measureMemory m.pageSize m.env opts.sampleCount l.numLbaDisplay
      l.lbas).map .measured

/-! ## The lists -/

section

variable {opts : Options} {m : Machine} {tree : PciTree} {es : List LbaEntry}

/-- What `init_lbas` makes of the entries of its directory, before the filter. -/
structure Unfiltered (tree : PciTree) (es : List LbaEntry) (st : LbaState) : Prop where
  madeFrom : List.Forall₂ (MadeFrom tree.rootBridgeList) (lbaEntries es) st.hostLbaList
  numLba : st.numLba = (lbaEntries es).countP (·.memory.attrib)

theorem Unfiltered.lba_of_entry {st : LbaState} (h : Unfiltered tree es st) {j : ℕ}
    {e : LbaEntry} (hj : (lbaEntries es)[j]? = some e) :
    ∃ lba, st.hostLbaList[j]? = some lba ∧ MadeFrom tree.rootBridgeList e lba := by
  obtain ⟨hlen, hget⟩ := List.forall₂_iff_get.mp h.madeFrom
  obtain ⟨hlt, rfl⟩ := List.getElem?_eq_some_iff.mp hj
  exact ⟨_, List.getElem?_eq_getElem (hlen ▸ hlt), hget j hlt (hlen ▸ hlt)⟩

theorem Unfiltered.entry_of_lba {st : LbaState} (h : Unfiltered tree es st) {j : ℕ}
    {lba : LbaInfo} (hj : st.hostLbaList[j]? = some lba) :
    ∃ e, (lbaEntries es)[j]? = some e ∧ MadeFrom tree.rootBridgeList e lba := by
  obtain ⟨hlen, hget⟩ := List.forall₂_iff_get.mp h.madeFrom
  obtain ⟨hlt, rfl⟩ := List.getElem?_eq_some_iff.mp hj
  exact ⟨_, List.getElem?_eq_getElem (hlen ▸ hlt), hget j (hlen ▸ hlt) hlt⟩

/-- The state after a filter that got to no slots that are not there. -/
def Options.listing (opts : Options) (m : Machine) (st : LbaState) : Listing where
  lbas := opts.markedList m.locals 0 st.hostLbaList
  numLba := st.numLba
  numLbaDisplay := (opts.markedList m.locals 0 st.hostLbaList).countP (·.display = 1)
  sysInfo := st.sysInfo

/-- The filter gets to the slots of an LBA without a root bridge. -/
def MissesBridge (opts : Options) (m : Machine) (st : LbaState) : Prop :=
  ∃ j lba, st.hostLbaList[j]? = some lba ∧ opts.readsSlots (m.locals j) lba = true ∧
    lba.sysfsRootBridge = none

theorem filterLbas_of_missesBridge {st : LbaState} (h : MissesBridge opts m st) :
    filterLbas opts m.locals 0 st.hostLbaList 0 = .error .nullLbaRootBridge := by
  obtain ⟨j, lba, hj, hr, hb⟩ := h
  exact filterLbas_error 0 0 hj (by rwa [Nat.zero_add]) hb

theorem filterLbas_of_not_missesBridge {st : LbaState} (h : ¬ MissesBridge opts m st) :
    filterLbas opts m.locals 0 st.hostLbaList 0 =
      .ok ((opts.listing m st).lbas, (opts.listing m st).numLbaDisplay) := by
  rw [filterLbas_eq, Nat.zero_add]
  · rfl
  · intro j lba hj hr
    rw [Nat.zero_add] at hr
    rw [← Option.ne_none_iff_isSome]
    exact fun hb => h ⟨j, lba, hj, hr, hb⟩

/-- With memory, what is left to do is the filter. -/
theorem listLbas_of_fits (htree : m.pciTree = .ok tree) (hdir : m.hplba = some es)
    (hfits : ∀ e ∈ lbaEntries es, e.Fits) :
    ∃ st, Unfiltered tree es st ∧
      (MissesBridge opts m st → listLbas opts m = .error .nullLbaRootBridge) ∧
      (¬ MissesBridge opts m st → listLbas opts m = .ok (opts.listing m st)) := by
  obtain ⟨lbas, sysInfo, hrun, hmade⟩ := addLbas_of_fits hfits ⟨[], 0, integrityInitSysInfo⟩
  let st : LbaState := ⟨lbas, 0 + (lbaEntries es).countP (·.memory.attrib), sysInfo⟩
  have hinit : initLbas m.pageSize tree.rootBridgeList (some es) ⟨[], 0, integrityInitSysInfo⟩ =
      .ok (0, st) := by
    rw [initLbas, hrun]
    rfl
  refine ⟨st, ⟨hmade, Nat.zero_add _⟩, fun hmiss => ?_, fun hmiss => ?_⟩
  · rw [listLbas, htree]
    simp only [hdir, hinit, filterLbas_of_missesBridge hmiss]
    rfl
  · rw [listLbas, htree]
    simp only [hdir, hinit, filterLbas_of_not_missesBridge hmiss]
    rfl

/-- Otherwise the program ends before, and not by an access to slots. -/
theorem listLbas_error (h : ¬ ∃ (tree : PciTree) (es : List LbaEntry), m.pciTree = .ok tree ∧
      m.hplba = some es ∧ ∀ e ∈ lbaEntries es, e.Fits) :
    ∃ fault, fault ≠ .nullLbaRootBridge ∧ listLbas opts m = .error fault := by
  unfold listLbas
  cases htree : m.pciTree with
  | error fault =>
    obtain rfl := createSysfsPciTree_fault htree
    exact ⟨_, by decide, rfl⟩
  | ok tree =>
    cases hdir : m.hplba with
    | none => exact ⟨.exit 1, by decide, rfl⟩
    | some es =>
      have hfits : ¬ ∀ e ∈ lbaEntries es, e.Fits := fun hfits => h ⟨tree, es, htree, hdir, hfits⟩
      simp only [initLbas]
      rcases addLbas_of_not_fits hfits ⟨[], 0, integrityInitSysInfo⟩ with hrun | hrun
      · rw [hrun]
        exact ⟨.nullLba, by decide, rfl⟩
      · rw [hrun]
        exact ⟨.exit 1, by decide, rfl⟩

/-- A run that gets past the filter. -/
theorem listLbas_ok {l : Listing} (h : listLbas opts m = .ok l) :
    ∃ (tree : PciTree) (es : List LbaEntry) (st : LbaState), Unfiltered tree es st ∧
      l = opts.listing m st := by
  by_cases hlist : ∃ (tree : PciTree) (es : List LbaEntry), m.pciTree = .ok tree ∧
      m.hplba = some es ∧ ∀ e ∈ lbaEntries es, e.Fits
  · obtain ⟨tree, es, htree, hdir, hfits⟩ := hlist
    obtain ⟨st, hst, hmiss, hok⟩ := listLbas_of_fits htree hdir hfits
    by_cases hm : MissesBridge opts m st
    · rw [hmiss hm] at h
      exact absurd h (by simp)
    · rw [hok hm] at h
      exact ⟨tree, es, st, hst, (Except.ok.inj h).symm⟩
  · obtain ⟨fault, -, hl⟩ := listLbas_error hlist
    rw [hl] at h
    exact absurd h (by simp)

/-- The LBAs as measuring finds them: with operations, in use and without counters. -/
theorem listLbas_initialized {l : Listing} (h : listLbas opts m = .ok l) {lba : LbaInfo}
    (hmem : lba ∈ l.lbas) : ∃ e, Initialized e lba := by
  obtain ⟨tree, es, st, hst, rfl⟩ := listLbas_ok h
  obtain ⟨j, lba, hj, rfl⟩ := mem_markedList hmem
  obtain ⟨e, -, hmade⟩ := hst.entry_of_lba hj
  exact ⟨e, hmade.name, hmade.pciId, hmade.ops, hmade.inUse, hmade.timer, hmade.prevTimer,
    hmade.prevCounter⟩

theorem listLbas_displayed {l : Listing} (h : listLbas opts m = .ok l)
    (hnum : l.numLbaDisplay ≠ 0) : ∃ lba ∈ l.lbas, lba.display ≠ 0 := by
  obtain ⟨tree, es, st, -, rfl⟩ := listLbas_ok h
  obtain ⟨lba, hmem, hd⟩ := List.countP_pos_iff.mp (Nat.pos_of_ne_zero hnum)
  refine ⟨lba, hmem, ?_⟩
  rw [of_decide_eq_true hd]
  decide

end

/-! ## Measuring -/

theorem map_eq_ok {α β : Type} {x : Except Fault α} {f : α → β} {y : β} (h : x.map f = .ok y) :
    ∃ a, x = .ok a ∧ f a = y := by
  cases x with
  | error fault => exact absurd h (by simp [Except.map])
  | ok a => exact ⟨a, rfl, Except.ok.inj h⟩

theorem map_eq_error_iff {α β : Type} {x : Except Fault α} {f : α → β} {fault : Fault} :
    x.map f = .error fault ↔ x = .error fault := by
  cases x <;> simp [Except.map]

section

variable {opts : Options} {m : Machine} {l : Listing}

/-- A run that measures. -/
theorem main_measured (h : listLbas opts m = .ok l) {run : Run}
    (hrun : main opts m = .ok (.measured run)) :
    l.numLbaDisplay ≠ 0 ∧ measureUtilization m.measureMemory m.pageSize m.env opts.sampleCount
      l.numLbaDisplay l.lbas = .ok run := by
  unfold main at hrun
  simp only [h] at hrun
  split_ifs at hrun with hinfo hnum hdisplay
  · obtain ⟨text, -, htext⟩ := map_eq_ok hrun
    exact absurd htext (by simp)
  · obtain ⟨run', hmeasure, hrun'⟩ := map_eq_ok hrun
    rw [hmeasure, Outcome.measured.inj hrun']
    exact ⟨hdisplay, rfl⟩

/-- With memory and root bridges, a run without `--info` measures. -/
theorem main_measures (h : listLbas opts m = .ok l) (hinfo : opts.optShowInfo = false)
    (hnum : l.numLba ≠ 0) (hdisplay : l.numLbaDisplay ≠ 0)
    (hmem : m.measureMemory = ⟨true, true⟩) (hbridge : Bridged l.lbas) :
    ∃ run, main opts m = .ok (.measured run) := by
  have hops : ∀ lba ∈ l.lbas, lba.display ≠ 0 → lba.ops = true := by
    intro lba hlba _
    obtain ⟨e, hinit⟩ := listLbas_initialized h hlba
    exact hinit.ops
  have hmeasure : ∃ run, measureUtilization ⟨true, true⟩ m.pageSize m.env opts.sampleCount
      l.numLbaDisplay l.lbas = .ok run :=
    measureUtilization_ok opts.sampleCount l.numLbaDisplay hbridge hops
  obtain ⟨run, hrun⟩ := hmeasure
  refine ⟨run, ?_⟩
  unfold main
  simp only [h]
  rw [if_neg (by rw [hinfo]; decide), if_neg hnum, if_neg hdisplay, hmem, hrun]
  rfl

end

/-- A machine with the LBA `0000:00:00.0` and one root bridge directory. -/
def oneLba (rootDir : CString) (env : Env) : Machine where
  pageSize := ⟨4096, le_rfl⟩
  dirs := ⟨some [rootDir], some [], some []⟩
  hplba := some [{
    dName := "0000:00:00.0".toList
    memory := ⟨true, true, true, fun _ => ⟨true, true, true⟩⟩
    pciId := ⟨0, 0, 0, 0⟩
    busMode := .data "PCI\n".toList
    busSpeed := .data "66 MHz\n".toList
    functionId := .data "0x122e\n".toList
    revision := .data "3.1\n".toList
    ropes := .data "1\n".toList }]
  address := zeroed SLOT_ADDRESS_LEN
  locals _ := ⟨0, 0, 0, 0⟩
  treeMemory := PciMemory.plenty
  measureMemory := ⟨true, true⟩
  env := env

theorem listLbas_oneLba (env : Env) :
    ∃ l, listLbas noFilter (oneLba "pci0000:00".toList env) = .ok l ∧ l.numLba ≠ 0 ∧
      l.numLbaDisplay ≠ 0 ∧ Bridged l.lbas := by
  refine ⟨_, rfl, one_ne_zero, one_ne_zero, fun lba hmem _ => ?_⟩
  rw [List.mem_singleton.mp hmem]
  rfl

end Pcitop.Tool
