import Pcitop.Hplba.Names
import Pcitop.Tool.Integrity
import Pcitop.Tool.PciId
import Pcitop.Tool.PciSysfs

/-!
# The list of LBAs

Model of `init_lbas` and what it calls (`pcitop.c`): a `struct lba_info` for every
entry of `/sys/class/hplba`, with its attributes and its location. An entry comes
with what the tool meets when it deals with it: the calls of `malloc` and `calloc`
that succeed, the content of the stack, and what reading each file meets.

* `addLbas_madeBy`, `addLbas_of_fits`: with memory, every entry gives an LBA, whose root
  bridge is the one its name selects.
* `addLbas_of_not_fits`: without, the program ends in the loop.
-/

namespace Pcitop.Tool

open Pcitop.Common Pcitop.Hplba

/-- `bus_op_modes_tab` of the tool (lines 83–91). -/
def busOpModesTab : List (NameEntry LbaBusOpModes) :=
  [⟨.unkType, "unknown".toList⟩, ⟨.agp, "AGP".toList⟩, ⟨.pci, "PCI".toList⟩,
    ⟨.pciX, "PCI-X mode 1".toList⟩, ⟨.pciXEcc, "mode 1 ECC".toList⟩,
    ⟨.pciX2Ecc, "PCI-X mode 2 ECC".toList⟩, ⟨.pcie, "PCIe".toList⟩]

/-- `bus_speeds_tab` of the tool (lines 93–106). -/
def busSpeedsTab : List (NameEntry LbaBusSpeeds) :=
  [⟨.unkSpeed, "unknown".toList⟩, ⟨.mhz66, "66 MHz".toList⟩, ⟨.mhz100, "100 MHz".toList⟩,
    ⟨.mhz133, "133 MHz".toList⟩, ⟨.mhz266, "266 MHz".toList⟩, ⟨.x1, "x1".toList⟩,
    ⟨.x2, "x2".toList⟩, ⟨.x4, "x4".toList⟩, ⟨.x8, "x8".toList⟩, ⟨.agp1x, "1x".toList⟩,
    ⟨.agp2x, "2x".toList⟩, ⟨.agp4x, "4x".toList⟩]

/-- `REV_LEN` (`pcitop.h`, line 45). -/
def REV_LEN : ℕ := 10

/-- `struct lba_info` (`pcitop.h`, lines 76–94). `ops` says whether the pointer is
    `&hplba_ops` rather than NULL, and `none` stands for a NULL string. -/
structure LbaInfo where
  name : CString
  sysfsRootBridge : Option SysfsRootBridge
  ops : Bool
  prevTimer : BitVec 64
  prevCounter : BitVec 64
  timer : BitVec 64
  counter : BitVec 64
  busType : Option CString
  busSpeed : Option CString
  revision : CString
  id : BitVec 32
  ropes : BitVec 32
  pciId : PciId
  inUse : BitVec 32
  display : BitVec 32
  archInfo : IntegrityLbaInfo
  deriving DecidableEq, Repr

/-- `calloc` and the name, as `register_lba` leaves them (lines 318–328). -/
def registeredLba (name : CString) : LbaInfo where
  name := name
  sysfsRootBridge := none
  ops := false
  prevTimer := 0
  prevCounter := 0
  timer := 0
  counter := 0
  busType := none
  busSpeed := none
  revision := zeroed REV_LEN
  id := 0
  ropes := 0
  pciId := ⟨0, 0, 0, 0⟩
  inUse := 0
  display := 0
  archInfo := ⟨0, 0, 0, 0⟩

/-- The allocations for an entry that succeed. -/
structure LbaMemory where
  /-- `strndup` of the name -/
  lbaName : Bool
  /-- `calloc` of the `struct lba_info` -/
  newLba : Bool
  /-- `calloc` of the page `attrib` -/
  attrib : Bool
  /-- those of `integrity_update_sys_info` for the slots behind the LBA -/
  sysInfo : ℕ → SysInfoMemory

/-- An entry of `/sys/class/hplba`. -/
structure LbaEntry where
  dName : CString
  memory : LbaMemory
  /-- What the variable `pci_id` of `init_lba` holds on entry. -/
  pciId : PciId
  busMode : FileRead
  busSpeed : FileRead
  functionId : FileRead
  revision : FileRead
  ropes : FileRead

/-- `read_lba_attribute` (lines 599–607): `contents` after it. -/
def readLbaAttribute (ps : PageSize) (file : FileRead) (contents : CString) : CString :=
  (readAttribute ps file contents PATH_MAX).2

/-- `"0x%x"`. -/
def functionIdFmt : List Directive := lits "0x".toList ++ [.conv (.x none)]

/-- `init_lba` (lines 621–670): the LBA, or NULL, and `options.num_lba` after it.
    Every attribute is read into the same page. -/
def initLba (ps : PageSize) (e : LbaEntry) (numLba : ℕ) : Except Fault (Option LbaInfo × ℕ) :=
  if !e.memory.lbaName then .ok (none, numLba)
  else if !e.memory.newLba then .error (.exit 1)
  else
    let lba := { registeredLba ((cstr e.dName).take PATH_MAX) with
      pciId := (nameToPciId e.dName e.pciId).2
      ops := true
      display := 1
      inUse := 1 }
    if !e.memory.attrib then .ok (some lba, numLba)
    else
      let attrib := zeroed ps
      let attrib := readLbaAttribute ps e.busMode attrib
      let mode := hplbaBusOpModeToValue busOpModesTab attrib
      let lba := { lba with busType := some (hplbaBusOpModeToStr busOpModesTab mode.code) }
      let attrib := readLbaAttribute ps e.busSpeed attrib
      let speed := hplbaBusSpeedToValue busSpeedsTab attrib
      let lba := { lba with busSpeed := some (hplbaBusSpeedToStr busSpeedsTab speed.code) }
      let attrib := readLbaAttribute ps e.functionId attrib
      let lba := { lba with id := assignUint (sscanf functionIdFmt attrib) 0 lba.id }
      let attrib := readLbaAttribute ps e.revision attrib
      let lba := { lba with revision := strncpy lba.revision attrib REV_LEN }
      let attrib := readLbaAttribute ps e.ropes attrib
      let lba := { lba with ropes := BitVec.ofInt 32 (atoi attrib) }
      .ok (some lba, numLba + 1)

/-! ## Location -/

/-- The body of the loop of `find_lba_location_info` for one slot. -/
def locateSlot (mem : SysInfoMemory) (slot : SysfsSlot)
    (info : IntegrityLbaInfo × IntegritySysInfo) : IntegrityLbaInfo × IntegritySysInfo :=
  let loc := integrityParseSlot slot.name
  let arch := { info.1 with cabinet := loc.cabinet, chassis := loc.chassis, bay := loc.bay }
  let arch := integrityUpdateLbaInfo arch loc.slot
  (arch, (integrityUpdateSysInfo mem arch info.2).2)

/-- `find_lba_location_info` (lines 391–415): the return value, and the LBA and
    `sys_info` after it. -/
def findLbaLocationInfo (bridges : List SysfsRootBridge) (mem : ℕ → SysInfoMemory)
    (lba : LbaInfo) (sysInfo : IntegritySysInfo) : ℤ × LbaInfo × IntegritySysInfo :=
  let lba := { lba with sysfsRootBridge := getSysfsRootBridge bridges lba.name }
  match lba.sysfsRootBridge with
  | none => (1, lba, sysInfo)
  | some bridge =>
    let info := bridge.slots.zipIdx.foldl (fun info s => locateSlot (mem s.2) s.1 info)
      (lba.archInfo, sysInfo)
    (0, { lba with archInfo := info.1 }, info.2)

/-! ## `init_lbas` -/

/-- What `init_lbas` fills in: `host_lba_list`, `options.num_lba` and `sys_info`. -/
structure LbaState where
  hostLbaList : List LbaInfo
  numLba : ℕ
  sysInfo : IntegritySysInfo
  deriving DecidableEq, Repr

/-- The entries the loop of `init_lbas` skips. -/
def LbaEntry.isDots (e : LbaEntry) : Bool := streq e.dName ".".toList || streq e.dName "..".toList

/-- The loop of `init_lbas` (lines 700–709). The return value of
    `find_lba_location_info` is dropped. -/
def addLbas (ps : PageSize) (bridges : List SysfsRootBridge) :
    List LbaEntry → LbaState → Except Fault LbaState
  | [], st => .ok st
  | e :: es, st =>
    if e.isDots then addLbas ps bridges es st
    else
      match initLba ps e st.numLba with
      | .error fault => .error fault
      | .ok (none, _) => .error .nullLba
      | .ok (some lba, numLba) =>
        let r := findLbaLocationInfo bridges e.memory.sysInfo lba st.sysInfo
        addLbas ps bridges es ⟨st.hostLbaList ++ [r.2.1], numLba, r.2.2⟩

/-- `init_lbas` (lines 684–714) over `/sys/class/hplba`: the return value, and the
    state after it. -/
def initLbas (ps : PageSize) (bridges : List SysfsRootBridge) (dir : Option (List LbaEntry))
    (st : LbaState) : Except Fault (ℤ × LbaState) :=
  match dir with
  | none => .ok (1, st)
  | some es => (addLbas ps bridges es st).map fun st => (0, st)

/-! ## What the list holds -/

/-- The entries the loop deals with. -/
def lbaEntries (es : List LbaEntry) : List LbaEntry := es.filter fun e => !e.isDots

theorem lbaEntries_cons (e : LbaEntry) (es : List LbaEntry) :
    lbaEntries (e :: es) = if e.isDots then lbaEntries es else e :: lbaEntries es := by
  unfold lbaEntries
  cases h : e.isDots <;> simp [h]

/-- The name of the LBA of an entry. -/
def LbaEntry.lbaName (e : LbaEntry) : CString := (cstr e.dName).take PATH_MAX

/-- The memory without which the program does not get past an entry. -/
def LbaEntry.Fits (e : LbaEntry) : Prop := e.memory.lbaName = true ∧ e.memory.newLba = true

/-- What `init_lba` makes of an entry, attributes and location apart. -/
structure Initialized (e : LbaEntry) (lba : LbaInfo) : Prop where
  name : lba.name = e.lbaName
  pciId : lba.pciId = (nameToPciId e.dName e.pciId).2
  ops : lba.ops = true
  inUse : lba.inUse = 1
  timer : lba.timer = 0
  prevTimer : lba.prevTimer = 0
  prevCounter : lba.prevCounter = 0

theorem initLba_of_fits {e : LbaEntry} (h : e.Fits) (ps : PageSize) (numLba : ℕ) :
    ∃ lba, initLba ps e numLba = .ok (some lba, numLba + if e.memory.attrib then 1 else 0) ∧
      Initialized e lba ∧ lba.archInfo = ⟨0, 0, 0, 0⟩ := by
  unfold initLba
  rw [h.1, h.2]
  cases ha : e.memory.attrib with
  | true => exact ⟨_, rfl, ⟨rfl, rfl, rfl, rfl, rfl, rfl, rfl⟩, rfl⟩
  | false => exact ⟨_, rfl, ⟨rfl, rfl, rfl, rfl, rfl, rfl, rfl⟩, rfl⟩

theorem initLba_of_not_fits {e : LbaEntry} (h : ¬ e.Fits) (ps : PageSize) (numLba : ℕ) :
    initLba ps e numLba = .ok (none, numLba) ∨ initLba ps e numLba = .error (.exit 1) := by
  unfold LbaEntry.Fits at h
  unfold initLba
  by_cases hname : e.memory.lbaName = true
  · right
    have hnew : e.memory.newLba = false := by
      rw [← Bool.not_eq_true]
      exact fun hnew => h ⟨hname, hnew⟩
    rw [hname, hnew]
    rfl
  · left
    rw [Bool.not_eq_true] at hname
    rw [hname]
    rfl

theorem fits_of_initLba {e : LbaEntry} {ps : PageSize} {numLba numLba' : ℕ} {lba : LbaInfo}
    (h : initLba ps e numLba = .ok (some lba, numLba')) : e.Fits := by
  by_contra hn
  rcases initLba_of_not_fits hn ps numLba with hinit | hinit
  · exact absurd (hinit.symm.trans h) (by simp)
  · exact absurd (hinit.symm.trans h) (by simp)

/-- An LBA of the list, made from an entry. The root bridge is the one its name
    selects, and without one its location stays as `calloc` left it. -/
structure MadeFrom (bridges : List SysfsRootBridge) (e : LbaEntry) (lba : LbaInfo) : Prop
    extends Initialized e lba where
  bridge : lba.sysfsRootBridge = getSysfsRootBridge bridges e.lbaName
  archInfo : getSysfsRootBridge bridges e.lbaName = none → lba.archInfo = ⟨0, 0, 0, 0⟩

theorem Initialized.madeFrom {e : LbaEntry} {lba : LbaInfo} (h : Initialized e lba)
    (harch : lba.archInfo = ⟨0, 0, 0, 0⟩) (bridges : List SysfsRootBridge)
    (mem : ℕ → SysInfoMemory) (sysInfo : IntegritySysInfo) :
    MadeFrom bridges e (findLbaLocationInfo bridges mem lba sysInfo).2.1 := by
  unfold findLbaLocationInfo
  rw [h.name]
  obtain hb | ⟨bridge, hb⟩ := Option.eq_none_or_eq_some (getSysfsRootBridge bridges e.lbaName)
  · simp only [hb]
    exact ⟨⟨rfl, h.pciId, h.ops, h.inUse, h.timer, h.prevTimer, h.prevCounter⟩, hb.symm,
      fun _ => harch⟩
  · simp only [hb]
    refine ⟨⟨rfl, h.pciId, h.ops, h.inUse, h.timer, h.prevTimer, h.prevCounter⟩, hb.symm,
      fun hnone => ?_⟩
    rw [hb] at hnone
    exact absurd hnone (Option.some_ne_none _)

section

variable {ps : PageSize} {bridges : List SysfsRootBridge}

/-- The LBA that the loop leaves on the list for an entry. -/
def MadeBy (ps : PageSize) (bridges : List SysfsRootBridge) (e : LbaEntry) (lba : LbaInfo) :
    Prop :=
  ∃ (numLba numLba' : ℕ) (lba₀ : LbaInfo) (sysInfo : IntegritySysInfo),
    initLba ps e numLba = .ok (some lba₀, numLba') ∧
      lba = (findLbaLocationInfo bridges e.memory.sysInfo lba₀ sysInfo).2.1

theorem MadeBy.madeFrom {e : LbaEntry} {lba : LbaInfo} (h : MadeBy ps bridges e lba) :
    MadeFrom bridges e lba := by
  obtain ⟨numLba, numLba', lba₀, sysInfo, hinit, rfl⟩ := h
  obtain ⟨lba, hlba, hinitialized, harch⟩ := initLba_of_fits (fits_of_initLba hinit) ps numLba
  obtain ⟨rfl, -⟩ := by simpa using hlba.symm.trans hinit
  exact hinitialized.madeFrom harch bridges e.memory.sysInfo sysInfo

/-- One entry of the loop. -/
theorem addLbas_cons {e : LbaEntry} (es : List LbaEntry) (st : LbaState)
    (hdots : e.isDots = false) (h : e.Fits) :
    ∃ (lba : LbaInfo) (sysInfo : IntegritySysInfo), MadeBy ps bridges e lba ∧
      addLbas ps bridges (e :: es) st = addLbas ps bridges es ⟨st.hostLbaList ++ [lba],
        st.numLba + if e.memory.attrib then 1 else 0, sysInfo⟩ := by
  obtain ⟨lba, hinit, -⟩ := initLba_of_fits h ps st.numLba
  refine ⟨_, (findLbaLocationInfo bridges e.memory.sysInfo lba st.sysInfo).2.2,
    ⟨_, _, lba, st.sysInfo, hinit, rfl⟩, ?_⟩
  rw [addLbas, if_neg (Bool.eq_false_iff.mp hdots)]
  simp only [hinit]

/-- With memory the loop makes an LBA of every entry, in order. -/
theorem addLbas_madeBy {es : List LbaEntry} (h : ∀ e ∈ lbaEntries es, e.Fits) (st : LbaState) :
    ∃ (lbas : List LbaInfo) (sysInfo : IntegritySysInfo),
      addLbas ps bridges es st = .ok ⟨st.hostLbaList ++ lbas,
        st.numLba + (lbaEntries es).countP (·.memory.attrib), sysInfo⟩ ∧
      List.Forall₂ (MadeBy ps bridges) (lbaEntries es) lbas := by
  induction es generalizing st with
  | nil => exact ⟨[], st.sysInfo, by simp [addLbas, lbaEntries], by simp [lbaEntries]⟩
  | cons e es ih =>
    cases hdots : e.isDots with
    | true =>
      have hes : lbaEntries (e :: es) = lbaEntries es := by rw [lbaEntries_cons, if_pos hdots]
      rw [hes] at h ⊢
      rw [addLbas, if_pos hdots]
      exact ih h st
    | false =>
      have hes : lbaEntries (e :: es) = e :: lbaEntries es := by
        rw [lbaEntries_cons, if_neg (Bool.eq_false_iff.mp hdots)]
      rw [hes] at h ⊢
      obtain ⟨lba, sysInfo, hlba, hstep⟩ := addLbas_cons es st hdots (h e (by simp))
      obtain ⟨lbas, sysInfo', hrun, hlbas⟩ := ih (fun x hx => h x (List.mem_cons_of_mem _ hx))
        ⟨st.hostLbaList ++ [lba], st.numLba + if e.memory.attrib then 1 else 0, sysInfo⟩
      refine ⟨lba :: lbas, sysInfo', ?_, List.Forall₂.cons hlba hlbas⟩
      rw [hstep, hrun, List.countP_cons, List.append_assoc, List.singleton_append]
      congr 2
      show st.numLba + _ + _ = st.numLba + (_ + _)
      omega

/-- The same, as far as it does not depend on the attributes. -/
theorem addLbas_of_fits {es : List LbaEntry} (h : ∀ e ∈ lbaEntries es, e.Fits) (st : LbaState) :
    ∃ (lbas : List LbaInfo) (sysInfo : IntegritySysInfo),
      addLbas ps bridges es st = .ok ⟨st.hostLbaList ++ lbas,
        st.numLba + (lbaEntries es).countP (·.memory.attrib), sysInfo⟩ ∧
      List.Forall₂ (MadeFrom bridges) (lbaEntries es) lbas := by
  obtain ⟨lbas, sysInfo, hrun, hlbas⟩ := addLbas_madeBy h st
  exact ⟨lbas, sysInfo, hrun, hlbas.imp fun _ _ hmade => hmade.madeFrom⟩

/-- Without, the loop does not get to its end. -/
theorem addLbas_of_not_fits {es : List LbaEntry} (h : ¬ ∀ e ∈ lbaEntries es, e.Fits)
    (st : LbaState) :
    addLbas ps bridges es st = .error .nullLba ∨ addLbas ps bridges es st = .error (.exit 1) := by
  induction es generalizing st with
  | nil => exact absurd (by simp [lbaEntries]) h
  | cons e es ih =>
    cases hdots : e.isDots with
    | true =>
      rw [lbaEntries_cons, if_pos hdots] at h
      rw [addLbas, if_pos hdots]
      exact ih h st
    | false =>
      rw [lbaEntries_cons, if_neg (Bool.eq_false_iff.mp hdots)] at h
      by_cases hfits : e.Fits
      · obtain ⟨lba, sysInfo, -, hstep⟩ := addLbas_cons es st hdots hfits
        rw [hstep]
        refine ih (fun hall => h fun x hx => ?_) _
        rcases List.mem_cons.mp hx with rfl | hx
        · exact hfits
        · exact hall x hx
      · rw [addLbas, if_neg (Bool.eq_false_iff.mp hdots)]
        rcases initLba_of_not_fits hfits ps st.numLba with hinit | hinit
        · left
          rw [hinit]
        · right
          rw [hinit]

end

end Pcitop.Tool
