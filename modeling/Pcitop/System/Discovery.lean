import Pcitop.Driver.ChipInfo
import Pcitop.System.NameTables
import Pcitop.System.Naming
import Pcitop.Tool.Attributes
import Pcitop.Tool.SlotBuses

/-!
# From ACPI nodes to the list of the tool

`hplba_init` puts an object on `lba_list` for every node whose device it registers; sysfs
shows the devices as entries of `/sys/class/hplba`, and `init_lbas` makes a `struct lba_info`
of every entry. Driver and tool have their own tables of names, and the numbers go through
`sprintf` and `sscanf`.

* `probed_of_load`: `lba_list` holds the LBAs of the nodes that register, in their order.
* `presents_of_serves`: the tool makes of an entry what the driver decodes from the
  registers of the chip.
* `initLbas_of_load`: none is lost or listed twice on the way.
-/

namespace Pcitop.System

open Pcitop.Common Pcitop.Hplba Pcitop.Driver Pcitop.Tool

/-! ## From nodes to `lba_list` -/

instance (node : AcpiNode) : Decidable node.Known :=
  inferInstanceAs (Decidable (_ ∧ _))

instance (node : AcpiNode) : Decidable node.Registers :=
  inferInstanceAs (Decidable (_ ∧ _))

/-- What `lba_probe` stores about a node. -/
structure ProbedFrom (node : AcpiNode) (l : ProbedLba) : Prop where
  regs : node.hpAcpiCsrSpace = some l.device
  ops : findLbaOps (lbaReg l.device LBA_FUNC_ID) = some l.ops
  classId : ∃ id, node.acpiGetPciId = some id ∧
    l.classId = registerHplbaDevice (zeroed BUS_ID_SIZE) id
  utilState : l.utilState = .unk

/-- A visit that does not oops appends the LBA of the node if it registers. -/
theorem lbaProbe_probed {m m' : Module} {node : AcpiNode} (h : lbaProbe m node = .ok m') :
    (node.Registers ∧ ∃ l, ProbedFrom node l ∧ m'.lbaList = m.lbaList ++ [l]) ∨
      (¬ node.Registers ∧ m'.lbaList = m.lbaList) := by
  by_cases hreg : node.Registers
  · left
    obtain ⟨⟨⟨regs, hcsr, hid⟩, hdev, hpci⟩, hkmalloc, hadd⟩ := id hreg
    obtain ⟨ops, hops⟩ := Option.isSome_iff_exists.mp hid
    obtain ⟨pciId, hpci⟩ := Option.isSome_iff_exists.mp hpci
    have hswitch := (not_congr (findLbaOps_eq_none_iff _)).mp (Option.isSome_iff_ne_none.mp hid)
    let l : ProbedLba := ⟨⟨.unk, regs⟩, m.allocated, registerHplbaDevice (zeroed BUS_ID_SIZE) pciId,
      probedSegment node.acpiEvaluateInteger, ops⟩
    have hvisit : lbaProbe m node = .ok (m.append l) := by
      unfold lbaProbe
      rw [hcsr, hpci]
      simp only [if_neg hswitch, if_neg (not_not_intro hdev), hkmalloc, hops,
        if_neg (not_not_intro hadd), Bool.true_eq_false, if_false]
      rfl
    rw [hvisit] at h
    refine ⟨hreg, l, ⟨hcsr, hops, ⟨pciId, hpci, rfl⟩, rfl⟩, ?_⟩
    rw [← Except.ok.inj h]
    rfl
  · right
    refine ⟨hreg, ?_⟩
    obtain ⟨-, heq⟩ | ⟨-, -, n, -, heq⟩ | ⟨-, hreg', -⟩ := lbaProbe_cases m node
    · rw [heq] at h
      exact absurd h (by simp)
    · rw [heq] at h
      rw [← Except.ok.inj h]
    · exact absurd hreg' hreg

/-- So does a walk, node by node. -/
theorem foldlM_lbaProbe_probed {nodes : List AcpiNode} {m m' : Module}
    (h : nodes.foldlM lbaProbe m = .ok m') :
    ∃ ls, m'.lbaList = m.lbaList ++ ls ∧
      List.Forall₂ ProbedFrom (nodes.filter fun node => decide node.Registers) ls := by
  induction nodes generalizing m with
  | nil =>
    obtain rfl := Except.ok.inj h
    exact ⟨[], by simp, .nil⟩
  | cons node nodes ih =>
    rw [List.foldlM_cons] at h
    cases hvisit : lbaProbe m node with
    | error m₁ =>
      rw [hvisit] at h
      exact absurd h (by intro h; cases h)
    | ok m₁ =>
      rw [hvisit] at h
      obtain ⟨ls, hls, hprobed⟩ := ih h
      obtain ⟨hreg, l, hl, hlist⟩ | ⟨hreg, hlist⟩ := lbaProbe_probed hvisit
      · refine ⟨l :: ls, ?_, ?_⟩
        · rw [hls, hlist, List.append_assoc, List.singleton_append]
        · rw [List.filter_cons_of_pos (by simpa using hreg)]
          exact .cons hl hprobed
      · refine ⟨ls, by rw [hls, hlist], ?_⟩
        rwa [List.filter_cons_of_neg (by simpa using hreg)]

/-- After a load `lba_list` holds the LBAs of the nodes that register, in the order of the
    visits. -/
theorem probed_of_load {k : Kernel} {m : Module} (h : k.hplbaInit = .ok (0, m)) :
    List.Forall₂ ProbedFrom (k.visits.filter fun node => decide node.Registers) m.lbaList := by
  have hclass : k.ClassRegisters := by
    by_contra hnot
    have hret := (registerHplbaClass_of_not hnot).1
    unfold Kernel.hplbaInit at h
    simp only [hret] at h
    exact absurd h (by intro h; cases h)
  rw [hplbaInit_of_registers hclass] at h
  cases hwalk : k.visits.foldlM lbaProbe k.classLoaded with
  | error m' =>
    rw [hwalk] at h
    exact absurd h (by intro h; cases h)
  | ok m' =>
    rw [hwalk] at h
    obtain ⟨ls, hls, hprobed⟩ := foldlM_lbaProbe_probed hwalk
    have hm : m' = m := by
      have := Except.ok.inj h
      exact (Prod.mk.inj this).2
    rw [← hm, hls]
    exact hprobed

/-! ## From the registers to the texts of the tool -/

/-- The page holds a line that was read into it, without its newline. -/
theorem cstr_lastPage_line (ps : PageSize) {line : CString} (hn : NoNul line)
    (hlen : line.length < PATH_MAX) (files : List FileRead) :
    cstr (lastPage ps (.data (line ++ ['\n']) :: files)) = line := by
  have hps : PATH_MAX ≤ ps := ps.2
  have htext : attributeText ps (line ++ ['\n']) = line := by
    rw [attributeText_of_le ps (hn.append (by decide)) (by simp; omega), List.dropLast_concat]
  rw [lastPage, ownPage, readLbaAttribute,
    cstr_readAttribute ps _ _ hps (by rw [htext]; exact hlen), htext]

section

variable {α : Type} {code : α → ℤ} {unk : α} {tab tab' : List (NameEntry α)}

/-- A name from one table, looked up in a table with the same entries, is the name again. -/
theorem toStr_toValue_of_mem (h : NameTable code unk tab) (hperm : tab.Perm tab')
    {e : NameEntry α} (he : e ∈ tab) {s : CString} (hs : cstr s = e.name) :
    toStr code unk tab' (code (toValue code unk tab' s)) = e.name := by
  have he' := hperm.mem_iff.mp he
  rw [(h.perm hperm).toValue_of_spells he' (.inl hs), (h.perm hperm).toStr_of_mem he']

end

/-- Every mode has its entry at its own index in the table of the driver. -/
theorem exists_nameAt_mode (mode : LbaBusOpModes) :
    ∃ e ∈ Driver.busOpModesTab, nameAt Driver.busOpModesTab mode.code = some e.name ∧
      e.name.length < PATH_MAX := by
  cases mode <;> exact ⟨_, by simp [Driver.busOpModesTab], rfl, by decide⟩

theorem exists_nameAt_speed (speed : LbaBusSpeeds) :
    ∃ e ∈ Driver.busSpeedsTab, nameAt Driver.busSpeedsTab speed.code = some e.name ∧
      e.name.length < PATH_MAX := by
  cases speed <;> exact ⟨_, by simp [Driver.busSpeedsTab], rfl, by decide⟩

/-- The bus mode, through both tables. -/
theorem busTypeOf_busOpModeShow (ps : PageSize) (null : CString) (chip : Chip) (regs : Regs 64)
    (files : List FileRead) :
    some (busTypeOf (lastPage ps
        (.data (busOpModeShow Driver.busOpModesTab null chip regs) :: files))) =
      chip.ops.busOpMode Driver.busOpModesTab regs := by
  obtain ⟨e, he, hname, hlen⟩ := exists_nameAt_mode (chip.mode regs)
  have hpage := cstr_lastPage_line ps (nameTable_driver_busOpModes.oneLine e he).1 hlen files
  rw [busOpModeShow, busOpMode_eq, hname, lineOf, Option.getD_some]
  exact congrArg some
    (toStr_toValue_of_mem nameTable_driver_busOpModes perm_busOpModes he hpage)

/-- The bus speed, through both tables. -/
theorem busSpeedOf_busSpeedShow (ps : PageSize) (null : CString) (chip : Chip) (regs : Regs 64)
    (files : List FileRead) :
    some (busSpeedOf (lastPage ps
        (.data (busSpeedShow Driver.busSpeedsTab null chip regs) :: files))) =
      chip.ops.busSpeed Driver.busSpeedsTab regs := by
  obtain ⟨e, he, hname, hlen⟩ := exists_nameAt_speed (chip.speed regs)
  have hpage := cstr_lastPage_line ps (nameTable_driver_busSpeeds.oneLine e he).1 hlen files
  rw [busSpeedShow, busSpeed_eq, hname, lineOf, Option.getD_some]
  exact congrArg some
    (toStr_toValue_of_mem nameTable_driver_busSpeeds perm_busSpeeds he hpage)

/-- The function id: `%#lx` writes 0 without a prefix, and `0x%x` then assigns nothing. -/
theorem idOf_functionIdShow (ps : PageSize) (regs : Regs 64) (files : List FileRead) :
    idOf (lastPage ps (.data (functionIdShow regs) :: files)) =
      (lbaReg regs LBA_FUNC_ID).setWidth 32 := by
  have hle : (lbaReg regs LBA_FUNC_ID).toNat ≤ 0xffff := lbaReg_le_mask _ _
  have hid : (lbaReg regs LBA_FUNC_ID).setWidth 32 =
      BitVec.ofNat 32 (lbaReg regs LBA_FUNC_ID).toNat := by
    apply BitVec.eq_of_toNat_eq
    simp
  rw [hid, functionIdShow]
  generalize (lbaReg regs LBA_FUNC_ID).toNat = id at hle
  by_cases hzero : id = 0
  · simp only [hzero, if_true]
    have hn : NoNul ['0'] := by decide
    have hpage := cstr_lastPage_line ps hn (by decide) files
    rw [idOf, sscanf, hpage]
    decide
  · simp only [hzero, if_false]
    have hdigits := isDigitOf_toDigits (b := 16) (by norm_num) le_rfl id
    have hlen : (Nat.toDigits 16 id).length ≤ 4 :=
      (Nat.length_toDigits_le_iff (b := 16) (by norm_num) (by norm_num)).mpr (by omega)
    have hn : NoNul ("0x".toList ++ Nat.toDigits 16 id) :=
      NoNul.append (by decide) (noNul_of_digits le_rfl hdigits)
    have hshort : ("0x".toList ++ Nat.toDigits 16 id).length < PATH_MAX := by
      rw [List.length_append]
      have : "0x".toList.length = 2 := rfl
      have : PATH_MAX = 4096 := rfl
      omega
    rw [idOf, sscanf, cstr_lastPage_line ps hn hshort files, functionIdFmt, runDirectives_lits,
      runDirectives_conv (scan_x_toDigits (by omega))]
    rfl

/-- The revision. -/
theorem cstr_revisionOf_revisionShow (ps : PageSize) (chip : Chip) (regs : Regs 64)
    (files : List FileRead) :
    cstr (revisionOf (lastPage ps (.data (revisionShow chip regs) :: files))) =
      cstr (chip.ops.revision regs) := by
  have hlen := length_revisionText regs
  have hpage := cstr_lastPage_line ps (noNul_revisionText regs)
    (hlen.trans (by decide)) files
  rw [revisionShow, cstr_revision, revisionOf, cstr_strncpy, hpage]
  rw [strlen, hpage]
  exact hlen.trans (by decide)

/-- The ropes. -/
theorem ropesOf_ropesShow (ps : PageSize) (chip : Chip) (regs : Regs 64)
    (files : List FileRead) :
    ropesOf (lastPage ps (.data (ropesShow chip regs) :: files)) =
      BitVec.ofInt 32 (chip.ops.ropes regs) := by
  have hropes : ∃ n : ℕ, n ≤ 4 ∧ chip.ops.ropes regs = n := by
    have hmem := ropes_mem chip regs
    simp only [List.mem_cons, List.not_mem_nil, or_false] at hmem
    obtain h | h | h := hmem
    · exact ⟨1, by omega, h⟩
    · exact ⟨2, by omega, h⟩
    · exact ⟨4, by omega, h⟩
  obtain ⟨n, hle, hn⟩ := hropes
  have hdec : decInt (n : ℤ) = dec n := by
    rw [decInt, if_neg (by omega), Int.toNat_natCast]
  have hlen : (dec n).length ≤ 1 := length_dec_le (by norm_num) (by omega)
  have hpage := cstr_lastPage_line ps (noNul_dec n)
    (lt_of_le_of_lt hlen (by decide)) files
  rw [ropesShow, hn, hdec, ropesOf, atoi_dec hpage (by omega)]

/-! ## Entry by entry -/

/-- The entry of `/sys/class/hplba` for the device of an LBA whose registers are `regs` when
    its files are read. -/
structure Serves (null : CString) (regs : Regs 64) (l : ProbedLba) (e : LbaEntry) : Prop where
  dName : e.dName = cstr l.classId
  busMode : e.busMode = .data (busOpModeShow Driver.busOpModesTab null l.ops regs)
  busSpeed : e.busSpeed = .data (busSpeedShow Driver.busSpeedsTab null l.ops regs)
  functionId : e.functionId = .data (functionIdShow regs)
  revision : e.revision = .data (revisionShow l.ops regs)
  ropes : e.ropes = .data (ropesShow l.ops regs)

/-- What the tool keeps of an LBA is what the driver knows of it; the root bridge is the one
    with the name of its segment and bus. -/
structure Presents (bridges : List SysfsRootBridge) (id : AcpiPciId) (chip : Chip)
    (regs : Regs 64) (lba : LbaInfo) : Prop where
  name : lba.name = deviceText id
  pciId : lba.pciId = pciIdOf id
  bridge : lba.sysfsRootBridge =
    bridges.find? fun b => cstr b.name = hexPad 4 id.segment.toNat ++ ':' :: hexPad 2 id.bus.toNat
  busType : lba.busType = chip.ops.busOpMode Driver.busOpModesTab regs
  busSpeed : lba.busSpeed = chip.ops.busSpeed Driver.busSpeedsTab regs
  id : lba.id = (lbaReg regs LBA_FUNC_ID).setWidth 32
  revision : cstr lba.revision = cstr (chip.ops.revision regs)
  ropes : lba.ropes = BitVec.ofInt 32 (chip.ops.ropes regs)

/-- Looking for the root bridge leaves what was read from the files. -/
theorem attributes_findLbaLocationInfo (bridges : List SysfsRootBridge) (mem : ℕ → SysInfoMemory)
    (lba : LbaInfo) (sysInfo : IntegritySysInfo) :
    let lba' := (findLbaLocationInfo bridges mem lba sysInfo).2.1
    lba'.busType = lba.busType ∧ lba'.busSpeed = lba.busSpeed ∧ lba'.id = lba.id ∧
      lba'.revision = lba.revision ∧ lba'.ropes = lba.ropes := by
  unfold findLbaLocationInfo
  cases getSysfsRootBridge bridges lba.name with
  | none => exact ⟨rfl, rfl, rfl, rfl, rfl⟩
  | some bridge => exact ⟨rfl, rfl, rfl, rfl, rfl⟩

theorem presents_of_serves {ps : PageSize} {bridges : List SysfsRootBridge}
    (hnames : ∀ b ∈ bridges, (cstr b.name).length ≤ 7) {null : CString} {regs : Regs 64}
    {l : ProbedLba} {id : AcpiPciId} (hid : id.Valid)
    (hclass : l.classId = registerHplbaDevice (zeroed BUS_ID_SIZE) id) {e : LbaEntry}
    (he : Serves null regs l e) (ha : e.memory.attrib = true) {lba : LbaInfo}
    (hmade : MadeBy ps bridges e lba) : Presents bridges id l.ops regs lba := by
  have hdName : e.dName = deviceText id := by
    rw [he.dName, hclass, cstr_registerHplbaDevice _ hid]
  have hname : e.lbaName = deviceText id := by
    rw [LbaEntry.lbaName, hdName, cstr_eq_self (noNul_deviceText id), List.take_of_length_le]
    rw [length_deviceText hid]
    decide
  have hfrom := hmade.madeFrom
  obtain ⟨numLba, numLba', lba₀, sysInfo, hinit, rfl⟩ := hmade
  obtain ⟨lba₁, hrun, htype, hspeed, hfid, hrev, hropes⟩ :=
    initLba_attributes (fits_of_initLba hinit) ha ps numLba
  obtain ⟨rfl, -⟩ := by simpa using hrun.symm.trans hinit
  obtain ⟨htype', hspeed', hfid', hrev', hropes'⟩ :=
    attributes_findLbaLocationInfo bridges e.memory.sysInfo lba₁ sysInfo
  refine ⟨hfrom.name.trans hname, ?_, ?_, ?_, ?_, ?_, ?_, ?_⟩
  · rw [hfrom.pciId, hdName, nameToPciId_deviceText hid]
  · rw [hfrom.bridge, hname, deviceText_eq hid, getSysfsRootBridge_text hnames]
    rfl
  · rw [htype', htype, he.busMode, busTypeOf_busOpModeShow]
  · rw [hspeed', hspeed, he.busSpeed, busSpeedOf_busSpeedShow]
  · rw [hfid', hfid, he.functionId, idOf_functionIdShow]
  · rw [hrev', hrev, he.revision, cstr_revisionOf_revisionShow]
  · rw [hropes', hropes, he.ropes, ropesOf_ropesShow]

/-! ## The whole way -/

/-- The LBAs of the nodes that register a device are those on `lba_list`, and the tool lists
    each of these, in the order `ls` of the directory, with what the driver knows of it. -/
structure Discovered (k : Kernel) (m : Module) (bridges : List SysfsRootBridge)
    (regs : ℕ → Regs 64) (ls : List ProbedLba) (st : LbaState) : Prop where
  probed : List.Forall₂ ProbedFrom (k.visits.filter fun node => decide node.Registers) m.lbaList
  numLba : st.numLba = (k.visits.filter fun node => decide node.Registers).length
  listed : List.Forall₂ (fun l lba => ∃ node ∈ k.visits, ProbedFrom node l ∧
    ∃ id ∈ node.acpiGetPciId, Presents bridges id l.ops (regs l.lba) lba) ls st.hostLbaList

/-- After a load, on a directory that has one entry for each device, in any order, `init_lbas`
    lists every LBA once, with what the driver knows of it. -/
theorem initLbas_of_load {k : Kernel} {m : Module} (hload : k.hplbaInit = .ok (0, m))
    (hvalid : ∀ node ∈ k.visits, ∀ id ∈ node.acpiGetPciId, id.Valid)
    {mem : PciMemory} {ps : PageSize} {address : CString} {dirs : PciDirs} {tree : PciTree}
    (htree : createSysfsPciTree mem ps address dirs = .ok tree) {null : CString}
    {regs : ℕ → Regs 64} {ls : List ProbedLba} (hls : ls.Perm m.lbaList) {es : List LbaEntry}
    (hes : List.Forall₂ (fun l e => Serves null (regs l.lba) l e) ls (lbaEntries es))
    (hmemory : ∀ e ∈ lbaEntries es, e.Fits ∧ e.memory.attrib = true)
    (sysInfo : IntegritySysInfo) :
    ∃ st, initLbas ps tree.rootBridgeList (some es) ⟨[], 0, sysInfo⟩ = .ok (0, st) ∧
      Discovered k m tree.rootBridgeList regs ls st := by
  have hprobed := probed_of_load hload
  have hnames := length_name_of_createSysfsPciTree mem ps address dirs htree
  obtain ⟨lbas, sysInfo', hrun, hmade⟩ := @addLbas_madeBy ps tree.rootBridgeList es
    (fun e he => (hmemory e he).1) ⟨[], 0, sysInfo⟩
  have hcount : (lbaEntries es).countP (·.memory.attrib) = (lbaEntries es).length :=
    List.countP_eq_length.mpr fun e he => (hmemory e he).2
  refine ⟨_, by rw [initLbas, hrun]; rfl, hprobed, ?_, ?_⟩
  · show 0 + (lbaEntries es).countP (·.memory.attrib) = _
    rw [hcount, Nat.zero_add, ← hes.length_eq, hls.length_eq, hprobed.length_eq]
  · show List.Forall₂ _ ls ([] ++ lbas)
    rw [List.nil_append, List.forall₂_iff_get]
    refine ⟨hes.length_eq.trans hmade.length_eq, fun i hl hlba => ?_⟩
    have he : i < (lbaEntries es).length := hes.length_eq ▸ hl
    have hmem : ls.get ⟨i, hl⟩ ∈ m.lbaList := hls.mem_iff.mp (List.get_mem _ _)
    obtain ⟨j, hj, hjl⟩ := List.getElem_of_mem hmem
    have hjn : j < (k.visits.filter fun node => decide node.Registers).length :=
      hprobed.length_eq ▸ hj
    have hfrom := hprobed.get hjn hj
    obtain ⟨id, hid, hclass⟩ := hfrom.classId
    have hnode := List.mem_of_mem_filter (List.get_mem _ ⟨j, hjn⟩)
    rw [List.get_eq_getElem, List.get_eq_getElem, hjl] at hfrom
    rw [List.get_eq_getElem, hjl] at hclass
    exact ⟨_, hnode, hfrom, id, hid, presents_of_serves hnames (hvalid _ hnode id hid) hclass
      (hes.get hl he) (hmemory _ (List.get_mem _ _)).2 (hmade.get he hlba)⟩

/-- A Mercury in conventional mode, and an Apollo. -/
def mercury0 : Regs 64 := fun offset => if offset = 0x00 then 0x122e0000 else 0
def apollo0 : Regs 64 := fun offset => if offset = 0x00 then 0x40370000 else 0

/-- A device, with nothing in the way of its probe. -/
def nodeOf (regs : Regs 64) (id : AcpiPciId) : AcpiNode :=
  ⟨some regs, 0, some id, true, .notFound, 0⟩

/-- A machine with these LBAs, and a device between them that is none. -/
def twoLbasKernel : Kernel where
  linuxVersionCode := KERNEL_VERSION 2 6 27
  classRegister := 0
  classInterfaceRegister := 0
  acpiGetDevices pnpid :=
    if pnpid = "HWP0002".toList then
      [nodeOf mercury0 ⟨0, 0x40, 0, 0⟩, nodeOf (fun _ => 0) ⟨0, 0x48, 0, 0⟩]
    else if pnpid = "HWP0003".toList then [nodeOf apollo0 ⟨1, 0x50, 0, 0⟩]
    else []

/-- Their objects, as `lba_probe` fills them in. -/
def probed0 : ProbedLba :=
  ⟨⟨.unk, mercury0⟩, 0, registerHplbaDevice (zeroed BUS_ID_SIZE) ⟨0, 0x40, 0, 0⟩, 0, .mercury⟩
def probed1 : ProbedLba :=
  ⟨⟨.unk, apollo0⟩, 1, registerHplbaDevice (zeroed BUS_ID_SIZE) ⟨1, 0x50, 0, 0⟩, 0, .apollo⟩

/-- The registers of the objects, by number. -/
def twoRegs (n : ℕ) : Regs 64 := if n = 0 then mercury0 else apollo0

/-- The entry of an object. -/
def entryOf (l : ProbedLba) : LbaEntry where
  dName := cstr l.classId
  memory := ⟨true, true, true, fun _ => ⟨true, true, true⟩⟩
  pciId := ⟨0, 0, 0, 0⟩
  busMode := .data (busOpModeShow Driver.busOpModesTab [] l.ops (twoRegs l.lba))
  busSpeed := .data (busSpeedShow Driver.busSpeedsTab [] l.ops (twoRegs l.lba))
  functionId := .data (functionIdShow (twoRegs l.lba))
  revision := .data (revisionShow l.ops (twoRegs l.lba))
  ropes := .data (ropesShow l.ops (twoRegs l.lba))

theorem serves_entryOf (l : ProbedLba) : Serves [] (twoRegs l.lba) l (entryOf l) :=
  ⟨rfl, rfl, rfl, rfl, rfl, rfl⟩

theorem hplbaInit_twoLbasKernel :
    ∃ m, twoLbasKernel.hplbaInit = .ok (0, m) ∧ m.lbaList = [probed0, probed1] := ⟨_, rfl, rfl⟩

/-- The address of the node an LBA is of. -/
theorem id_of_probedFrom {node : AcpiNode} (hnode : node ∈ twoLbasKernel.visits) {l : ProbedLba}
    (h : ProbedFrom node l) {id : AcpiPciId} (hid : id ∈ node.acpiGetPciId) :
    id ∈ [⟨0, 0x40, 0, 0⟩, ⟨0, 0x48, 0, 0⟩, ⟨1, 0x50, 0, 0⟩] ∧
      l.classId = registerHplbaDevice (zeroed BUS_ID_SIZE) id := by
  constructor
  · have hall : ∀ node ∈ twoLbasKernel.visits, ∀ id ∈ node.acpiGetPciId,
        id ∈ [⟨0, 0x40, 0, 0⟩, ⟨0, 0x48, 0, 0⟩, (⟨1, 0x50, 0, 0⟩ : AcpiPciId)] := by decide
    exact hall node hnode id hid
  · obtain ⟨id', hid', hclass⟩ := h.classId
    obtain rfl := Option.some.inj (hid'.symm.trans hid)
    exact hclass

/-- The directory has the LBAs in the order other than that of the probe. -/
theorem initLbas_of_load_twoLbas : ∃ st lba lba',
    initLbas ⟨4096, le_rfl⟩ [bridgeOf ⟨0, 0x40⟩, bridgeOf ⟨1, 0x50⟩]
        (some [entryOf probed1, entryOf probed0]) ⟨[], 0, integrityInitSysInfo⟩ = .ok (0, st) ∧
      st.numLba = 2 ∧ st.hostLbaList = [lba, lba'] ∧
      lba.sysfsRootBridge = some (bridgeOf ⟨1, 0x50⟩) ∧ lba.busType = some "PCIe".toList ∧
      lba'.sysfsRootBridge = some (bridgeOf ⟨0, 0x40⟩) ∧ lba'.busType = some "PCI".toList := by
  obtain ⟨m, hload, hlist⟩ := hplbaInit_twoLbasKernel
  have hvisits : twoLbasKernel.visits = [nodeOf mercury0 ⟨0, 0x40, 0, 0⟩,
      nodeOf (fun _ => 0) ⟨0, 0x48, 0, 0⟩, nodeOf apollo0 ⟨1, 0x50, 0, 0⟩] := rfl
  have hvalid : ∀ node ∈ twoLbasKernel.visits, ∀ id ∈ node.acpiGetPciId, id.Valid := by
    rw [hvisits]
    simp only [nodeOf, List.forall_mem_cons, Option.mem_some, forall_eq', List.not_mem_nil,
      false_implies, implies_true, and_true]
    exact ⟨⟨by decide, by decide, by decide⟩, ⟨by decide, by decide, by decide⟩,
      ⟨by decide, by decide, by decide⟩⟩
  have htree : createSysfsPciTree PciMemory.plenty ⟨4096, le_rfl⟩ (zeroed SLOT_ADDRESS_LEN)
      ⟨some ["pci0000:40".toList, "pci0001:50".toList], some [], some []⟩ =
        .ok ⟨[bridgeOf ⟨0, 0x40⟩, bridgeOf ⟨1, 0x50⟩], [], []⟩ := rfl
  have hes : List.Forall₂ (fun l e => Serves [] (twoRegs l.lba) l e) [probed1, probed0]
      (lbaEntries [entryOf probed1, entryOf probed0]) :=
    .cons (serves_entryOf probed1) (.cons (serves_entryOf probed0) .nil)
  have hmemory : ∀ e ∈ lbaEntries [entryOf probed1, entryOf probed0],
      e.Fits ∧ e.memory.attrib = true := by
    intro e he
    have hall : ∀ e ∈ [entryOf probed1, entryOf probed0], e.Fits ∧ e.memory.attrib = true := by
      simp only [List.forall_mem_cons, List.not_mem_nil, false_implies, implies_true, and_true]
      exact ⟨⟨⟨rfl, rfl⟩, rfl⟩, ⟨rfl, rfl⟩, rfl⟩
    exact hall e (List.mem_of_mem_filter he)
  have hls : [probed1, probed0].Perm m.lbaList := by
    rw [hlist]
    exact .swap _ _ _
  obtain ⟨st, hrun, hst⟩ :=
    initLbas_of_load hload hvalid htree hls hes hmemory integrityInitSysInfo
  obtain ⟨lba, lbas, ⟨node, hnode, hfrom, id, hid, hlba⟩, hrest, heq⟩ :=
    List.forall₂_cons_left_iff.mp hst.listed
  obtain ⟨lba', lbas', ⟨node', hnode', hfrom', id', hid', hlba'⟩, hnil, rfl⟩ :=
    List.forall₂_cons_left_iff.mp hrest
  obtain rfl := List.forall₂_nil_left_iff.mp hnil
  have hid1 : id = ⟨1, 0x50, 0, 0⟩ := by
    obtain ⟨hmem, hclass⟩ := id_of_probedFrom hnode hfrom hid
    clear hlba hid
    decide +revert
  have hid0 : id' = ⟨0, 0x40, 0, 0⟩ := by
    obtain ⟨hmem, hclass⟩ := id_of_probedFrom hnode' hfrom' hid'
    clear hlba' hid'
    decide +revert
  subst hid1 hid0
  exact ⟨st, lba, lba', hrun, hst.numLba, heq, hlba.bridge.trans rfl, hlba.busType.trans rfl,
    hlba'.bridge.trans rfl, hlba'.busType.trans rfl⟩

end Pcitop.System
