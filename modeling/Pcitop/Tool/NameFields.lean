import Pcitop.Common.Arrays
import Pcitop.Tool.Attributes
import Pcitop.Tool.Interface
import Pcitop.Tool.SlotBuses

/-!
# Names in arrays of fixed size

Four arrays of the tool are filled from names of directory entries and from the text of an
attribute: the names of buses and slots and the revision of an LBA by `strncpy` with the size
of the array, and `netname` by `%s`. The first three are left without a terminator by a
text that fills them, and the last is written past its end.

* `sound_iff`: a copy is sound exactly when the text is shorter than the array.
* `exists_of_mem_busList`, `exists_of_mem_slotList`, `exists_of_mem_hostLbaList`: the names in
  the lists of the tool are those that the copies leave.
* `nul_mem_names`: with short names every name of a tree is a terminated string.
* `findInEntries_netname_iff`: `netname` is written past its end where its copy is not sound.
-/

namespace Pcitop.Tool

open Pcitop.Common

/-! ## Model -/

/-- The copies, each with what it is made from. -/
inductive NameCopy where
  /-- `strncpy(bus->name, …)` (`pci_sysfs.c`, line 126) -/
  | busName (dName : CString)
  /-- `strncpy(slot->name, …)` (`pci_sysfs.c`, line 175) -/
  | slotName (dName : CString)
  /-- `strncpy(lba->revision, …)` (`pcitop.c`, line 662) -/
  | revision (ps : PageSize) (e : LbaEntry)
  /-- `sscanf(…, "net:%s", netname)` (`pcitop.c`, line 341) -/
  | netname (dName : CString)

/-- The size of the array. -/
def NameCopy.size : NameCopy → ℕ
  | .busName _ => BUS_NAME_LEN
  | .slotName _ => SLOT_NAME_LEN
  | .revision _ _ => REV_LEN
  | .netname _ => NETNAME_SIZE

/-- The page `attrib` of `init_lba` when the revision is copied (lines 647–661). -/
def revisionAttrib (ps : PageSize) (e : LbaEntry) : CString :=
  let attrib := zeroed ps
  let attrib := readLbaAttribute ps e.busMode attrib
  let attrib := readLbaAttribute ps e.busSpeed attrib
  let attrib := readLbaAttribute ps e.functionId attrib
  readLbaAttribute ps e.revision attrib

/-- The bytes that a copy stores from the start of its array on; none when `sscanf` assigns
    nothing. -/
def NameCopy.stored : NameCopy → Option CString
  | .busName dName => some (strncpyBytes dName BUS_NAME_LEN)
  | .slotName dName => some (strncpyBytes dName SLOT_NAME_LEN)
  | .revision ps e => some (strncpyBytes (revisionAttrib ps e) REV_LEN)
  | .netname dName =>
    match sscanf netFmt dName with
    | [.str word] => some (scanBytes word)
    | _ => none

/-- After the copy, its array at `p` holds a terminated string and no byte is stored
    behind it. -/
def NameCopy.Sound (c : NameCopy) (mem : Memory) (p : ℕ) : Prop :=
  ∀ bytes ∈ c.stored, Fills mem p c.size bytes

/-! ## The texts -/

/-- The text of the last file that could be read, of which the last comes first. -/
def lastText (ps : PageSize) : List FileRead → CString
  | [] => []
  | .data bytes :: _ => attributeText ps bytes
  | _ :: files => lastText ps files

/-- The word behind `net:` and white space, if there is one. -/
def netWord (dName : CString) : Option CString :=
  if netPrefix <+: cstr dName then
    let word := (((cstr dName).drop netPrefix.length).dropWhile isspace).takeWhile
      (fun c => !isspace c)
    if word = [] then none else some word
  else none

/-- The text that is copied: a name, the revision of the LBA (or the text read last before
    it, when it cannot be read), or the name of an interface. -/
def NameCopy.text : NameCopy → Option CString
  | .busName dName => some (cstr dName)
  | .slotName dName => some (cstr dName)
  | .revision ps e => some (lastText ps [e.revision, e.functionId, e.busSpeed, e.busMode])
  | .netname dName => netWord dName

theorem revisionAttrib_eq (ps : PageSize) (e : LbaEntry) :
    revisionAttrib ps e = lastPage ps [e.revision, e.functionId, e.busSpeed, e.busMode] := by
  simp only [← readLbaAttribute_lastPage]
  rfl

/-- The characters of the page that a revision has room for. -/
theorem take_cstr_lastPage (ps : PageSize) (files : List FileRead) :
    (cstr (lastPage ps files)).take REV_LEN = (lastText ps files).take REV_LEN := by
  induction files with
  | nil =>
    have hnil : cstr (zeroed ps) = [] := cstr_append_replicate List.not_mem_nil ps
    rw [lastPage, lastText, hnil]
  | cons file files ih =>
    cases file with
    | data bytes => exact take_cstr_readAttribute ps bytes _ ps.2 (by decide)
    | noMemory => exact ih
    | noOpen => exact ih
    | noRead => exact ih

theorem strlen_lastPage_lt_iff (ps : PageSize) (files : List FileRead) :
    strlen (lastPage ps files) < REV_LEN ↔ (lastText ps files).length < REV_LEN := by
  have hlength := congrArg List.length (take_cstr_lastPage ps files)
  rw [List.length_take, List.length_take] at hlength
  rw [strlen]
  omega

/-- `"net:%s"` reads the word. -/
theorem sscanf_netFmt_eq (dName : CString) :
    sscanf netFmt dName = ((netWord dName).map Value.str).toList := by
  unfold netWord
  by_cases hp : netPrefix <+: cstr dName
  · obtain ⟨s, hs⟩ := hp
    rw [if_pos ⟨s, hs⟩, sscanf, netFmt, ← hs, runDirectives_lits, List.drop_left]
    simp only [runDirectives, Conv.scan, Option.getD_none, List.take_length]
    split_ifs <;> rfl
  · rw [if_neg hp]
    exact runDirectives_lits_of_not_prefix hp _

theorem stored_netname (dName : CString) :
    (NameCopy.netname dName).stored = (netWord dName).map scanBytes := by
  rw [NameCopy.stored, sscanf_netFmt_eq]
  cases netWord dName with
  | none => rfl
  | some word => rfl

/-! ## When a copy is sound -/

/-- A copy that stores some bytes is sound when they fill its array. -/
theorem sound_iff_fills {c : NameCopy} {bytes : CString} (h : c.stored = some bytes)
    (mem : Memory) (p : ℕ) : c.Sound mem p ↔ Fills mem p c.size bytes := by
  rw [NameCopy.Sound, h]
  simp only [Option.mem_some_iff, forall_eq']

theorem sound_busName_iff (dName : CString) (mem : Memory) (p : ℕ) :
    (NameCopy.busName dName).Sound mem p ↔ strlen dName < BUS_NAME_LEN :=
  (sound_iff_fills rfl mem p).trans (fills_strncpyBytes_iff mem p BUS_NAME_LEN dName)

theorem sound_slotName_iff (dName : CString) (mem : Memory) (p : ℕ) :
    (NameCopy.slotName dName).Sound mem p ↔ strlen dName < SLOT_NAME_LEN :=
  (sound_iff_fills rfl mem p).trans (fills_strncpyBytes_iff mem p SLOT_NAME_LEN dName)

theorem sound_revision_iff (ps : PageSize) (e : LbaEntry) (mem : Memory) (p : ℕ) :
    (NameCopy.revision ps e).Sound mem p ↔
      (lastText ps [e.revision, e.functionId, e.busSpeed, e.busMode]).length < REV_LEN := by
  rw [← strlen_lastPage_lt_iff, ← revisionAttrib_eq]
  exact (sound_iff_fills rfl mem p).trans (fills_strncpyBytes_iff mem p REV_LEN _)

theorem sound_netname_iff (dName : CString) (mem : Memory) (p : ℕ) :
    (NameCopy.netname dName).Sound mem p ↔
      ∀ word ∈ netWord dName, word.length < NETNAME_SIZE := by
  cases hword : netWord dName with
  | none =>
    rw [NameCopy.Sound, stored_netname, hword]
    simp
  | some word =>
    have hstored : (NameCopy.netname dName).stored = some (scanBytes word) := by
      rw [stored_netname, hword]
      rfl
    rw [sound_iff_fills hstored]
    simp only [Option.mem_some_iff, forall_eq']
    exact fills_scanBytes_iff mem p NETNAME_SIZE word

/-- The array holds a string and nothing is stored behind it, if and only if the text is
    shorter than the array. -/
theorem sound_iff (c : NameCopy) (mem : Memory) (p : ℕ) :
    c.Sound mem p ↔ ∀ text ∈ c.text, text.length < c.size := by
  have hsome : ∀ (text : CString) (n : ℕ), (∀ t ∈ some text, t.length < n) ↔ text.length < n := by
    simp
  cases c with
  | busName dName => exact (sound_busName_iff dName mem p).trans (hsome _ _).symm
  | slotName dName => exact (sound_slotName_iff dName mem p).trans (hsome _ _).symm
  | revision ps e => exact (sound_revision_iff ps e mem p).trans (hsome _ _).symm
  | netname dName => exact sound_netname_iff dName mem p

/-- A bus of the domain `10000` has a name of eight characters. -/
theorem not_sound_busName : ¬ (NameCopy.busName "10000:00".toList).Sound (fun _ => nul) 0 := by
  rw [sound_busName_iff]
  decide

/-! ## The lists of the tool -/

theorem stored_busName (bridges : List SysfsRootBridge) (dName rootBridgeName : CString) :
    (NameCopy.busName dName).stored = some (newBus bridges dName rootBridgeName).name := by
  rw [newBus, strncpy_zeroed]
  rfl

theorem stored_slotName (dName : CString) (bus : SysfsBus) :
    (NameCopy.slotName dName).stored = some (newSlot dName bus).name := by
  rw [newSlot, strncpy_zeroed]
  rfl

theorem stored_of_busOf {bridges : List SysfsRootBridge} {e : BusEntry} {bus : SysfsBus}
    (h : busOf bridges e = some bus) : (NameCopy.busName e.dName).stored = some bus.name := by
  unfold busOf at h
  split_ifs at h
  split at h
  · exact absurd h (by simp)
  · split at h
    · rw [← Option.some.inj h]
      exact stored_busName bridges e.dName _
    · exact absurd h (by simp)

section Tree

variable {mem : PciMemory} {ps : PageSize} {address : CString} {dirs : PciDirs} {tree : PciTree}

/-- The lists of a tree, from the snapshot of the directories. -/
theorem lists_of_createSysfsPciTree (h : createSysfsPciTree mem ps address dirs = .ok tree) :
    tree.busList = (snapshotBuses mem dirs).map Prod.snd ∧
      tree.slotList =
        (snapshotAttachments mem ps address dirs).map fun q => newSlot q.1.dName q.2.2 := by
  by_cases hroot : ∀ q ∈ snapshotAttachments mem ps address dirs, q.2.2.rootBridge.isSome
  · rw [createSysfsPciTree_ok mem ps address dirs hroot] at h
    obtain rfl := Except.ok.inj h
    exact ⟨rfl, rfl⟩
  · rw [createSysfsPciTree_error mem ps address dirs hroot] at h
    exact absurd h (by simp)

/-- The name of a bus is the one copied from an entry. -/
theorem exists_of_mem_busList (h : createSysfsPciTree mem ps address dirs = .ok tree)
    {bus : SysfsBus} (hbus : bus ∈ tree.busList) :
    ∃ e ∈ dirs.pciBus.getD [], (NameCopy.busName e.dName).stored = some bus.name := by
  rw [(lists_of_createSysfsPciTree h).1] at hbus
  obtain ⟨q, hq, rfl⟩ := List.mem_map.mp hbus
  have hmem := of_mem_busEntries hq
  exact ⟨q.1, hmem.1, stored_of_busOf hmem.2⟩

/-- So is the name of a slot. -/
theorem exists_of_mem_slotList (h : createSysfsPciTree mem ps address dirs = .ok tree)
    {slot : SysfsSlot} (hslot : slot ∈ tree.slotList) :
    ∃ e ∈ dirs.slots.getD [], (NameCopy.slotName e.dName).stored = some slot.name := by
  rw [(lists_of_createSysfsPciTree h).2] at hslot
  obtain ⟨q, hq, rfl⟩ := List.mem_map.mp hslot
  exact ⟨q.1, (of_mem_attachments _ _ hq).1, stored_slotName q.1.dName q.2.2⟩

/-- With names shorter than the arrays every name of the tree is a terminated string. -/
theorem nul_mem_names (h : createSysfsPciTree mem ps address dirs = .ok tree)
    (hbuses : ∀ e ∈ dirs.pciBus.getD [], strlen e.dName < BUS_NAME_LEN)
    (hslots : ∀ e ∈ dirs.slots.getD [], strlen e.dName < SLOT_NAME_LEN) :
    (∀ bus ∈ tree.busList, nul ∈ bus.name) ∧ ∀ slot ∈ tree.slotList, nul ∈ slot.name := by
  constructor
  · intro bus hbus
    obtain ⟨e, he, hstored⟩ := exists_of_mem_busList h hbus
    rw [← Option.some.inj hstored, nul_mem_strncpyBytes_iff]
    exact hbuses e he
  · intro slot hslot
    obtain ⟨e, he, hstored⟩ := exists_of_mem_slotList h hslot
    rw [← Option.some.inj hstored, nul_mem_strncpyBytes_iff]
    exact hslots e he

end Tree

/-! ## The list of LBAs -/

/-- `find_lba_location_info` leaves the revision alone. -/
theorem revision_findLbaLocationInfo (bridges : List SysfsRootBridge) (mem : ℕ → SysInfoMemory)
    (lba : LbaInfo) (sysInfo : IntegritySysInfo) :
    (findLbaLocationInfo bridges mem lba sysInfo).2.1.revision = lba.revision := by
  unfold findLbaLocationInfo
  cases getSysfsRootBridge bridges lba.name with
  | none => rfl
  | some bridge => rfl

/-- The revision of an LBA is the one copied, or still cleared when there was no memory for
    the page. -/
theorem MadeBy.revision {ps : PageSize} {bridges : List SysfsRootBridge} {e : LbaEntry}
    {lba : LbaInfo} (h : MadeBy ps bridges e lba) :
    lba.revision = zeroed REV_LEN ∨ (NameCopy.revision ps e).stored = some lba.revision := by
  obtain ⟨numLba, numLba', lba₀, sysInfo, hinit, rfl⟩ := h
  rw [revision_findLbaLocationInfo]
  have hfits := fits_of_initLba hinit
  by_cases ha : e.memory.attrib = true
  · right
    obtain ⟨lba, hlba, -, -, -, hrevision, -⟩ := initLba_attributes hfits ha ps numLba
    obtain ⟨rfl, -⟩ := by simpa using hlba.symm.trans hinit
    rw [hrevision, revisionOf, strncpy_zeroed, ← revisionAttrib_eq]
    rfl
  · left
    rw [Bool.not_eq_true] at ha
    unfold initLba at hinit
    rw [hfits.1, hfits.2, ha] at hinit
    obtain ⟨rfl, -⟩ := by simpa using hinit
    rfl

/-- The LBAs of the list have such revisions. -/
theorem exists_of_mem_hostLbaList {ps : PageSize} {bridges : List SysfsRootBridge}
    {es : List LbaEntry} {sysInfo : IntegritySysInfo} {ret : ℤ} {st : LbaState}
    (h : initLbas ps bridges (some es) ⟨[], 0, sysInfo⟩ = .ok (ret, st)) {lba : LbaInfo}
    (hlba : lba ∈ st.hostLbaList) :
    lba.revision = zeroed REV_LEN ∨
      ∃ e ∈ es, (NameCopy.revision ps e).stored = some lba.revision := by
  by_cases hfits : ∀ e ∈ lbaEntries es, e.Fits
  · obtain ⟨lbas, sysInfo', hrun, hmade⟩ := addLbas_madeBy hfits ⟨[], 0, sysInfo⟩
    rw [initLbas, hrun] at h
    obtain ⟨-, rfl⟩ := Prod.mk.inj (Except.ok.inj h)
    obtain ⟨i, hi, rfl⟩ := List.getElem_of_mem hlba
    have hi' : i < (lbaEntries es).length := hmade.length_eq ▸ hi
    have he : (lbaEntries es)[i] ∈ es := List.mem_of_mem_filter (List.getElem_mem hi')
    exact (hmade.get hi' hi).revision.imp_right fun hstored => ⟨_, he, hstored⟩
  · rw [initLbas] at h
    obtain hnull | hexit := @addLbas_of_not_fits ps bridges es hfits ⟨[], 0, sysInfo⟩
    · rw [hnull] at h
      exact absurd h (by simp [Except.map])
    · rw [hexit] at h
      exact absurd h (by simp [Except.map])

/-! ## `find_interface_in_dir` -/

/-- One entry of the loop. -/
theorem findInEntries_cons (ifname : CString) (e : DirEntry) (es : List DirEntry) :
    findInEntries ifname (e :: es) =
      match netWord e.name with
      | some word =>
        if NETNAME_SIZE ≤ word.length then .error .netname
        else if streq word ifname then .ok 1
        else findInEntries ifname es
      | none => findInEntries ifname es := by
  rw [findInEntries, sscanf_netFmt_eq]
  cases netWord e.name with
  | none => rfl
  | some word => rfl

/-- The loop ends at an entry: its word is that of the interface, or has no room. -/
def endsSearch (ifname : CString) (e : DirEntry) : Bool :=
  (netWord e.name).any fun word => decide (NETNAME_SIZE ≤ word.length) || streq word ifname

/-- The loop writes past `netname` when the copy of the entry at which it ends is not
    sound. -/
theorem findInEntries_netname_iff (mem : Memory) (p : ℕ) (ifname : CString)
    (es : List DirEntry) :
    findInEntries ifname es = .error .netname ↔
      ∃ e, es.find? (endsSearch ifname) = some e ∧ ¬ (NameCopy.netname e.name).Sound mem p := by
  induction es with
  | nil => simp [findInEntries]
  | cons e es ih =>
    have hsound := sound_netname_iff e.name mem p
    rw [findInEntries_cons, List.find?_cons, endsSearch]
    cases hword : netWord e.name with
    | none => exact ih
    | some word =>
      simp only [hword, Option.mem_some_iff, forall_eq'] at hsound
      simp only [Option.any_some]
      by_cases hsize : NETNAME_SIZE ≤ word.length
      · simp [hsize, hsound]
      · by_cases hmatch : streq word ifname = true
        · simp [hsize, hmatch, hsound, not_le.mp hsize]
        · simp only [if_neg hsize, if_neg hmatch, decide_eq_false hsize, Bool.false_or]
          rw [Bool.not_eq_true] at hmatch
          rw [hmatch]
          exact ih

end Pcitop.Tool
