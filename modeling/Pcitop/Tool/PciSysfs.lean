import Pcitop.Common.Scanf
import Pcitop.Tool.Util

/-!
# The PCI tree of the tool

Model of `src/pci_sysfs.c`: the lists of root bridges, buses and slots built from
three directories of sysfs. A directory is the list of its entries in the order
`readdir` returns them, `none` when `opendir` fails. A `struct sysfs_root_bridge *`
is an index into `root_bridge_list`, and `none` is NULL. A call of `calloc` fails
or not depending on the directory entry it is made for.

* `addRootBridges_eq`, `addBuses_eq`: with memory, the first two lists are made
  entry by entry.
* `addSlots_eq`: the slots listed are those before the first entry that has no
  bus or no memory, each attached to the bridge of its bus.
* `getElem?_attach`: a bridge holds its slots in the order they were attached.
-/

namespace Pcitop.Tool

open Pcitop.Common

/-- `ROOT_BRIDGE_NAME_LEN`, `BUS_NAME_LEN`, `SLOT_NAME_LEN` and
    `SLOT_ADDRESS_LEN` (`pci_sysfs.h`, lines 28–31). -/
def ROOT_BRIDGE_NAME_LEN : ℕ := 8
def BUS_NAME_LEN : ℕ := 8
def SLOT_NAME_LEN : ℕ := 20
def SLOT_ADDRESS_LEN : ℕ := 11

/-- `struct sysfs_bus` (`pci_sysfs.h`, lines 52–57). -/
structure SysfsBus where
  name : CString
  rootBridge : Option ℕ
  deriving DecidableEq, Repr

/-- `struct sysfs_slot` (`pci_sysfs.h`, lines 44–50). No function reads or writes its
    `address`. -/
structure SysfsSlot where
  name : CString
  bus : SysfsBus
  deriving DecidableEq, Repr

/-- `struct sysfs_root_bridge` (`pci_sysfs.h`, lines 37–42). -/
structure SysfsRootBridge where
  name : CString
  slots : List SysfsSlot
  deriving DecidableEq, Repr

/-- An entry of `/sys/class/pci_bus`: whether `stat` of its `device` succeeds, and
    what `readlink` returns for its `device` and its `bridge`. -/
structure BusEntry where
  dName : CString
  deviceStat : Bool
  deviceLink : Option CString
  bridgeLink : Option CString
  deriving DecidableEq, Repr

/-- An entry of `/sys/bus/pci/slots` and what reading its `address` meets. -/
structure SlotEntry where
  dName : CString
  address : FileRead
  deriving DecidableEq, Repr

/-- The entries every loop over a directory skips. -/
def isSkipped (dName : CString) : Bool :=
  strlen dName == 0 || streq dName ".".toList || streq dName "..".toList

/-! ## `create_root_bridge_list` -/

/-- `"pci%4x:%2x"`. -/
def rootBridgeFmt : List Directive :=
  lits "pci".toList ++ [.conv (.x (some 4)), .lit ':', .conv (.x (some 2))]

/-- `calloc` and `snprintf(root_bridge->name, …, "%04x:%02x", domain, bus_id)`. -/
def newRootBridge (domain busId : BitVec 32) : SysfsRootBridge where
  name := snprintf (zeroed ROOT_BRIDGE_NAME_LEN) ROOT_BRIDGE_NAME_LEN
    (hexPad 4 domain.toNat ++ ':' :: hexPad 2 busId.toNat)
  slots := []

/-- The loop of `create_root_bridge_list` (lines 54–71): the return value, and
    `root_bridge_list` after it. -/
def addRootBridges (calloc : CString → Bool) :
    List CString → List SysfsRootBridge → ℤ × List SysfsRootBridge
  | [], l => (0, l)
  | dName :: ds, l =>
    if isSkipped dName then addRootBridges calloc ds l
    else
      match sscanf rootBridgeFmt dName with
      | [.uint domain, .uint busId] =>
        if calloc dName then addRootBridges calloc ds (l ++ [newRootBridge domain busId])
        else (1, l)
      | _ => addRootBridges calloc ds l

/-- `create_root_bridge_list` (lines 39–78) over `/sys/devices`. -/
def createRootBridgeList (calloc : CString → Bool) (dir : Option (List CString)) :
    ℤ × List SysfsRootBridge :=
  match dir with
  | none => (1, [])
  | some ds => addRootBridges calloc ds []

/-! ## `create_pci_bus_list` -/

/-- `"../../../devices/pci%7s"`. -/
def busFmt : List Directive := lits "../../../devices/pci".toList ++ [.conv (.s (some 7))]

/-- The link read for an entry: `device` if it is there, else `bridge`. -/
def busLink (e : BusEntry) : Option CString :=
  (if e.deviceStat then e.deviceLink else e.bridgeLink).map (·.take (PATH_MAX - 1))

/-- `calloc`, `strncpy(bus->name, …)` and the search for the root bridge. -/
def newBus (bridges : List SysfsRootBridge) (dName rootBridgeName : CString) : SysfsBus where
  name := strncpy (zeroed BUS_NAME_LEN) dName BUS_NAME_LEN
  rootBridge := bridges.findIdx? fun b => strneq rootBridgeName b.name ROOT_BRIDGE_NAME_LEN

/-- The loop of `create_pci_bus_list` (lines 102–136): the return value, and
    `bus_list` after it. -/
def addBuses (calloc : CString → Bool) (bridges : List SysfsRootBridge) :
    List BusEntry → List SysfsBus → ℤ × List SysfsBus
  | [], l => (0, l)
  | e :: es, l =>
    if isSkipped e.dName then addBuses calloc bridges es l
    else
      match busLink e with
      | none => addBuses calloc bridges es l
      | some deviceLink =>
        match sscanf busFmt deviceLink with
        | [.str rootBridgeName] =>
          if calloc e.dName then
            addBuses calloc bridges es (l ++ [newBus bridges e.dName rootBridgeName])
          else (1, l)
        | _ => addBuses calloc bridges es l

/-- `create_pci_bus_list` (lines 82–143) over `/sys/class/pci_bus`. -/
def createPciBusList (calloc : CString → Bool) (bridges : List SysfsRootBridge)
    (dir : Option (List BusEntry)) : ℤ × List SysfsBus :=
  match dir with
  | none => (1, [])
  | some es => addBuses calloc bridges es []

/-! ## `create_sysfs_slot_list` -/

/-- What the loop over the slots changes: the bridges with their slots,
    `slot_list`, and the array `address` on the stack. -/
structure SlotState where
  bridges : List SysfsRootBridge
  slotList : List SysfsSlot
  address : CString
  deriving DecidableEq, Repr

/-- `list_add_tail(&bridge->slots, …)`. -/
def addSlot (slot : SysfsSlot) (b : SysfsRootBridge) : SysfsRootBridge :=
  { b with slots := b.slots ++ [slot] }

/-- The slot made for an entry on a bus. -/
def newSlot (dName : CString) (bus : SysfsBus) : SysfsSlot where
  name := strncpy (zeroed SLOT_NAME_LEN) dName SLOT_NAME_LEN
  bus := bus

/-- The bus an address names: `strneq(address, bus->name, BUS_NAME_LEN - 1)`. -/
def findBus (buses : List SysfsBus) (address : CString) : Option SysfsBus :=
  buses.find? fun bus => strneq address bus.name (BUS_NAME_LEN - 1)

/-- The loop of `create_sysfs_slot_list` (lines 161–193). -/
def addSlots (calloc : CString → Bool) (ps : PageSize) (buses : List SysfsBus) :
    List SlotEntry → SlotState → Except Fault (ℤ × SlotState)
  | [], st => .ok (0, st)
  | e :: es, st =>
    if isSkipped e.dName then addSlots calloc ps buses es st
    else
      let st := { st with address := (readAttribute ps e.address st.address SLOT_ADDRESS_LEN).2 }
      if calloc e.dName then
        match findBus buses st.address with
        | none => .ok (1, st)
        | some bus =>
          let slot := newSlot e.dName bus
          match bus.rootBridge with
          | none => .error .nullBusRootBridge
          | some r =>
            addSlots calloc ps buses es { st with
              bridges := st.bridges.modify r (addSlot slot)
              slotList := st.slotList ++ [slot] }
      else .ok (1, st)

/-- `create_sysfs_slot_list` (lines 145–201) over `/sys/bus/pci/slots`; `address`
    is what its array holds on entry. -/
def createSysfsSlotList (calloc : CString → Bool) (ps : PageSize) (bridges : List SysfsRootBridge)
    (buses : List SysfsBus) (address : CString) (dir : Option (List SlotEntry)) :
    Except Fault (ℤ × SlotState) :=
  match dir with
  | none => .ok (1, ⟨bridges, [], address⟩)
  | some es => addSlots calloc ps buses es ⟨bridges, [], address⟩

/-! ## `create_sysfs_pci_tree` and `get_sysfs_root_bridge` -/

/-- The three directories. -/
structure PciDirs where
  devices : Option (List CString)
  pciBus : Option (List BusEntry)
  slots : Option (List SlotEntry)
  deriving DecidableEq, Repr

/-- The calls of `calloc` that succeed, by function and directory entry. -/
structure PciMemory where
  rootBridge : CString → Bool
  bus : CString → Bool
  slot : CString → Bool

/-- All allocations succeed. -/
def PciMemory.plenty : PciMemory := ⟨fun _ => true, fun _ => true, fun _ => true⟩

/-- `root_bridge_list`, `bus_list` and `slot_list`. -/
structure PciTree where
  rootBridgeList : List SysfsRootBridge
  busList : List SysfsBus
  slotList : List SysfsSlot
  deriving DecidableEq, Repr

/-- `create_sysfs_pci_tree` (lines 203–210). The return values of the three
    functions are dropped. -/
def createSysfsPciTree (mem : PciMemory) (ps : PageSize) (address : CString) (dirs : PciDirs) :
    Except Fault PciTree :=
  let bridges := (createRootBridgeList mem.rootBridge dirs.devices).2
  let buses := (createPciBusList mem.bus bridges dirs.pciBus).2
  match createSysfsSlotList mem.slot ps bridges buses address dirs.slots with
  | .error fault => .error fault
  | .ok (_, st) => .ok ⟨st.bridges, buses, st.slotList⟩

/-- `get_sysfs_root_bridge` (lines 212–230). -/
def getSysfsRootBridge (bridges : List SysfsRootBridge) (bridgeName : CString) :
    Option SysfsRootBridge :=
  bridges.find? fun bridge => strneq bridgeName bridge.name (ROOT_BRIDGE_NAME_LEN - 1)

/-- The loop over the slots fails in one way only. -/
theorem addSlots_fault {calloc : CString → Bool} {ps : PageSize} {buses : List SysfsBus}
    {es : List SlotEntry} {st : SlotState} {fault : Fault}
    (h : addSlots calloc ps buses es st = .error fault) : fault = .nullBusRootBridge := by
  induction es generalizing st with
  | nil => exact absurd h (by simp [addSlots])
  | cons e es ih =>
    rw [addSlots] at h
    split at h
    · exact ih h
    · simp only at h
      split at h
      · split at h
        · exact absurd h (by simp)
        · split at h
          · exact (Except.error.inj h).symm
          · exact ih h
      · exact absurd h (by simp)

theorem createSysfsPciTree_fault {mem : PciMemory} {ps : PageSize} {address : CString}
    {dirs : PciDirs} {fault : Fault}
    (h : createSysfsPciTree mem ps address dirs = .error fault) : fault = .nullBusRootBridge := by
  unfold createSysfsPciTree createSysfsSlotList at h
  simp only at h
  split at h
  · rename_i hslots
    obtain rfl := Except.error.inj h
    split at hslots
    · exact absurd hslots (by simp)
    · exact addSlots_fault hslots
  · exact absurd h (by simp)

theorem findBus_eq_some {buses : List SysfsBus} {address : CString} {bus : SysfsBus}
    (h : findBus buses address = some bus) :
    bus ∈ buses ∧ strneq address bus.name (BUS_NAME_LEN - 1) = true := by
  have hp := List.find?_some h
  exact ⟨List.mem_of_find?_eq_some h, hp⟩

/-! ## Root bridges and buses, entry by entry -/

/-- The root bridge an entry of `/sys/devices` gives. -/
def rootBridgeOf (dName : CString) : Option SysfsRootBridge :=
  if isSkipped dName then none
  else
    match sscanf rootBridgeFmt dName with
    | [.uint domain, .uint busId] => some (newRootBridge domain busId)
    | _ => none

theorem addRootBridges_eq {calloc : CString → Bool} {ds : List CString}
    (hmem : ∀ d ∈ ds, calloc d = true) (l : List SysfsRootBridge) :
    addRootBridges calloc ds l = (0, l ++ ds.filterMap rootBridgeOf) := by
  induction ds generalizing l with
  | nil => simp [addRootBridges]
  | cons d ds ih =>
    have ih := ih fun x hx => hmem x (List.mem_cons_of_mem _ hx)
    rw [addRootBridges, List.filterMap_cons, rootBridgeOf]
    by_cases hs : isSkipped d = true
    · simp [hs, ih]
    · simp only [hs, hmem d (by simp), if_true, Bool.false_eq_true, if_false]
      split <;> simp [ih]

/-- The bus an entry of `/sys/class/pci_bus` gives. -/
def busOf (bridges : List SysfsRootBridge) (e : BusEntry) : Option SysfsBus :=
  if isSkipped e.dName then none
  else
    match busLink e with
    | none => none
    | some deviceLink =>
      match sscanf busFmt deviceLink with
      | [.str rootBridgeName] => some (newBus bridges e.dName rootBridgeName)
      | _ => none

theorem addBuses_eq {calloc : CString → Bool} {bridges : List SysfsRootBridge}
    {es : List BusEntry} (hmem : ∀ e ∈ es, calloc e.dName = true) (l : List SysfsBus) :
    addBuses calloc bridges es l = (0, l ++ es.filterMap (busOf bridges)) := by
  induction es generalizing l with
  | nil => simp [addBuses]
  | cons e es ih =>
    have ih := ih fun x hx => hmem x (List.mem_cons_of_mem _ hx)
    rw [addBuses, List.filterMap_cons, busOf]
    by_cases hs : isSkipped e.dName = true
    · simp [hs, ih]
    · simp only [hs, hmem e (by simp), if_true, Bool.false_eq_true, if_false]
      cases busLink e with
      | none => simp [ih]
      | some link =>
        simp only
        split <;> simp [ih]

/-! ## Slots, entry by entry -/

/-- The address an entry's file shows is readable. -/
def FileRead.Reads : FileRead → Prop
  | .data _ => True
  | _ => False

/-- The text of a file that can be read. -/
def FileRead.text (ps : PageSize) : FileRead → CString
  | .data bytes => attributeText ps bytes
  | _ => []

/-- The bus an entry's own address names. -/
def SlotEntry.bus? (ps : PageSize) (buses : List SysfsBus) (e : SlotEntry) : Option SysfsBus :=
  findBus buses (e.address.text ps)

theorem findBus_congr {a b : CString} (buses : List SysfsBus)
    (h : (cstr a).take 7 = (cstr b).take 7) : findBus buses a = findBus buses b := by
  unfold findBus
  congr 1
  funext bus
  simp only [strneq, BUS_NAME_LEN, Nat.add_one_sub_one, h]

/-- With a readable address, a search that looks at seven characters does not depend on
    the array before. -/
theorem find_readAttribute (ps : PageSize) {β : Type} {find : CString → Option β}
    (hfind : ∀ a b, (cstr a).take 7 = (cstr b).take 7 → find a = find b) {e : SlotEntry}
    (h : e.address.Reads) (address : CString) :
    find (readAttribute ps e.address address SLOT_ADDRESS_LEN).2 = find (e.address.text ps) := by
  have hps := ps.2
  cases hf : e.address with
  | data bytes =>
    apply hfind
    rw [take_cstr_readAttribute ps bytes address (by simp [SLOT_ADDRESS_LEN]; omega)
      (by simp [SLOT_ADDRESS_LEN]), FileRead.text, cstr_eq_self (noNul_attributeText ps bytes)]
  | noMemory => rw [hf] at h; exact h.elim
  | noOpen => rw [hf] at h; exact h.elim
  | noRead => rw [hf] at h; exact h.elim

theorem findBus_readAttribute (ps : PageSize) (buses : List SysfsBus) {e : SlotEntry}
    (h : e.address.Reads) (address : CString) :
    findBus buses (readAttribute ps e.address address SLOT_ADDRESS_LEN).2 = e.bus? ps buses :=
  find_readAttribute ps (fun _ _ => findBus_congr buses) h address

/-- The slot of an entry with the bridge it belongs to. -/
def placement (ps : PageSize) (buses : List SysfsBus) (e : SlotEntry) :
    Option (SysfsSlot × ℕ) :=
  (e.bus? ps buses).bind fun bus => bus.rootBridge.map fun r => (newSlot e.dName bus, r)

/-- Slots attached to their bridges one after the other. -/
def attach (bridges : List SysfsRootBridge) (ps : List (SysfsSlot × ℕ)) : List SysfsRootBridge :=
  ps.foldl (fun bs p => bs.modify p.2 (addSlot p.1)) bridges

/-- A bridge holds the slots it had and those attached to it, in order. -/
theorem getElem?_attach (bridges : List SysfsRootBridge) (ps : List (SysfsSlot × ℕ)) (i : ℕ) :
    (attach bridges ps)[i]? = bridges[i]?.map fun b =>
      { b with slots := b.slots ++ (ps.filter fun p => p.2 = i).map Prod.fst } := by
  induction ps generalizing bridges with
  | nil =>
    simp only [attach, List.foldl_nil, List.filter_nil, List.map_nil, List.append_nil]
    cases bridges[i]? <;> rfl
  | cons p ps ih =>
    have ih := ih (bridges.modify p.2 (addSlot p.1))
    simp only [attach, List.foldl_cons] at ih ⊢
    rw [ih, List.getElem?_modify]
    by_cases hp : p.2 = i
    · simp only [hp, if_true, List.filter_cons, decide_true, List.map_cons]
      cases bridges[i]? <;> simp [addSlot]
    · simp only [hp, if_false, List.filter_cons, decide_false, Bool.false_eq_true]
      cases bridges[i]? <;> simp

/-- The entry does not end the loop: its memory is there and its address names a
    listed bus. -/
def Listed (calloc : CString → Bool) (ps : PageSize) (buses : List SysfsBus) (e : SlotEntry) :
    Bool :=
  calloc e.dName && (e.bus? ps buses).isSome

/-- The entries the loop deals with. -/
def slotEntries (es : List SlotEntry) : List SlotEntry := es.filter fun e => !isSkipped e.dName

theorem slotEntries_skipped {e : SlotEntry} (hs : isSkipped e.dName = true)
    (es : List SlotEntry) : slotEntries (e :: es) = slotEntries es := by
  rw [slotEntries, List.filter_cons, if_neg (by simp [hs])]
  rfl

theorem slotEntries_cons {e : SlotEntry} (hs : isSkipped e.dName = false)
    (es : List SlotEntry) : slotEntries (e :: es) = e :: slotEntries es := by
  rw [slotEntries, List.filter_cons, if_pos (by simp [hs])]
  rfl

/-- When every address can be read and every bus has a root bridge, the loop
    attaches the slots before the first entry that ends it. -/
theorem addSlots_eq (calloc : CString → Bool) {ps : PageSize} {buses : List SysfsBus}
    (hbus : ∀ b ∈ buses, b.rootBridge.isSome) {es : List SlotEntry}
    (hread : ∀ e ∈ slotEntries es, e.address.Reads) (st : SlotState) :
    ∃ ret st', addSlots calloc ps buses es st = .ok (ret, st') ∧
      st'.bridges = attach st.bridges
        (((slotEntries es).takeWhile (Listed calloc ps buses)).filterMap (placement ps buses)) := by
  induction es generalizing st with
  | nil => exact ⟨0, st, rfl, rfl⟩
  | cons e es ih =>
    rw [addSlots, slotEntries, List.filter_cons]
    by_cases hs : isSkipped e.dName = true
    · simpa [hs, slotEntries] using ih (by simpa [slotEntries, hs] using hread) st
    · have hent : slotEntries (e :: es) = e :: slotEntries es :=
        slotEntries_cons (by simpa using hs) es
      rw [hent] at hread
      have ih := ih fun x hx => hread x (List.mem_cons_of_mem _ hx)
      simp only [hs, if_false, Bool.not_false, if_true, List.takeWhile_cons,
        Listed, findBus_readAttribute ps buses (hread e (by simp)), Bool.false_eq_true]
      let addr := (readAttribute ps e.address st.address SLOT_ADDRESS_LEN).2
      by_cases hc : calloc e.dName = true
      · obtain hb | ⟨bus, hb⟩ := Option.eq_none_or_eq_some (e.bus? ps buses)
        · exact ⟨1, { st with address := addr }, by simp only [hc, hb, if_true]; rfl,
            by simp [hb, attach]⟩
        · have hmem : bus ∈ buses := List.mem_of_find?_eq_some hb
          obtain ⟨r, hr⟩ := Option.isSome_iff_exists.mp (hbus bus hmem)
          have hplace : placement ps buses e = some (newSlot e.dName bus, r) := by
            simp [placement, hb, hr]
          obtain ⟨ret, st', hrun, hst'⟩ := ih
            ⟨st.bridges.modify r (addSlot (newSlot e.dName bus)),
              st.slotList ++ [newSlot e.dName bus], addr⟩
          refine ⟨ret, st', by simpa only [hc, hb, hr, if_true] using hrun, ?_⟩
          rw [hst']
          simp [hc, hb, hplace, attach, slotEntries]
      · exact ⟨1, { st with address := addr }, by simp only [hc]; rfl, by simp [hc, attach]⟩

end Pcitop.Tool
