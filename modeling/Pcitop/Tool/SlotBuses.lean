import Pcitop.Tool.SlotTrace

/-!
# The buses of the slots

A slot is put on the first bus of `bus_list` whose name has the same seven characters
as its address, and on the root bridge of that bus. The names kept are cut to seven or
eight characters, and a bus stays in `bus_list` when no root bridge matched it.

* `createSysfsPciTree_ok`, `createSysfsPciTree_error`: the tree, or the NULL pointer
  followed, from the attachments of the slots.
* `slotsOnTheirBuses_iff`: the exact snapshots in which every slot is put on the bus
  whose whole name its address gives, and that bus has a root bridge.
-/

namespace Pcitop.Tool

open Pcitop.Common

/-! ## The buses with the entries they come from -/

/-- The entries of `/sys/class/pci_bus` that get into `bus_list`, with their buses. -/
def busEntries (calloc : CString → Bool) (bridges : List SysfsRootBridge) :
    List BusEntry → List (BusEntry × SysfsBus)
  | [] => []
  | e :: es =>
    match busOf bridges e with
    | none => busEntries calloc bridges es
    | some bus => if calloc e.dName then (e, bus) :: busEntries calloc bridges es else []

theorem addBuses_busEntries (calloc : CString → Bool) (bridges : List SysfsRootBridge)
    (es : List BusEntry) (l : List SysfsBus) :
    (addBuses calloc bridges es l).2 = l ++ (busEntries calloc bridges es).map Prod.snd := by
  induction es generalizing l with
  | nil => simp [addBuses, busEntries]
  | cons e es ih =>
    rw [addBuses, busEntries, busOf]
    by_cases hs : isSkipped e.dName = true
    · simp [hs, ih]
    · simp only [hs, Bool.false_eq_true, if_false]
      cases busLink e with
      | none => simp [ih]
      | some link =>
        simp only
        split
        · split_ifs with hc
          · simp [ih]
          · simp
        · simp [ih]

/-- The link of the entry leads to a root directory whose name is listed. -/
def LinksToListed (bridges : List SysfsRootBridge) (e : BusEntry) : Prop :=
  ∃ link rootBridgeName, busLink e = some link ∧ sscanf busFmt link = [.str rootBridgeName] ∧
    ∃ b ∈ bridges, strneq rootBridgeName b.name ROOT_BRIDGE_NAME_LEN = true

/-- A bus of `bus_list` has a root bridge when its link leads to one. -/
theorem rootBridge_isSome_iff {bridges : List SysfsRootBridge} {e : BusEntry} {bus : SysfsBus}
    (h : busOf bridges e = some bus) : bus.rootBridge.isSome ↔ LinksToListed bridges e := by
  rw [busOf] at h
  split_ifs at h with hs
  cases hl : busLink e with
  | none => rw [hl] at h; exact absurd h (by simp)
  | some link =>
    simp only [hl] at h
    split at h
    · rename_i name hname
      rw [← Option.some.inj h, newBus, List.findIdx?_isSome, List.any_eq_true]
      constructor
      · exact fun hb => ⟨link, name, hl, hname, hb⟩
      · rintro ⟨link', name', hl', hname', hb⟩
        obtain rfl := Option.some.inj (hl.symm.trans hl')
        rw [hname, List.cons.injEq, Value.str.injEq] at hname'
        rwa [hname'.1]
    · exact absurd h (by simp)

/-- A pair of the list is an entry of the directory with its bus. -/
theorem of_mem_busEntries {calloc : CString → Bool} {bridges : List SysfsRootBridge}
    {es : List BusEntry} {p : BusEntry × SysfsBus} (h : p ∈ busEntries calloc bridges es) :
    p.1 ∈ es ∧ busOf bridges p.1 = some p.2 := by
  induction es with
  | nil => exact absurd h (by simp [busEntries])
  | cons e es ih =>
    rw [busEntries] at h
    split at h
    · exact (ih h).imp_left (List.mem_cons_of_mem e)
    · rename_i bus hbus
      split_ifs at h
      · obtain rfl | h := List.mem_cons.mp h
        · exact ⟨List.mem_cons_self, hbus⟩
        · exact (ih h).imp_left (List.mem_cons_of_mem e)
      · exact absurd h (by simp)

/-! ## The attachments of a snapshot -/

/-- The entry, with its bus, found for an address. -/
def findEntry (buses : List (BusEntry × SysfsBus)) (address : CString) :
    Option (BusEntry × SysfsBus) :=
  buses.find? fun p => strneq address p.2.name (BUS_NAME_LEN - 1)

theorem findBus_map (buses : List (BusEntry × SysfsBus)) (address : CString) :
    findBus (buses.map Prod.snd) address = (findEntry buses address).map Prod.snd :=
  List.find?_map ..

theorem findEntry_congr {a b : CString} (buses : List (BusEntry × SysfsBus))
    (h : (cstr a).take 7 = (cstr b).take 7) : findEntry buses a = findEntry buses b := by
  unfold findEntry
  congr 1
  funext p
  simp only [strneq, BUS_NAME_LEN, Nat.add_one_sub_one, h]

section Snapshot

variable (mem : PciMemory) (ps : PageSize) (address : CString) (dirs : PciDirs)

/-- `root_bridge_list` before the slots. -/
def rootBridges : List SysfsRootBridge := (createRootBridgeList mem.rootBridge dirs.devices).2

/-- `bus_list`, with the entry of each bus. -/
def snapshotBuses : List (BusEntry × SysfsBus) :=
  busEntries mem.bus (rootBridges mem dirs) (dirs.pciBus.getD [])

/-- The slots attached by `create_sysfs_pci_tree`, in order, each with its bus. -/
def snapshotAttachments : List (SlotEntry × BusEntry × SysfsBus) :=
  attachments mem.slot ps (findEntry (snapshotBuses mem dirs)) (fun p => p.2.rootBridge)
    (dirs.slots.getD []) address

theorem createPciBusList_snapshot :
    (createPciBusList mem.bus (rootBridges mem dirs) dirs.pciBus).2 =
      (snapshotBuses mem dirs).map Prod.snd := by
  unfold createPciBusList snapshotBuses
  cases dirs.pciBus with
  | none => rfl
  | some es => exact addBuses_busEntries mem.bus _ es []

/-- The attachments of the loop of `create_sysfs_slot_list` are those of the snapshot. -/
theorem attachments_snapshot :
    attachments mem.slot ps (findBus ((snapshotBuses mem dirs).map Prod.snd))
        SysfsBus.rootBridge (dirs.slots.getD []) address =
      (snapshotAttachments mem ps address dirs).map (Prod.map id Prod.snd) :=
  attachments_map mem.slot ps (findBus_map _) (fun _ => rfl) _ _

/-- With a root bridge for every bus attached to, the tree holds the slots attached. -/
theorem createSysfsPciTree_ok
    (h : ∀ p ∈ snapshotAttachments mem ps address dirs, p.2.2.rootBridge.isSome) :
    createSysfsPciTree mem ps address dirs =
      .ok ⟨attach (rootBridges mem dirs) (placements
          ((snapshotAttachments mem ps address dirs).map (Prod.map id Prod.snd))),
        (snapshotBuses mem dirs).map Prod.snd,
        (snapshotAttachments mem ps address dirs).map fun p => newSlot p.1.dName p.2.2⟩ := by
  have hroot : ∀ p ∈ attachments mem.slot ps (findBus ((snapshotBuses mem dirs).map Prod.snd))
      SysfsBus.rootBridge (dirs.slots.getD []) address, p.2.rootBridge.isSome := by
    rw [attachments_snapshot, List.forall_mem_map]
    exact h
  rw [createSysfsPciTree, ← rootBridges, createPciBusList_snapshot]
  unfold createSysfsSlotList
  cases hdir : dirs.slots with
  | none => simp [snapshotAttachments, hdir, attachments, placements, attach]
  | some es =>
    rw [hdir, Option.getD_some] at hroot
    obtain ⟨ret, address', hrun⟩ := addSlots_attachments mem.slot ps
      ⟨rootBridges mem dirs, [], address⟩ hroot
    have hsnap := attachments_snapshot mem ps address dirs
    rw [hdir, Option.getD_some] at hsnap
    simp only
    rw [hrun]
    simp only [hsnap, List.nil_append, List.map_map]
    rfl

/-- Else a NULL pointer is followed. -/
theorem createSysfsPciTree_error
    (h : ¬ ∀ p ∈ snapshotAttachments mem ps address dirs, p.2.2.rootBridge.isSome) :
    createSysfsPciTree mem ps address dirs = .error .nullBusRootBridge := by
  have hroot : ¬ ∀ p ∈ attachments mem.slot ps (findBus ((snapshotBuses mem dirs).map Prod.snd))
      SysfsBus.rootBridge (dirs.slots.getD []) address, p.2.rootBridge.isSome := by
    rw [attachments_snapshot, List.forall_mem_map]
    exact h
  rw [createSysfsPciTree, ← rootBridges, createPciBusList_snapshot]
  unfold createSysfsSlotList
  cases hdir : dirs.slots with
  | none => exact absurd hroot (by simp [hdir, attachments])
  | some es =>
    rw [hdir, Option.getD_some] at hroot
    simp only
    rw [addSlots_attachments_null mem.slot ps ⟨rootBridges mem dirs, [], address⟩ hroot]

/-! ## A slot on its own bus -/

/-- The tree is built, with no slot added to a NULL root bridge, and every slot on it is
    on the bus whose name its address gives. -/
def SlotsOnTheirBuses : Prop :=
  ∃ tree, createSysfsPciTree mem ps address dirs = .ok tree ∧
    Filled (rootBridges mem dirs)
      ((snapshotAttachments mem ps address dirs).map (Prod.map id Prod.snd))
      tree.rootBridgeList tree.slotList ∧
    ∀ p ∈ snapshotAttachments mem ps address dirs,
      cstr p.2.1.dName = domainBus (p.1.address.text ps)

/-- The slot entry `e` is reached, after `earlier`. -/
def SlotReached (earlier : List SlotEntry) (e : SlotEntry) : Prop :=
  Reached mem.slot ps (findEntry (snapshotBuses mem dirs)) (fun p => p.2.rootBridge)
    (dirs.slots.getD []) earlier e

/-- The name of a listed bus is not empty. -/
theorem dName_ne_nil_of_findEntry {a : CString} {p : BusEntry × SysfsBus}
    (h : findEntry (snapshotBuses mem dirs) a = some p) : cstr p.1.dName ≠ [] := by
  have hbus := (of_mem_busEntries (List.mem_of_find?_eq_some h)).2
  rw [busOf] at hbus
  split_ifs at hbus with hs
  intro hnil
  apply hs
  simp [isSkipped, strlen, hnil]

theorem reads_of_text_ne_nil {e : SlotEntry} (h : e.address.text ps ≠ []) : e.address.Reads := by
  cases hf : e.address with
  | data bytes => trivial
  | noMemory => exact absurd (by rw [hf]; rfl) h
  | noOpen => exact absurd (by rw [hf]; rfl) h
  | noRead => exact absurd (by rw [hf]; rfl) h

theorem createSysfsPciTree_ne_null_iff :
    createSysfsPciTree mem ps address dirs ≠ .error .nullBusRootBridge ↔
      ∀ p ∈ snapshotAttachments mem ps address dirs, p.2.2.rootBridge.isSome := by
  by_cases h : ∀ p ∈ snapshotAttachments mem ps address dirs, p.2.2.rootBridge.isSome
  · rw [createSysfsPciTree_ok mem ps address dirs h]
    exact iff_of_true (by simp) h
  · rw [createSysfsPciTree_error mem ps address dirs h]
    exact iff_of_false (by simp) h

theorem length_newRootBridge_name (domain busId : BitVec 32) :
    (cstr (newRootBridge domain busId).name).length ≤ 7 :=
  strlen_snprintf_le _ _ ROOT_BRIDGE_NAME_LEN

theorem mem_addRootBridges {calloc : CString → Bool} {ds : List CString}
    {l : List SysfsRootBridge} {b : SysfsRootBridge} (h : b ∈ (addRootBridges calloc ds l).2) :
    b ∈ l ∨ ∃ domain busId, b = newRootBridge domain busId := by
  induction ds generalizing l with
  | nil => exact .inl h
  | cons d ds ih =>
    rw [addRootBridges] at h
    split at h
    · exact ih h
    · split at h
      · rename_i domain busId _
        split_ifs at h
        · obtain hmem | hnew := ih h
          · obtain hmem | hmem := List.mem_append.mp hmem
            · exact .inl hmem
            · exact .inr ⟨domain, busId, List.mem_singleton.mp hmem⟩
          · exact .inr hnew
        · exact .inl h
      · exact ih h

/-- The name of a root bridge has room in its array. -/
theorem length_name_of_createSysfsPciTree {tree : PciTree}
    (h : createSysfsPciTree mem ps address dirs = .ok tree) :
    ∀ b ∈ tree.rootBridgeList, (cstr b.name).length ≤ 7 := by
  have hroot : ∀ b ∈ rootBridges mem dirs, (cstr b.name).length ≤ 7 := by
    intro b hb
    unfold rootBridges createRootBridgeList at hb
    cases hdir : dirs.devices with
    | none =>
      rw [hdir] at hb
      exact absurd hb List.not_mem_nil
    | some ds =>
      rw [hdir] at hb
      obtain hnil | ⟨domain, busId, rfl⟩ := mem_addRootBridges hb
      · exact absurd hnil List.not_mem_nil
      · exact length_newRootBridge_name domain busId
  have hplaced : ∀ q ∈ snapshotAttachments mem ps address dirs, q.2.2.rootBridge.isSome := by
    rw [← createSysfsPciTree_ne_null_iff, h]
    simp
  rw [createSysfsPciTree_ok mem ps address dirs hplaced] at h
  obtain rfl := Except.ok.inj h
  intro b hb
  obtain ⟨i, hi⟩ := List.mem_iff_getElem?.mp hb
  rw [getElem?_attach] at hi
  obtain ⟨b₀, hb₀, rfl⟩ := Option.map_eq_some_iff.mp hi
  exact hroot b₀ (List.mem_of_getElem? hb₀)

/-- The bus of a slot has a root bridge and the name in the slot's address, which could be
    read. -/
def OnOwnBus (e : SlotEntry) (p : BusEntry × SysfsBus) : Prop :=
  e.address.Reads ∧ p.2.rootBridge.isSome ∧ cstr p.1.dName = domainBus (e.address.text ps)

/-- A bus with the name in an address is on the tree because that address was read. -/
theorem slotsOnTheirBuses_iff_forall :
    SlotsOnTheirBuses mem ps address dirs ↔
      ∀ p ∈ snapshotAttachments mem ps address dirs, OnOwnBus ps p.1 p.2 := by
  constructor
  · rintro ⟨tree, htree, -, hname⟩ p hp
    have hroot := (createSysfsPciTree_ne_null_iff mem ps address dirs).mp (by rw [htree]; simp)
    obtain ⟨a, ha⟩ := (of_mem_attachments mem.slot ps hp).2
    refine ⟨reads_of_text_ne_nil ps fun hnil => ?_, hroot p hp, hname p hp⟩
    apply dName_ne_nil_of_findEntry mem dirs ha
    rw [hname p hp, hnil]
    rfl
  · intro h
    refine ⟨_, createSysfsPciTree_ok mem ps address dirs fun p hp => (h p hp).2.1, ?_,
      fun p hp => (h p hp).2.2⟩
    have hfilled := filled_attach (rootBridges mem dirs)
      ((snapshotAttachments mem ps address dirs).map (Prod.map id Prod.snd))
    rwa [List.map_map] at hfilled

/-- A slot is on its own bus, with a root bridge, exactly when for every slot reached
    whose address names a listed bus by its first seven characters, the link of that bus
    leads to a listed root directory and its whole name is the one in the address, and
    no slot reached has an address that cannot be read, but for a first one when the
    array names no bus at the start. -/
theorem slotsOnTheirBuses_iff :
    SlotsOnTheirBuses mem ps address dirs ↔
      ∀ earlier e, SlotReached mem ps dirs earlier e →
        (e.address.Reads → ∀ p, ownBus ps (findEntry (snapshotBuses mem dirs)) e = some p →
          LinksToListed (rootBridges mem dirs) p.1 ∧
            cstr p.1.dName = domainBus (e.address.text ps)) ∧
        (¬ e.address.Reads → earlier = [] ∧ findEntry (snapshotBuses mem dirs) address = none) := by
  have hiff := attachments_forall_iff mem.slot ps (findEntry (snapshotBuses mem dirs))
    (fun p => p.2.rootBridge) (fun a b => findEntry_congr _)
    (fun e p (h : OnOwnBus ps e p) => h.1) (dirs.slots.getD []) address
  rw [slotsOnTheirBuses_iff_forall, snapshotAttachments, hiff]
  unfold SlotReached
  refine forall₃_congr fun earlier e _ => and_congr_left fun _ => ?_
  refine forall₃_congr fun hr p hp => ?_
  have hbus := (of_mem_busEntries (List.mem_of_find?_eq_some hp)).2
  rw [OnOwnBus, ← rootBridge_isSome_iff hbus]
  exact and_iff_right hr

end Snapshot

/-- A root bridge in the domain `10000`, with a slot on its bus. The name of its
    directory is not one that `create_root_bridge_list` takes. -/
def wideDomain : PciDirs where
  devices := some ["pci0000:00".toList, "pci10000:00".toList]
  pciBus := some [⟨"10000:00".toList, false, none,
    some "../../../devices/pci10000:00".toList⟩]
  slots := some [⟨"1".toList, .data "10000:00:01\n".toList⟩]

theorem not_slotsOnTheirBuses_wideDomain :
    ¬ SlotsOnTheirBuses .plenty ⟨4096, le_rfl⟩ (zeroed 11) wideDomain := by
  rintro ⟨tree, htree, -⟩
  have hnull : createSysfsPciTree .plenty ⟨4096, le_rfl⟩ (zeroed 11) wideDomain =
      .error .nullBusRootBridge := by
    decide
  rw [hnull] at htree
  exact absurd htree (by simp)

end Pcitop.Tool
