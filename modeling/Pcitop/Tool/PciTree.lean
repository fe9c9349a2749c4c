import Pcitop.Tool.BusId

/-!
# Where the slots go

The three lists of `pci_sysfs.c` put together.

* `addSlots_of_listed`: where the slots go when no entry ends the loop.
* `createSysfsPciTree_snapshot`: over the directories of a kernel, every slot is
  on the root bridge its bus links to, once and in order, and a name selects the
  root bridge whose address it starts with.
-/

namespace Pcitop.Tool

open Pcitop.Common

/-- The slots of a directory for which a bus of the bridge `i` is found, in its order. -/
def slotsFound (ps : PageSize) (buses : List SysfsBus) (es : List SlotEntry) (i : ℕ) :
    List SysfsSlot :=
  (((slotEntries es).filterMap (placement ps buses)).filter fun p => p.2 = i).map Prod.fst

/-- A run over entries of which none ends the loop attaches all of them. -/
theorem addSlots_of_listed {calloc : CString → Bool} {ps : PageSize} {buses : List SysfsBus}
    (hbus : ∀ b ∈ buses, b.rootBridge.isSome) {es : List SlotEntry}
    (hread : ∀ e ∈ slotEntries es, e.address.Reads)
    (hall : ∀ e ∈ slotEntries es, Listed calloc ps buses e = true) (st : SlotState) :
    ∃ (ret : ℤ) (st' : SlotState), addSlots calloc ps buses es st = .ok (ret, st') ∧
      ∀ i : ℕ, st'.bridges[i]? = st.bridges[i]?.map fun b =>
        { b with slots := b.slots ++ slotsFound ps buses es i } := by
  obtain ⟨ret, st', hrun, hst'⟩ := addSlots_eq calloc hbus hread st
  refine ⟨ret, st', hrun, fun i => ?_⟩
  rw [hst', List.takeWhile_eq_self_iff.mpr hall, getElem?_attach]
  rfl

/-! ## The directories of a kernel -/

/-- The content of the `address` file of a slot. -/
def slotAddress (id : BusId) (dev : Fin 0x100) : CString :=
  id.text ++ ':' :: hexPad 2 dev ++ ['\n']

/-- `.` or `..`. -/
def IsDots (dName : CString) : Prop := dName = ".".toList ∨ dName = "..".toList

/-- The three directories as a kernel shows them. -/
structure Snapshot where
  devices : List CString
  pciBus : List BusEntry
  slots : List SlotEntry
  devices_nodup : devices.Nodup
  pciBus_nodup : (pciBus.map (·.dName)).Nodup
  slots_nodup : (slots.map (·.dName)).Nodup
  /-- A name of `/sys/devices` that starts with `pci` is that of a root bridge. -/
  devices_form : ∀ d ∈ devices, (∃ id : BusId, d = id.dir) ∨ ¬ "pci".toList <+: d
  /-- A bus has the name of its address and links to the directory of its root. -/
  pciBus_form : ∀ e ∈ pciBus, IsDots e.dName ∨
    ∃ id root : BusId, e.dName = id.text ∧ e.LinksTo root ∧ root.dir ∈ devices
  /-- A slot has a name of at most 19 characters and the address of some bus. -/
  slots_form : ∀ e ∈ slots, IsDots e.dName ∨
    (NoNul e.dName ∧ 0 < e.dName.length ∧ e.dName.length ≤ 19) ∧
      ∃ id dev, e.address = .data (slotAddress id dev) ∧ id.text ∈ pciBus.map (·.dName)

/-- The directories of a snapshot. -/
def Snapshot.dirs (s : Snapshot) : PciDirs := ⟨some s.devices, some s.pciBus, some s.slots⟩

/-- The directory a root bridge was made for. -/
def SysfsRootBridge.dir (b : SysfsRootBridge) : CString := "pci".toList ++ cstr b.name

/-- The names on the `slots` list of a root bridge. -/
def SysfsRootBridge.slotNames (b : SysfsRootBridge) : List CString :=
  b.slots.map fun slot => cstr slot.name

theorem BusId.dir_inj {a b : BusId} : a.dir = b.dir ↔ a = b :=
  ⟨fun h => BusId.text_injective (List.append_cancel_left h), fun h => h ▸ rfl⟩

theorem BusId.dir_bridgeOf (id : BusId) (slots : List SysfsSlot) :
    SysfsRootBridge.dir { bridgeOf id with slots := slots } = id.dir := by
  rw [SysfsRootBridge.dir, cstr_bridgeOf_name, BusId.dir]

/-! ### Root bridges -/

theorem exists_ids {ds : List CString}
    (h : ∀ d ∈ ds, (∃ id : BusId, d = id.dir) ∨ ¬ "pci".toList <+: d) :
    ∃ ids : List BusId, ds.filter ("pci".toList.isPrefixOf ·) = ids.map BusId.dir ∧
      ds.filterMap rootBridgeOf = ids.map bridgeOf := by
  induction ds with
  | nil => exact ⟨[], rfl, rfl⟩
  | cons d ds ih =>
    obtain ⟨ids, hdir, hbr⟩ := ih fun x hx => h x (List.mem_cons_of_mem _ hx)
    rcases h d (by simp) with ⟨id, rfl⟩ | hd
    · refine ⟨id :: ids, ?_, ?_⟩
      · rw [List.filter_cons, if_pos (by simp [BusId.dir]), hdir, List.map_cons]
      · rw [List.filterMap_cons, rootBridgeOf_dir, hbr, List.map_cons]
    · refine ⟨ids, ?_, ?_⟩
      · rw [List.filter_cons, if_neg (by simpa [List.isPrefixOf_iff_prefix] using hd), hdir]
      · rw [List.filterMap_cons, rootBridgeOf_of_not_prefix hd, hbr]

/-- The address of a directory is on the list when the directory is there. -/
theorem mem_ids_iff {ds : List CString} {ids : List BusId}
    (h : ds.filter ("pci".toList.isPrefixOf ·) = ids.map BusId.dir) (id : BusId) :
    id ∈ ids ↔ id.dir ∈ ds := by
  have hmem : id.dir ∈ ids.map BusId.dir ↔ id ∈ ids :=
    List.mem_map_of_injective fun a b hab => BusId.text_injective (List.append_cancel_left hab)
  rw [← hmem, ← h, List.mem_filter]
  simp [BusId.dir]

theorem nodup_ids {ds : List CString} {ids : List BusId} (hnodup : ds.Nodup)
    (h : ds.filter ("pci".toList.isPrefixOf ·) = ids.map BusId.dir) : ids.Nodup := by
  refine List.Nodup.of_map BusId.dir ?_
  rw [← h]
  exact hnodup.filter _

/-! ### Buses -/

theorem isSkipped_of_isDots {d : CString} (h : IsDots d) : isSkipped d = true := by
  rcases h with rfl | rfl <;> rfl

/-- The search of a root bridge by the name cut out of a link. -/
theorem findIdx?_bridgeOf {ids : List BusId} {root : BusId} (h : root ∈ ids) :
    ∃ r, ((ids.map bridgeOf).findIdx? fun b => strneq root.text b.name ROOT_BRIDGE_NAME_LEN) =
      some r ∧ ids[r]? = some root := by
  have hp : ∀ id, strneq root.text (bridgeOf id).name ROOT_BRIDGE_NAME_LEN = true ↔ root = id := by
    intro id
    rw [strneq_iff, cstr_bridgeOf_name, cstr_eq_self root.noNul_text,
      List.take_of_length_le (by simp [ROOT_BRIDGE_NAME_LEN]),
      List.take_of_length_le (by simp [ROOT_BRIDGE_NAME_LEN]), BusId.text_inj]
  have hsome : ((ids.map bridgeOf).findIdx? fun b =>
      strneq root.text b.name ROOT_BRIDGE_NAME_LEN).isSome := by
    rw [List.findIdx?_isSome, List.any_map, List.any_eq_true]
    exact ⟨root, h, (hp root).mpr rfl⟩
  obtain ⟨r, hr⟩ := Option.isSome_iff_exists.mp hsome
  obtain ⟨hlt, hpr, -⟩ := List.findIdx?_eq_some_iff_getElem.mp hr
  refine ⟨r, hr, ?_⟩
  rw [List.getElem_map, hp] at hpr
  rw [List.length_map] at hlt
  rw [List.getElem?_eq_getElem hlt, ← hpr]

/-- The bus made for an entry. -/
theorem busOf_linksTo {ids : List BusId} {e : BusEntry} {id root : BusId}
    (hname : e.dName = id.text) (hlink : e.LinksTo root) (hroot : root ∈ ids) :
    ∃ bus r, busOf (ids.map bridgeOf) e = some bus ∧ cstr bus.name = id.text ∧
      bus.rootBridge = some r ∧ ids[r]? = some root := by
  obtain ⟨deviceLink, hdev, hscan⟩ := hlink.sscanf_busLink
  obtain ⟨r, hr, hget⟩ := findIdx?_bridgeOf hroot
  refine ⟨newBus (ids.map bridgeOf) e.dName root.text, r, ?_, ?_, hr, hget⟩
  · simp only [busOf, hname, isSkipped_text, hdev, hscan, Bool.false_eq_true, if_false]
  · rw [newBus, hname, cstr_strncpy, cstr_eq_self id.noNul_text]
    rw [strlen, cstr_eq_self id.noNul_text, id.length_text]
    decide

/-! ### Slots -/

/-- The index of the root bridge a slot belongs on. -/
def SlotEntry.bridge? (ps : PageSize) (buses : List SysfsBus) (e : SlotEntry) : Option ℕ :=
  (e.bus? ps buses).bind (·.rootBridge)

/-- The slots on a bridge, by name. -/
theorem slotsFound_names {ps : PageSize} {buses : List SysfsBus} {es : List SlotEntry}
    (h : ∀ e ∈ slotEntries es, NoNul e.dName ∧ e.dName.length ≤ 19) (i : ℕ) :
    (slotsFound ps buses es i).map (fun slot => cstr slot.name) =
      ((slotEntries es).filter fun e => e.bridge? ps buses = some i).map (·.dName) := by
  unfold slotsFound
  generalize slotEntries es = l at h ⊢
  induction l with
  | nil => rfl
  | cons e l ih =>
    have ih := ih fun x hx => h x (List.mem_cons_of_mem _ hx)
    obtain ⟨hnul, hlen⟩ := h e (by simp)
    have hname : ∀ bus, cstr (newSlot e.dName bus).name = e.dName := by
      intro bus
      rw [newSlot, cstr_strncpy, cstr_eq_self hnul]
      rw [strlen, cstr_eq_self hnul]
      exact Nat.lt_succ_of_le hlen
    rw [List.filterMap_cons, List.filter_cons]
    obtain hb | ⟨bus, hb⟩ := Option.eq_none_or_eq_some (e.bus? ps buses)
    · simpa [placement, SlotEntry.bridge?, hb] using ih
    obtain hr | ⟨r, hr⟩ := Option.eq_none_or_eq_some bus.rootBridge
    · simpa [placement, SlotEntry.bridge?, hb, hr] using ih
    · by_cases hi : r = i
      · simpa [placement, SlotEntry.bridge?, hb, hr, hi, hname] using ih
      · simpa [placement, SlotEntry.bridge?, hb, hr, hi] using ih

theorem text_slotAddress (ps : PageSize) (id : BusId) (dev : Fin 0x100) :
    attributeText ps (slotAddress id dev) = id.text ++ ':' :: hexPad 2 dev := by
  have hdev : (hexPad 2 dev).length = 2 := length_hexPad (by norm_num) dev.isLt
  have hps := ps.2
  have hnul : NoNul (slotAddress id dev) := by
    refine NoNul.append (NoNul.append id.noNul_text ?_) (by decide)
    exact NoNul.append (s := [':']) (by decide) (noNul_hexPad 2 _)
  rw [attributeText_of_le ps hnul, slotAddress, List.dropLast_concat]
  simp [slotAddress, hdev]
  omega

/-- The buses a snapshot gives. -/
def Snapshot.buses (s : Snapshot) (ids : List BusId) : List SysfsBus :=
  s.pciBus.filterMap (busOf (ids.map bridgeOf))

/-- The bus made for an entry of a snapshot, and the root bridge it leads to. -/
theorem Snapshot.mem_buses {s : Snapshot} {ids : List BusId}
    (hids : ∀ id : BusId, id ∈ ids ↔ id.dir ∈ s.devices) {bus : SysfsBus} (h : bus ∈ s.buses ids) :
    ∃ e ∈ s.pciBus, ∃ (id root : BusId) (r : ℕ), e.dName = id.text ∧ e.LinksTo root ∧
      cstr bus.name = id.text ∧ bus.rootBridge = some r ∧ ids[r]? = some root := by
  obtain ⟨e, he, hbus⟩ := List.mem_filterMap.mp h
  rcases s.pciBus_form e he with hdots | ⟨id, root, hname, hlink, hroot⟩
  · rw [busOf, isSkipped_of_isDots hdots, if_pos rfl] at hbus
    simp at hbus
  · obtain ⟨bus', r, hbus', hname', hr, hget⟩ := busOf_linksTo hname hlink ((hids root).mpr hroot)
    rw [hbus'] at hbus
    obtain rfl := Option.some.inj hbus
    exact ⟨e, he, id, root, r, hname, hlink, hname', hr, hget⟩

/-- The address of a slot finds the root bridge its bus links to. -/
theorem Snapshot.bridge?_eq {s : Snapshot} (ps : PageSize) {ids : List BusId}
    (hids : ∀ id : BusId, id ∈ ids ↔ id.dir ∈ s.devices) {e : SlotEntry} {id : BusId}
    {dev : Fin 0x100} (haddr : e.address = .data (slotAddress id dev)) {be : BusEntry}
    (hbe : be ∈ s.pciBus) (hname : be.dName = id.text) {root : BusId} (hlink : be.LinksTo root) :
    ∃ r, e.bridge? ps (s.buses ids) = some r ∧ ids[r]? = some root := by
  have hp : ∀ bus : SysfsBus, strneq (e.address.text ps) bus.name (BUS_NAME_LEN - 1) = true ↔
      id.text = (cstr bus.name).take 7 := by
    intro bus
    have hnul : NoNul (id.text ++ ':' :: hexPad 2 dev) :=
      NoNul.append id.noNul_text (NoNul.append (s := [':']) (by decide) (noNul_hexPad 2 _))
    rw [strneq_iff, haddr, FileRead.text, text_slotAddress, cstr_eq_self hnul,
      show BUS_NAME_LEN - 1 = 7 from rfl, List.take_left' id.length_text]
  -- Some bus is found, since there is one for the entry `be`.
  have hsome : (e.bus? ps (s.buses ids)).isSome := by
    rcases s.pciBus_form be hbe with hdots | ⟨id', root', hname', hlink', hroot'⟩
    · have := isSkipped_of_isDots hdots
      rw [hname, isSkipped_text] at this
      exact absurd this (by decide)
    · obtain ⟨bus, r, hbus, hbname, -⟩ := busOf_linksTo hname' hlink' ((hids root').mpr hroot')
      rw [SlotEntry.bus?, findBus, List.find?_isSome]
      refine ⟨bus, List.mem_filterMap.mpr ⟨be, hbe, hbus⟩, ?_⟩
      rw [hp, hbname, ← hname', hname, List.take_of_length_le id.length_text.le]
  obtain ⟨bus, hbus⟩ := Option.isSome_iff_exists.mp hsome
  obtain ⟨hmem, hfound⟩ := findBus_eq_some hbus
  have hmatch := (hp bus).mp hfound
  obtain ⟨be', hbe', id', root', r, hname', hlink', hbname, hr, hget⟩ :=
    Snapshot.mem_buses hids hmem
  -- Names are distinct, so it is the bus of that entry.
  rw [hbname, List.take_of_length_le id'.length_text.le] at hmatch
  have hsame : be' = be := List.inj_on_of_nodup_map s.pciBus_nodup hbe' hbe
    (by rw [hname', hname, hmatch])
  rw [hsame] at hlink'
  refine ⟨r, ?_, by rw [hget, hlink.unique hlink']⟩
  rw [SlotEntry.bridge?, hbus, Option.bind_some, hr]

/-- A slot of a snapshot, with the bus its address names. -/
theorem Snapshot.slot_links {s : Snapshot} {e : SlotEntry} (he : e ∈ slotEntries s.slots) :
    (NoNul e.dName ∧ e.dName.length ≤ 19) ∧ ∃ id dev be root,
      e.address = .data (slotAddress id dev) ∧ be ∈ s.pciBus ∧ be.dName = id.text ∧
        be.LinksTo root := by
  obtain ⟨hmem, hskip⟩ := List.mem_filter.mp he
  rcases s.slots_form e hmem with hdots | ⟨⟨hnul, -, hlen⟩, id, dev, haddr, hid⟩
  · rw [isSkipped_of_isDots hdots] at hskip
    exact absurd hskip (by decide)
  · obtain ⟨be, hbe, hname⟩ := List.mem_map.mp hid
    refine ⟨⟨hnul, hlen⟩, id, dev, be, ?_⟩
    rcases s.pciBus_form be hbe with hdots | ⟨-, root, -, hlink, -⟩
    · have := isSkipped_of_isDots hdots
      rw [hname, isSkipped_text] at this
      exact absurd this (by decide)
    · exact ⟨root, haddr, hbe, hname, hlink⟩

/-- The entries of a snapshot the loop deals with. -/
theorem Snapshot.mem_slotEntries {s : Snapshot} {e : SlotEntry} (he : e ∈ s.slots)
    (hdots : ¬ IsDots e.dName) : e ∈ slotEntries s.slots := by
  rcases s.slots_form e he with h | ⟨⟨hnul, hpos, -⟩, -⟩
  · exact absurd h hdots
  · have hskip : isSkipped e.dName = false := by
      rw [IsDots, not_or] at hdots
      simp only [isSkipped, strlen, streq, cstr_eq_self hnul, Bool.or_eq_false_iff,
        beq_eq_false_iff_ne, ne_eq]
      exact ⟨⟨by omega, hdots.1⟩, hdots.2⟩
    exact List.mem_filter.mpr ⟨he, by rw [hskip]; rfl⟩

/-- The root bridges over a snapshot, with their slots. -/
theorem Snapshot.rootBridgeList_eq (s : Snapshot) (ps : PageSize) (address : CString) :
    ∃ (ids : List BusId) (tree : PciTree),
      s.devices.filter ("pci".toList.isPrefixOf ·) = ids.map BusId.dir ∧
      createSysfsPciTree .plenty ps address s.dirs = .ok tree ∧
      tree.rootBridgeList = ids.mapIdx fun i id =>
        { bridgeOf id with slots := slotsFound ps (s.buses ids) s.slots i } := by
  obtain ⟨ids, hdir, hbr⟩ := exists_ids s.devices_form
  have hids := mem_ids_iff hdir
  have hbridges : (createRootBridgeList PciMemory.plenty.rootBridge s.dirs.devices).2 =
      ids.map bridgeOf := by
    rw [Snapshot.dirs, createRootBridgeList,
      addRootBridges_eq (fun d _ => show PciMemory.plenty.rootBridge d = true from rfl), hbr]
    rfl
  have hbuses : (createPciBusList PciMemory.plenty.bus (ids.map bridgeOf) s.dirs.pciBus).2 =
      s.buses ids := by
    rw [Snapshot.dirs, createPciBusList,
      addBuses_eq fun e _ => show PciMemory.plenty.bus e.dName = true from rfl]
    rfl
  have hsome : ∀ b ∈ s.buses ids, b.rootBridge.isSome := by
    intro b hb
    obtain ⟨-, -, -, -, r, -, -, -, hr, -⟩ := Snapshot.mem_buses hids hb
    rw [hr, Option.isSome_some]
  have hread : ∀ e ∈ slotEntries s.slots, e.address.Reads := by
    intro e he
    obtain ⟨_, id, dev, _, _, haddr, _⟩ := Snapshot.slot_links he
    rw [haddr]
    trivial
  have hlisted : ∀ e ∈ slotEntries s.slots,
      Listed PciMemory.plenty.slot ps (s.buses ids) e = true := by
    intro e he
    obtain ⟨-, id, dev, be, root, haddr, hbe, hname, hlink⟩ := Snapshot.slot_links he
    obtain ⟨r, hr, -⟩ := Snapshot.bridge?_eq ps hids haddr hbe hname hlink
    obtain ⟨bus, hbus, -⟩ := Option.bind_eq_some_iff.mp hr
    simp [Listed, PciMemory.plenty, hbus]
  obtain ⟨ret, st, hrun, hst⟩ :=
    addSlots_of_listed hsome hread hlisted ⟨ids.map bridgeOf, [], address⟩
  refine ⟨ids, ⟨st.bridges, s.buses ids, st.slotList⟩, hdir, ?_, ?_⟩
  · rw [createSysfsPciTree, hbridges, hbuses]
    simp only [Snapshot.dirs, createSysfsSlotList, hrun]
  · refine List.ext_getElem? fun i => ?_
    rw [hst, List.getElem?_map, List.getElem?_mapIdx, Option.map_map]
    congr 1

section RootBridgeList

variable {s : Snapshot} {ps : PageSize} {ids : List BusId} {bridges : List SysfsRootBridge}
  (hdir : s.devices.filter ("pci".toList.isPrefixOf ·) = ids.map BusId.dir)
  (hlist : bridges = ids.mapIdx fun i id =>
    { bridgeOf id with slots := slotsFound ps (s.buses ids) s.slots i })

include hlist

/-- A bridge of the list, by its index. -/
theorem Snapshot.slotNames_eq {b : SysfsRootBridge} (hb : b ∈ bridges) :
    ∃ i id, ids[i]? = some id ∧ b.dir = id.dir ∧
      b.slotNames = ((slotEntries s.slots).filter fun e =>
        e.bridge? ps (s.buses ids) = some i).map (·.dName) := by
  rw [hlist, List.mem_mapIdx] at hb
  obtain ⟨i, hi, rfl⟩ := hb
  refine ⟨i, ids[i], List.getElem?_eq_getElem hi, ?_, ?_⟩
  · exact ids[i].dir_bridgeOf _
  · exact slotsFound_names (fun e he => (Snapshot.slot_links he).1) i

theorem Snapshot.slotNames_sublist {b : SysfsRootBridge} (hb : b ∈ bridges) :
    b.slotNames.Sublist (s.slots.map (·.dName)) := by
  obtain ⟨i, id, -, -, hnames⟩ := Snapshot.slotNames_eq hlist hb
  rw [hnames]
  exact (List.filter_sublist.trans List.filter_sublist).map _

theorem Snapshot.map_dir : bridges.map SysfsRootBridge.dir = ids.map BusId.dir := by
  rw [hlist]
  refine List.ext_getElem? fun i => ?_
  rw [List.getElem?_map, List.getElem?_map, List.getElem?_mapIdx, Option.map_map]
  congr 1
  funext id
  exact id.dir_bridgeOf _

include hdir

/-- A slot is on the bridge its bus links to. -/
theorem Snapshot.mem_slotNames_iff {e : SlotEntry} (he : e ∈ s.slots) {id : BusId}
    {dev : Fin 0x100} (hdots : ¬ IsDots e.dName) (haddr : e.address = .data (slotAddress id dev))
    {be : BusEntry} (hbe : be ∈ s.pciBus) {root : BusId} (hname : be.dName = id.text)
    (hlink : be.LinksTo root) {b : SysfsRootBridge} (hb : b ∈ bridges) :
    e.dName ∈ b.slotNames ↔ b.dir = root.dir := by
  obtain ⟨r, hr, hget⟩ := Snapshot.bridge?_eq ps (mem_ids_iff hdir) haddr hbe hname hlink
  obtain ⟨i, id', hid', hbdir, hnames⟩ := Snapshot.slotNames_eq hlist hb
  rw [hnames, List.mem_map, hbdir, BusId.dir_inj]
  constructor
  · rintro ⟨e', he', hsame⟩
    obtain ⟨hent', hi⟩ := List.mem_filter.mp he'
    -- Names are distinct, so it is the same slot.
    have heq : e' = e :=
      List.inj_on_of_nodup_map s.slots_nodup (List.mem_of_mem_filter hent') he hsame
    rw [heq, hr, decide_eq_true_iff, Option.some.injEq] at hi
    rw [hi, hid'] at hget
    exact Option.some.inj hget
  · intro h
    have hent : e ∈ slotEntries s.slots := Snapshot.mem_slotEntries he hdots
    have hri : r = i := by
      obtain ⟨hlt, -⟩ := List.getElem?_eq_some_iff.mp hget
      have hnodup := nodup_ids s.devices_nodup hdir
      exact (List.getElem?_inj hlt hnodup).mp (by rw [hget, hid', h])
    exact ⟨e, List.mem_filter.mpr ⟨hent, by rw [hr, hri]; exact decide_eq_true rfl⟩, rfl⟩

/-- An address selects the bridge of its root directory. -/
theorem Snapshot.getSysfsRootBridge_address (id : BusId) (rest : CString) :
    (id.dir ∈ s.devices → ∃ b ∈ bridges, b.dir = id.dir ∧
      getSysfsRootBridge bridges (id.text ++ ':' :: rest) = some b) ∧
    (id.dir ∉ s.devices → getSysfsRootBridge bridges (id.text ++ ':' :: rest) = none) := by
  have hname : ∀ b ∈ bridges, ∃ id' ∈ ids, cstr b.name = id'.text := by
    intro b hb
    obtain ⟨i, id', hid', hbdir, -⟩ := Snapshot.slotNames_eq hlist hb
    exact ⟨id', List.mem_of_getElem? hid', List.append_cancel_left hbdir⟩
  have hlength : ∀ b ∈ bridges, (cstr b.name).length ≤ 7 := by
    intro b hb
    obtain ⟨id', -, hbname⟩ := hname b hb
    rw [hbname, id'.length_text]
  rw [getSysfsRootBridge_text hlength]
  constructor
  · intro hdev
    have hmem : id.dir ∈ bridges.map SysfsRootBridge.dir := by
      rw [Snapshot.map_dir hlist]
      exact List.mem_map_of_mem ((mem_ids_iff hdir id).mpr hdev)
    obtain ⟨b, hb, hbdir⟩ := List.mem_map.mp hmem
    have hsome : (bridges.find? fun b => cstr b.name = id.text).isSome := by
      rw [List.find?_isSome]
      exact ⟨b, hb, decide_eq_true (List.append_cancel_left hbdir)⟩
    obtain ⟨b', hb'⟩ := Option.isSome_iff_exists.mp hsome
    have hb'name : cstr b'.name = id.text := by simpa using List.find?_some hb'
    exact ⟨b', List.mem_of_find?_eq_some hb', congrArg ("pci".toList ++ ·) hb'name, hb'⟩
  · intro hdev
    rw [List.find?_eq_none]
    intro b hb hm
    obtain ⟨id', hid', hbname⟩ := hname b hb
    have heq : id' = id := BusId.text_injective (hbname.symm.trans (of_decide_eq_true hm))
    exact hdev ((mem_ids_iff hdir id).mp (heq ▸ hid'))

end RootBridgeList

/-- After `create_sysfs_pci_tree` over the directories of a kernel: the root bridges
    are those of `/sys/devices`; each holds its slots in the order of `readdir`;
    every slot is held once, by the bridge its bus links to, and by no other; and a
    name that starts with an address selects the bridge of that address. -/
theorem createSysfsPciTree_snapshot (s : Snapshot) (ps : PageSize) (address : CString) :
    ∃ tree : PciTree, createSysfsPciTree .plenty ps address s.dirs = .ok tree ∧
      tree.rootBridgeList.map SysfsRootBridge.dir =
        s.devices.filter ("pci".toList.isPrefixOf ·) ∧
      (∀ b ∈ tree.rootBridgeList, b.slotNames.Sublist (s.slots.map (·.dName))) ∧
      (∀ e ∈ s.slots, ∀ id dev, ¬ IsDots e.dName → e.address = .data (slotAddress id dev) →
        ∀ be ∈ s.pciBus, ∀ root : BusId, be.dName = id.text → be.LinksTo root →
          root.dir ∈ s.devices ∧ ∀ b ∈ tree.rootBridgeList,
            b.slotNames.count e.dName = if b.dir = root.dir then 1 else 0) ∧
      ∀ (id : BusId) (rest : CString),
        (id.dir ∈ s.devices → ∃ b ∈ tree.rootBridgeList, b.dir = id.dir ∧
          getSysfsRootBridge tree.rootBridgeList (id.text ++ ':' :: rest) = some b) ∧
        (id.dir ∉ s.devices →
          getSysfsRootBridge tree.rootBridgeList (id.text ++ ':' :: rest) = none) := by
  obtain ⟨ids, tree, hdir, htree, hlist⟩ := s.rootBridgeList_eq ps address
  have hids := mem_ids_iff hdir
  refine ⟨tree, htree, (Snapshot.map_dir hlist).trans hdir.symm, ?_, ?_, ?_⟩
  · exact fun b hb => Snapshot.slotNames_sublist hlist hb
  · intro e he id dev hdots haddr be hbe root hname hlink
    obtain ⟨r, -, hget⟩ := Snapshot.bridge?_eq ps hids haddr hbe hname hlink
    refine ⟨(hids root).mp (List.mem_of_getElem? hget), fun b hb => ?_⟩
    have hmem := Snapshot.mem_slotNames_iff hdir hlist he hdots haddr hbe hname hlink hb
    have hsub := Snapshot.slotNames_sublist hlist hb
    rw [(s.slots_nodup.sublist hsub).count, if_congr hmem rfl rfl]
  · exact fun id rest => Snapshot.getSysfsRootBridge_address hdir hlist id rest

/-- Two root bridges, the first with a bus behind a PCI bridge, and a slot on each bus. -/
def twoRoots : Snapshot where
  devices := ["pci0000:10".toList, "system".toList, "pci0000:00".toList]
  pciBus := [⟨"0000:05".toList, false, none,
      some "../../../devices/pci0000:00/0000:00:02.0".toList⟩,
    ⟨"0000:10".toList, true, some "../../../devices/pci0000:10".toList, none⟩,
    ⟨"0000:00".toList, true, some "../../../devices/pci0000:00".toList, none⟩]
  slots := [⟨"302".toList, .data "0000:05:00\n".toList⟩, ⟨".".toList, .noRead⟩,
    ⟨"204".toList, .data "0000:10:01\n".toList⟩, ⟨"101".toList, .data "0000:00:01\n".toList⟩]
  devices_nodup := by decide
  pciBus_nodup := by decide
  slots_nodup := by decide
  devices_form := by
    intro d hd
    simp only [List.mem_cons, List.not_mem_nil, or_false] at hd
    rcases hd with rfl | rfl | rfl
    · exact .inl ⟨⟨0, 0x10⟩, by decide⟩
    · exact .inr (by decide)
    · exact .inl ⟨⟨0, 0⟩, by decide⟩
  pciBus_form := by
    intro e he
    simp only [List.mem_cons, List.not_mem_nil, or_false] at he
    rcases he with rfl | rfl | rfl
    · exact .inr ⟨⟨0, 5⟩, ⟨0, 0⟩, by decide, ⟨"/0000:00:02.0".toList, by decide⟩, by decide⟩
    · exact .inr ⟨⟨0, 0x10⟩, ⟨0, 0x10⟩, by decide, ⟨[], by decide⟩, by decide⟩
    · exact .inr ⟨⟨0, 0⟩, ⟨0, 0⟩, by decide, ⟨[], by decide⟩, by decide⟩
  slots_form := by
    intro e he
    simp only [List.mem_cons, List.not_mem_nil, or_false] at he
    rcases he with rfl | rfl | rfl | rfl
    · exact .inr ⟨by decide, ⟨0, 5⟩, 0, by decide, by decide⟩
    · exact .inl (.inl rfl)
    · exact .inr ⟨by decide, ⟨0, 0x10⟩, 1, by decide, by decide⟩
    · exact .inr ⟨by decide, ⟨0, 0⟩, 1, by decide, by decide⟩

theorem createSysfsPciTree_twoRoots :
    ∃ tree : PciTree, createSysfsPciTree .plenty ⟨4096, le_rfl⟩ [] twoRoots.dirs = .ok tree ∧
      tree.rootBridgeList.map SysfsRootBridge.dir =
        ["pci0000:10".toList, "pci0000:00".toList] ∧
      (∀ b ∈ tree.rootBridgeList,
        b.slotNames.count "302".toList = (if b.dir = BusId.dir ⟨0, 0⟩ then 1 else 0) ∧
        b.slotNames.count "204".toList = (if b.dir = BusId.dir ⟨0, 0x10⟩ then 1 else 0) ∧
        b.slotNames.count "101".toList = if b.dir = BusId.dir ⟨0, 0⟩ then 1 else 0) ∧
      (∃ b ∈ tree.rootBridgeList, b.dir = BusId.dir ⟨0, 0x10⟩ ∧
        getSysfsRootBridge tree.rootBridgeList "0000:10:00.0".toList = some b) ∧
      getSysfsRootBridge tree.rootBridgeList "0000:05:00.0".toList = none := by
  obtain ⟨tree, htree, hdirs, -, hslots, hnames⟩ :=
    createSysfsPciTree_snapshot twoRoots ⟨4096, le_rfl⟩ []
  have hdots : ∀ name ∈ ["302".toList, "204".toList, "101".toList], ¬ IsDots name := by
    unfold IsDots
    decide
  refine ⟨tree, htree, hdirs, fun b hb => ⟨?_, ?_, ?_⟩, ?_, ?_⟩
  · exact (hslots _ (.head _) ⟨0, 5⟩ 0 (hdots _ (by simp)) (by decide) _ (.head _) ⟨0, 0⟩
      (by decide) ⟨"/0000:00:02.0".toList, by decide⟩).2 b hb
  · exact (hslots _ (.tail _ (.tail _ (.head _))) ⟨0, 0x10⟩ 1 (hdots _ (by simp)) (by decide) _
      (.tail _ (.head _)) ⟨0, 0x10⟩ (by decide) ⟨[], by decide⟩).2 b hb
  · exact (hslots _ (.tail _ (.tail _ (.tail _ (.head _)))) ⟨0, 0⟩ 1 (hdots _ (by simp))
      (by decide) _ (.tail _ (.tail _ (.head _))) ⟨0, 0⟩ (by decide) ⟨[], by decide⟩).2 b hb
  · exact (hnames ⟨0, 0x10⟩ "00.0".toList).1 (by decide)
  · exact (hnames ⟨0, 5⟩ "00.0".toList).2 (by decide)

end Pcitop.Tool
