import Pcitop.Tool.ListHead
import Pcitop.Tool.PciSysfs

/-!
# The PCI tree in memory

`create_sysfs_pci_tree` once more (`pci_sysfs.c`), with the pointers that make up its
lists: every structure holds the nodes by which it is listed, and a slot is on two lists.
The structures are numbered in the order of their allocation.

* `createSysfsPciTree_refines`: the pointers left behind are those of the tree, and a
  search among them finds what a search of the tree does.
-/

namespace Pcitop.Tool

open Pcitop.Common

/-- The `struct list_node`s: those of the static lists and, for every structure, the ones
    it holds. -/
inductive PciNode where
  | rootBridgeList
  | busList
  | slotList
  /-- `list` of a root bridge -/
  | bridge (i : ℕ)
  /-- `slots` of a root bridge -/
  | slots (i : ℕ)
  /-- `list` of a bus -/
  | bus (j : ℕ)
  /-- `list` of a slot -/
  | slot (k : ℕ)
  /-- `root_bridge_slot_list` of a slot -/
  | onBridge (k : ℕ)
  deriving DecidableEq, Repr

/-- `container_of`: the structure that holds a node. The static lists are in none. -/
def PciNode.container : PciNode → ℕ
  | .bridge i | .slots i | .bus i | .slot i | .onBridge i => i
  | .rootBridgeList | .busList | .slotList => 0

/-- The structures and the pointers of their nodes. -/
structure PciHeap where
  links : Links PciNode
  /-- the name of every root bridge -/
  bridges : List CString
  buses : List SysfsBus
  /-- the name of every slot and its bus -/
  slots : List (CString × ℕ)

/-- A search with `list_for_each` and `break`. -/
def listFind {ν : Type} [DecidableEq ν] (fuel : ℕ) (s : Links ν) (h : ν) (p : ν → Bool) :
    Option (Option ν) :=
  (listForEach Prod.fst h (fun n st => if p n then .error (st.1, some n) else .ok st) fuel
    (s, none)).map Prod.snd

namespace PciHeap

/-- The three lists, set up by `LIST_HEAD` (lines 35–37). -/
def static (s : Links PciNode) : PciHeap where
  links := listHeadInit (listHeadInit (listHeadInit s .rootBridgeList) .busList) .slotList
  bridges := []
  buses := []
  slots := []

/-- The first root bridge of the list with a name of some kind. -/
def findBridge (fuel : ℕ) (m : PciHeap) (p : CString → Bool) : Option (Option ℕ) :=
  (listFind fuel m.links .rootBridgeList fun n => (m.bridges[n.container]?).any p).map
    (Option.map PciNode.container)

/-- The same for buses. -/
def findBus (fuel : ℕ) (m : PciHeap) (p : CString → Bool) : Option (Option ℕ) :=
  (listFind fuel m.links .busList fun n => (m.buses[n.container]?).any fun bus => p bus.name).map
    (Option.map PciNode.container)

/-- Lines 62–70. -/
def newRootBridge (m : PciHeap) (domain busId : BitVec 32) : PciHeap :=
  let i := m.bridges.length
  { m with
    links := listAddTail (listHeadInit m.links (.slots i)) .rootBridgeList (.bridge i)
    bridges := m.bridges ++ [(Tool.newRootBridge domain busId).name] }

/-- The loop of `create_root_bridge_list` (lines 54–71). -/
def addRootBridges (calloc : CString → Bool) : List CString → PciHeap → ℤ × PciHeap
  | [], m => (0, m)
  | dName :: ds, m =>
    if isSkipped dName then addRootBridges calloc ds m
    else
      match sscanf rootBridgeFmt dName with
      | [.uint domain, .uint busId] =>
        if calloc dName then addRootBridges calloc ds (m.newRootBridge domain busId) else (1, m)
      | _ => addRootBridges calloc ds m

/-- Lines 121–134, with the root bridge found. -/
def newBus (m : PciHeap) (dName : CString) (rootBridge : Option ℕ) : PciHeap :=
  { m with
    links := listAddTail m.links .busList (.bus m.buses.length)
    buses := m.buses ++ [⟨strncpy (zeroed BUS_NAME_LEN) dName BUS_NAME_LEN, rootBridge⟩] }

/-- The loop of `create_pci_bus_list` (lines 102–136). -/
def addBuses (fuel : ℕ) (calloc : CString → Bool) :
    List BusEntry → PciHeap → Option (ℤ × PciHeap)
  | [], m => some (0, m)
  | e :: es, m =>
    if isSkipped e.dName then addBuses fuel calloc es m
    else
      match busLink e with
      | none => addBuses fuel calloc es m
      | some deviceLink =>
        match sscanf busFmt deviceLink with
        | [.str rootBridgeName] =>
          if calloc e.dName then
            match m.findBridge fuel fun name => strneq rootBridgeName name ROOT_BRIDGE_NAME_LEN with
            | none => none
            | some rootBridge => addBuses fuel calloc es (m.newBus e.dName rootBridge)
          else some (1, m)
        | _ => addBuses fuel calloc es m

/-- Lines 180–184, for the bus found. -/
def newSlot (m : PciHeap) (dName : CString) (bus : ℕ) : Except Fault PciHeap :=
  let k := m.slots.length
  let links := listAddTail m.links .slotList (.slot k)
  match (m.buses[bus]?).bind (·.rootBridge) with
  | none => .error .nullBusRootBridge
  | some r => .ok { m with
      links := listAddTail links (.slots r) (.onBridge k)
      slots := m.slots ++ [(strncpy (zeroed SLOT_NAME_LEN) dName SLOT_NAME_LEN, bus)] }

/-- The loop of `create_sysfs_slot_list` (lines 161–193). -/
def addSlots (fuel : ℕ) (calloc : CString → Bool) (ps : PageSize) :
    List SlotEntry → CString → PciHeap → Option (Except Fault (ℤ × PciHeap))
  | [], _, m => some (.ok (0, m))
  | e :: es, address, m =>
    if isSkipped e.dName then addSlots fuel calloc ps es address m
    else
      let address := (readAttribute ps e.address address SLOT_ADDRESS_LEN).2
      if calloc e.dName then
        match m.findBus fuel fun name => strneq address name (BUS_NAME_LEN - 1) with
        | none => none
        | some none => some (.ok (1, m))
        | some (some bus) =>
          match m.newSlot e.dName bus with
          | .error fault => some (.error fault)
          | .ok m => addSlots fuel calloc ps es address m
      else some (.ok (1, m))

/-- `create_sysfs_pci_tree` (lines 203–210) from the static lists on. -/
def createSysfsPciTree (fuel : ℕ) (mem : PciMemory) (ps : PageSize) (address : CString)
    (dirs : PciDirs) (s : Links PciNode) : Option (Except Fault PciHeap) :=
  let m := match dirs.devices with
    | none => static s
    | some ds => (addRootBridges mem.rootBridge ds (static s)).2
  let m := match dirs.pciBus with
    | none => some m
    | some es => (addBuses fuel mem.bus es m).map Prod.snd
  match m with
  | none => none
  | some m =>
    match dirs.slots with
    | none => some (.ok m)
    | some es => (addSlots fuel mem.slot ps es address m).map (Except.map Prod.snd)

/-- `get_sysfs_root_bridge` (lines 212–230). -/
def getSysfsRootBridge (fuel : ℕ) (m : PciHeap) (bridgeName : CString) : Option (Option ℕ) :=
  m.findBridge fuel fun name => strneq bridgeName name (ROOT_BRIDGE_NAME_LEN - 1)

/-! ## Searches -/

end PciHeap

theorem listFind_eq {ν : Type} [DecidableEq ν] {s : Links ν} {h : ν} {ns : List ν}
    (hr : s.Ring h ns) {fuel : ℕ} (hfuel : ns.length < fuel) (p : ν → Bool) :
    listFind fuel s h p = some (ns.find? p) := by
  have hfold : ∀ ns : List ν, final (ns.foldlM (fun (st : Links ν × Option ν) n =>
      if p n then Except.error (st.1, some n) else .ok st) (s, none)) = (s, ns.find? p) := by
    intro ns
    induction ns with
    | nil => rfl
    | cons n ns ih =>
      rw [List.foldlM_cons, List.find?_cons]
      by_cases hp : p n = true
      · rw [if_pos hp, hp]
        rfl
      · rw [if_neg hp, Bool.eq_false_of_not_eq_true hp]
        exact ih
  have hbody : ∀ (st : Links ν × Option ν), ∀ n ∈ ns, st.1.Ring h ns →
      (final (if p n then Except.error (st.1, some n) else .ok st)).1.Ring h ns := by
    intro st n _ hring
    split_ifs <;> exact hring
  have hr' : (Prod.fst (s, (none : Option ν))).Ring h ns := hr
  rw [listFind, listForEach_eq hbody hr' hfuel, hfold]
  rfl

/-- A search of a list by the positions of its elements. -/
theorem find?_range_eq_findIdx? {α : Type} (l : List α) (p : α → Bool) :
    ((List.range l.length).find? fun i => l[i]?.any p) = l.findIdx? p := by
  rcases hf : l.findIdx? p with _ | i
  · rw [List.find?_eq_none]
    intro i hi
    have hlt : i < l.length := List.mem_range.mp hi
    rw [List.findIdx?_eq_none_iff] at hf
    simp [List.getElem?_eq_getElem hlt, hf _ (List.getElem_mem hlt)]
  · obtain ⟨hlt, hp, hmin⟩ := List.findIdx?_eq_some_iff_getElem.mp hf
    rw [List.find?_range_eq_some]
    refine ⟨by simp [List.getElem?_eq_getElem hlt, hp], by simpa using hlt, fun j hj => ?_⟩
    have hne := hmin j hj
    have hjl : j < l.length := by omega
    simpa [List.getElem?_eq_getElem hjl] using hne

/-! ## What the pointers stand for -/

namespace PciHeap

/-- A slot with the bus it points at. -/
def slot? (m : PciHeap) (k : ℕ) : Option SysfsSlot :=
  (m.slots[k]?).bind fun slot => (m.buses[slot.2]?).map fun bus => ⟨slot.1, bus⟩

/-- The slots on the bus of a root bridge. -/
def slotsOf (m : PciHeap) (i : ℕ) : List ℕ :=
  (List.range m.slots.length).filter fun k => (m.slot? k).bind (·.bus.rootBridge) = some i

/-- The lists there are. -/
def world (m : PciHeap) : PciNode → Option (List PciNode)
  | .rootBridgeList => some ((List.range m.bridges.length).map .bridge)
  | .busList => some ((List.range m.buses.length).map .bus)
  | .slotList => some ((List.range m.slots.length).map .slot)
  | .slots i => if i < m.bridges.length then some ((m.slotsOf i).map .onBridge) else none
  | _ => none

/-- The structures are the elements of three lists, and listed as these are. -/
structure Refines (m : PciHeap) (bridges : List SysfsRootBridge) (buses : List SysfsBus)
    (slotList : List SysfsSlot) : Prop where
  rings : m.links.Rings m.world
  bridges : bridges = m.bridges.mapIdx fun i name => ⟨name, (m.slotsOf i).filterMap m.slot?⟩
  buses : buses = m.buses
  slotList : slotList = (List.range m.slots.length).filterMap m.slot?
  roots : ∀ bus ∈ m.buses, ∀ r, bus.rootBridge = some r → r < m.bridges.length
  placed : ∀ k < m.slots.length, (m.slot? k).isSome

/-- The node belongs to a structure there is. -/
def Allocated (m : PciHeap) : PciNode → Prop
  | .bridge i | .slots i => i < m.bridges.length
  | .bus j => j < m.buses.length
  | .slot k | .onBridge k => k < m.slots.length
  | _ => True

theorem allocated_of_occupied {m : PciHeap} {x : PciNode} (h : Occupied m.world x) :
    m.Allocated x := by
  obtain ⟨h, ns, hw, hx⟩ := h
  cases h with
  | rootBridgeList =>
    obtain rfl := Option.some.inj hw
    rcases List.mem_cons.mp hx with rfl | hx
    · trivial
    · obtain ⟨i, hi, rfl⟩ := List.mem_map.mp hx
      exact List.mem_range.mp hi
  | busList =>
    obtain rfl := Option.some.inj hw
    rcases List.mem_cons.mp hx with rfl | hx
    · trivial
    · obtain ⟨j, hj, rfl⟩ := List.mem_map.mp hx
      exact List.mem_range.mp hj
  | slotList =>
    obtain rfl := Option.some.inj hw
    rcases List.mem_cons.mp hx with rfl | hx
    · trivial
    · obtain ⟨k, hk, rfl⟩ := List.mem_map.mp hx
      exact List.mem_range.mp hk
  | slots i =>
    rw [world, Option.ite_none_right_eq_some] at hw
    obtain ⟨hi, hw⟩ := hw
    obtain rfl := Option.some.inj hw
    rcases List.mem_cons.mp hx with rfl | hx
    · exact hi
    · obtain ⟨k, hk, rfl⟩ := List.mem_map.mp hx
      exact List.mem_range.mp (List.mem_of_mem_filter hk)
  | bridge i => exact absurd hw (by simp [world])
  | bus j => exact absurd hw (by simp [world])
  | slot k => exact absurd hw (by simp [world])
  | onBridge k => exact absurd hw (by simp [world])

variable {m : PciHeap} {bridges : List SysfsRootBridge} {buses : List SysfsBus}
  {slotList : List SysfsSlot}

theorem Refines.length_bridges (hm : m.Refines bridges buses slotList) :
    bridges.length = m.bridges.length := by
  rw [hm.bridges, List.length_mapIdx]

theorem Refines.names (hm : m.Refines bridges buses slotList) :
    m.bridges = bridges.map (·.name) := by
  rw [hm.bridges]
  refine List.ext_getElem? fun i => ?_
  rw [List.getElem?_map, List.getElem?_mapIdx, Option.map_map]
  exact Option.map_id'.symm

/-! ### Searches -/

theorem Refines.findBridge_eq (hm : m.Refines bridges buses slotList) {fuel : ℕ}
    (hfuel : bridges.length < fuel) (p : CString → Bool) :
    m.findBridge fuel p = some (bridges.findIdx? fun b => p b.name) := by
  have hlen : ((List.range m.bridges.length).map PciNode.bridge).length < fuel := by
    rwa [List.length_map, List.length_range, ← hm.length_bridges]
  have hring : m.links.Ring .rootBridgeList ((List.range m.bridges.length).map .bridge) :=
    hm.rings.ring rfl
  rw [findBridge, listFind_eq hring hlen, List.find?_map, Option.map_some, Option.map_map]
  congr 1
  have hfind : ((List.range m.bridges.length).find? fun i => m.bridges[i]?.any p) =
      bridges.findIdx? fun b => p b.name := by
    rw [find?_range_eq_findIdx?, hm.names, List.findIdx?_map]
    rfl
  rw [← hfind]
  exact Option.map_id'

theorem Refines.findBus_eq (hm : m.Refines bridges buses slotList) {fuel : ℕ}
    (hfuel : buses.length < fuel) (p : CString → Bool) :
    m.findBus fuel p = some (buses.findIdx? fun bus => p bus.name) := by
  have hlen : ((List.range m.buses.length).map PciNode.bus).length < fuel := by
    rwa [List.length_map, List.length_range, ← hm.buses]
  have hring : m.links.Ring .busList ((List.range m.buses.length).map .bus) :=
    hm.rings.ring rfl
  rw [findBus, listFind_eq hring hlen, List.find?_map, Option.map_some, Option.map_map]
  congr 1
  have hfind : ((List.range m.buses.length).find? fun j =>
      m.buses[j]?.any fun bus => p bus.name) = buses.findIdx? fun bus => p bus.name := by
    rw [find?_range_eq_findIdx?, hm.buses]
  rw [← hfind]
  exact Option.map_id'

/-! ### One structure more -/

theorem static_refines (s : Links PciNode) : (static s).Refines [] [] [] where
  rings := by
    have hempty : ¬ Occupied (fun _ => none) PciNode.rootBridgeList := by
      rintro ⟨h, ns, hw, -⟩
      exact absurd hw (by simp)
    have h₁ := rings_listHeadInit (Links.rings_none s) hempty
    have h₂ := rings_listHeadInit (h := .busList) h₁ (by
      rintro ⟨h, ns, hw, hx⟩
      simp only [Function.update_apply] at hw
      split_ifs at hw with hh
      · obtain rfl := Option.some.inj hw
        rw [hh] at hx
        exact absurd hx (by decide))
    have h₃ := rings_listHeadInit (h := .slotList) h₂ (by
      rintro ⟨h, ns, hw, hx⟩
      simp only [Function.update_apply] at hw
      split_ifs at hw with hh hh
      · obtain rfl := Option.some.inj hw
        rw [hh] at hx
        exact absurd hx (by decide)
      · obtain rfl := Option.some.inj hw
        rw [hh] at hx
        exact absurd hx (by decide))
    have hworld : (static s).world = Function.update (Function.update (Function.update
        (fun _ => none) PciNode.rootBridgeList (some [])) .busList (some [])) .slotList
        (some []) := by
      funext x
      cases x <;> simp [world, static]
    rw [hworld]
    exact h₃
  bridges := rfl
  buses := rfl
  slotList := rfl
  roots _ hmem := absurd hmem List.not_mem_nil
  placed k hk := absurd hk (Nat.not_lt_zero k)

theorem Refines.newRootBridge (hm : m.Refines bridges buses slotList) (hs : m.slots = [])
    (domain busId : BitVec 32) :
    (m.newRootBridge domain busId).Refines (bridges ++ [Tool.newRootBridge domain busId]) buses
      slotList where
  rings := by
    have hslots : ¬ Occupied m.world (.slots m.bridges.length) :=
      fun hocc => lt_irrefl _ (allocated_of_occupied hocc)
    have h₁ := rings_listHeadInit hm.rings hslots
    have hlist : Function.update m.world (.slots m.bridges.length) (some []) .rootBridgeList =
        some ((List.range m.bridges.length).map .bridge) := rfl
    have h₂ := rings_listAddTail (n := .bridge m.bridges.length) h₁ hlist (by
      rintro ⟨h, ns, hw, hx⟩
      rw [Function.update_apply] at hw
      split_ifs at hw with hh
      · obtain rfl := Option.some.inj hw
        rw [hh] at hx
        exact absurd hx (by simp)
      · exact lt_irrefl _ (allocated_of_occupied ⟨h, ns, hw, hx⟩))
    have hworld : (m.newRootBridge domain busId).world = Function.update
        (Function.update m.world (.slots m.bridges.length) (some [])) .rootBridgeList
        (some ((List.range m.bridges.length).map .bridge ++ [.bridge m.bridges.length])) := by
      funext x
      cases x with
      | rootBridgeList => simp [world, PciHeap.newRootBridge, List.range_succ]
      | slots i =>
        rcases Nat.lt_trichotomy i m.bridges.length with hi | rfl | hi
        · have hlt : i < m.bridges.length + 1 := by omega
          simp [world, PciHeap.newRootBridge, slotsOf, hs, hi, hlt, Nat.ne_of_lt hi]
        · simp [world, PciHeap.newRootBridge, slotsOf, hs]
        · have hge : ¬ i < m.bridges.length + 1 := by omega
          simp [world, PciHeap.newRootBridge, Nat.ne_of_gt hi, Nat.not_lt_of_gt hi, hge]
      | _ => rfl
    rw [hworld]
    exact h₂
  bridges := by
    rw [hm.bridges]
    simp [PciHeap.newRootBridge, List.mapIdx_concat, slotsOf, hs, Tool.newRootBridge]
  buses := hm.buses
  slotList := hm.slotList
  roots bus hmem r hr := by
    have := hm.roots bus hmem r hr
    simp only [PciHeap.newRootBridge, List.length_append, List.length_singleton]
    omega
  placed := hm.placed

theorem Refines.newBus (hm : m.Refines bridges buses slotList) (hs : m.slots = [])
    (dName : CString) {rootBridge : Option ℕ} (hr : ∀ r ∈ rootBridge, r < bridges.length) :
    (m.newBus dName rootBridge).Refines bridges
      (buses ++ [⟨strncpy (zeroed BUS_NAME_LEN) dName BUS_NAME_LEN, rootBridge⟩]) slotList where
  rings := by
    have hbus : ¬ Occupied m.world (.bus m.buses.length) :=
      fun hocc => lt_irrefl _ (allocated_of_occupied hocc)
    have hlist : m.world .busList = some ((List.range m.buses.length).map .bus) := rfl
    have hworld : (m.newBus dName rootBridge).world = Function.update m.world .busList
        (some ((List.range m.buses.length).map .bus ++ [.bus m.buses.length])) := by
      funext x
      cases x with
      | busList => simp [world, PciHeap.newBus, List.range_succ]
      | slots i => simp [world, PciHeap.newBus, slotsOf, hs]
      | _ => rfl
    rw [hworld]
    exact rings_listAddTail hm.rings hlist hbus
  bridges := by
    rw [hm.bridges]
    simp [PciHeap.newBus, slotsOf, hs]
  buses := by rw [hm.buses]; rfl
  slotList := by
    rw [hm.slotList]
    simp [PciHeap.newBus, hs]
  roots bus hmem r hroot := by
    rw [PciHeap.newBus, List.mem_append, List.mem_singleton] at hmem
    rcases hmem with hmem | rfl
    · exact hm.roots bus hmem r hroot
    · show r < m.bridges.length
      rw [← hm.length_bridges]
      exact hr r hroot
  placed k hk := by
    have hk : k < m.slots.length := hk
    simp [hs] at hk

section NewSlot

variable {dName : CString} {j r : ℕ} {bus : SysfsBus} {m' : PciHeap}
  (hj : m.buses[j]? = some bus) (hroot : bus.rootBridge = some r)
  (hm' : m.newSlot dName j = .ok m')

include hj hroot hm'

theorem newSlot_eq : m' = { m with
    links := listAddTail (listAddTail m.links .slotList (.slot m.slots.length)) (.slots r)
      (.onBridge m.slots.length)
    slots := m.slots ++ [(strncpy (zeroed SLOT_NAME_LEN) dName SLOT_NAME_LEN, j)] } := by
  rw [PciHeap.newSlot, hj, Option.bind_some, hroot] at hm'
  exact (Except.ok.inj hm').symm

theorem slot?_newSlot (k : ℕ) : m'.slot? k =
    if k < m.slots.length then m.slot? k
    else if k = m.slots.length then some (Tool.newSlot dName bus) else none := by
  rw [newSlot_eq hj hroot hm', slot?, slot?]
  simp only
  rcases Nat.lt_trichotomy k m.slots.length with hk | rfl | hk
  · rw [if_pos hk, List.getElem?_append_left hk]
  · rw [if_neg (lt_irrefl _), if_pos rfl, List.getElem?_concat_length, Option.bind_some]
    simp only [hj]
    rfl
  · rw [if_neg (Nat.not_lt_of_gt hk), if_neg (Nat.ne_of_gt hk), List.getElem?_eq_none]
    · rfl
    · rw [List.length_append, List.length_singleton]
      omega

theorem slotsOf_newSlot (i : ℕ) : m'.slotsOf i =
    m.slotsOf i ++ if r = i then [m.slots.length] else [] := by
  have hslots : m'.slots.length = m.slots.length + 1 := by
    rw [newSlot_eq hj hroot hm']
    simp
  rw [slotsOf, hslots, List.range_succ, List.filter_append]
  congr 1
  · refine List.filter_congr fun k hk => ?_
    rw [slot?_newSlot hj hroot hm', if_pos (List.mem_range.mp hk)]
  · rw [List.filter_singleton, slot?_newSlot hj hroot hm', if_neg (lt_irrefl _), if_pos rfl,
      Option.bind_some]
    simp [Tool.newSlot, hroot]

theorem filterMap_slot?_newSlot {ks : List ℕ} (hks : ∀ k ∈ ks, k < m.slots.length) :
    ks.filterMap m'.slot? = ks.filterMap m.slot? :=
  List.filterMap_congr fun k hk => by rw [slot?_newSlot hj hroot hm', if_pos (hks k hk)]

theorem filterMap_slot?_singleton :
    [m.slots.length].filterMap m'.slot? = [Tool.newSlot dName bus] := by
  simp [slot?_newSlot hj hroot hm']

theorem Refines.newSlot (hm : m.Refines bridges buses slotList) :
    m'.Refines (bridges.modify r (addSlot (Tool.newSlot dName bus))) buses
      (slotList ++ [Tool.newSlot dName bus]) := by
  have hr : r < m.bridges.length := hm.roots bus (List.mem_of_getElem? hj) r hroot
  have heq := newSlot_eq hj hroot hm'
  have hbridges : m'.bridges = m.bridges := by rw [heq]
  have hbuses : m'.buses = m.buses := by rw [heq]
  have hslots : m'.slots.length = m.slots.length + 1 := by rw [heq]; simp
  have hlinks : m'.links = listAddTail (listAddTail m.links .slotList (.slot m.slots.length))
      (.slots r) (.onBridge m.slots.length) := by rw [heq]
  constructor
  · have hslot : ¬ Occupied m.world (.slot m.slots.length) :=
      fun hocc => lt_irrefl _ (allocated_of_occupied hocc)
    have hlist : m.world .slotList = some ((List.range m.slots.length).map .slot) := rfl
    have h₁ := rings_listAddTail hm.rings hlist hslot
    have hbridge : Function.update m.world .slotList (some ((List.range m.slots.length).map .slot ++
        [.slot m.slots.length])) (.slots r) = some ((m.slotsOf r).map .onBridge) := by
      simp [world, hr]
    have h₂ := rings_listAddTail (n := .onBridge m.slots.length) h₁ hbridge (by
      rintro ⟨h, ns, hw, hx⟩
      rw [Function.update_apply] at hw
      split_ifs at hw with hh
      · obtain rfl := Option.some.inj hw
        rw [hh] at hx
        exact absurd hx (by simp)
      · exact lt_irrefl _ (allocated_of_occupied ⟨h, ns, hw, hx⟩))
    have hworld : m'.world = Function.update (Function.update m.world .slotList
        (some ((List.range m.slots.length).map .slot ++ [.slot m.slots.length]))) (.slots r)
        (some ((m.slotsOf r).map .onBridge ++ [.onBridge m.slots.length])) := by
      funext x
      cases x with
      | slotList => simp [world, hslots, List.range_succ]
      | slots i =>
        by_cases hi : i = r
        · simp [world, hi, hr, hbridges, slotsOf_newSlot hj hroot hm']
        · simp [world, hi, hbridges, slotsOf_newSlot hj hroot hm', Ne.symm hi]
      | rootBridgeList => simp [world, hbridges]
      | busList => simp [world, hbuses]
      | _ => rfl
    rw [hworld, hlinks]
    exact h₂
  · refine List.ext_getElem? fun i => ?_
    rw [hm.bridges, hbridges, List.getElem?_modify, List.getElem?_mapIdx, List.getElem?_mapIdx]
    have hold : ∀ k ∈ m.slotsOf i, k < m.slots.length :=
      fun k hk => List.mem_range.mp (List.mem_of_mem_filter hk)
    rw [slotsOf_newSlot hj hroot hm', List.filterMap_append,
      filterMap_slot?_newSlot hj hroot hm' hold]
    by_cases hi : r = i
    · simp only [hi, if_true, filterMap_slot?_singleton hj hroot hm']
      cases m.bridges[i]? <;> rfl
    · simp only [hi, if_false, List.filterMap_nil, List.append_nil]
      cases m.bridges[i]? <;> rfl
  · rw [hbuses]
    exact hm.buses
  · have hold : ∀ k ∈ List.range m.slots.length, k < m.slots.length :=
      fun k hk => List.mem_range.mp hk
    rw [hslots, List.range_succ, List.filterMap_append, filterMap_slot?_newSlot hj hroot hm' hold,
      filterMap_slot?_singleton hj hroot hm', hm.slotList]
  · rw [hbuses, hbridges]
    exact hm.roots
  · intro k hk
    rw [slot?_newSlot hj hroot hm']
    split_ifs with hlt heqk
    · exact hm.placed k hlt
    · rfl
    · omega

end NewSlot

/-! ### The loops -/

theorem addRootBridges_refines (calloc : CString → Bool) (ds : List CString)
    (hm : m.Refines bridges buses slotList) (hs : m.slots = []) :
    (m.addRootBridges calloc ds).2.Refines (Tool.addRootBridges calloc ds bridges).2 buses
      slotList ∧ (m.addRootBridges calloc ds).2.slots = [] := by
  induction ds generalizing m bridges with
  | nil => exact ⟨hm, hs⟩
  | cons dName ds ih =>
    rw [addRootBridges, Tool.addRootBridges]
    by_cases hskip : isSkipped dName = true
    · rw [if_pos hskip, if_pos hskip]
      exact ih hm hs
    · rw [if_neg hskip, if_neg hskip]
      generalize sscanf rootBridgeFmt dName = values
      split
      · by_cases hc : calloc dName = true
        · simp only [if_pos hc]
          exact ih (hm.newRootBridge hs _ _) hs
        · simp only [if_neg hc]
          exact ⟨hm, hs⟩
      · have hrest := ih hm hs
        grind

theorem addBuses_refines {fuel : ℕ} (calloc : CString → Bool) (es : List BusEntry)
    (hm : m.Refines bridges buses slotList) (hs : m.slots = []) (hfuel : bridges.length < fuel) :
    ∃ ret m', m.addBuses fuel calloc es = some (ret, m') ∧
      m'.Refines bridges (Tool.addBuses calloc bridges es buses).2 slotList ∧ m'.slots = [] := by
  induction es generalizing m buses with
  | nil => exact ⟨0, m, rfl, hm, hs⟩
  | cons e es ih =>
    rw [addBuses, Tool.addBuses]
    by_cases hskip : isSkipped e.dName = true
    · rw [if_pos hskip, if_pos hskip]
      exact ih hm hs
    · rw [if_neg hskip, if_neg hskip]
      cases busLink e with
      | none => exact ih hm hs
      | some deviceLink =>
        simp only
        generalize sscanf busFmt deviceLink = values
        split
        · by_cases hc : calloc e.dName = true
          · simp only [if_pos hc, hm.findBridge_eq hfuel]
            refine ih (hm.newBus hs e.dName fun r hr => ?_) hs
            exact (List.findIdx?_eq_some_iff_getElem.mp hr).1
          · simp only [if_neg hc]
            exact ⟨1, m, rfl, hm, hs⟩
        · have hrest := ih hm hs
          grind

theorem addSlots_refines {fuel : ℕ} (calloc : CString → Bool) (ps : PageSize)
    (es : List SlotEntry) (address : CString) (hm : m.Refines bridges buses slotList)
    (hfuel : buses.length < fuel) :
    match Tool.addSlots calloc ps buses es ⟨bridges, slotList, address⟩ with
    | .error fault => m.addSlots fuel calloc ps es address = some (.error fault)
    | .ok (ret, st) => ∃ m', m.addSlots fuel calloc ps es address = some (.ok (ret, m')) ∧
        m'.Refines st.bridges buses st.slotList := by
  induction es generalizing m bridges slotList address with
  | nil => exact ⟨m, rfl, hm⟩
  | cons e es ih =>
    rw [addSlots, Tool.addSlots]
    by_cases hskip : isSkipped e.dName = true
    · rw [if_pos hskip, if_pos hskip]
      exact ih address hm
    · rw [if_neg hskip, if_neg hskip]
      simp only
      generalize (readAttribute ps e.address address SLOT_ADDRESS_LEN).2 = address
      by_cases hc : calloc e.dName = true
      · rw [if_pos hc, if_pos hc, hm.findBus_eq hfuel, Tool.findBus,
          List.find?_eq_bind_findIdx?_getElem?]
        cases hfind : buses.findIdx? fun bus => strneq address bus.name (BUS_NAME_LEN - 1) with
        | none => exact ⟨m, rfl, hm⟩
        | some j =>
          obtain ⟨hlt, -⟩ := List.findIdx?_eq_some_iff_getElem.mp hfind
          have hj : m.buses[j]? = some buses[j] := by
            rw [← hm.buses, List.getElem?_eq_getElem hlt]
          simp only [Option.bind_some, List.getElem?_eq_getElem hlt]
          cases hroot : buses[j].rootBridge with
          | none =>
            have hnew : m.newSlot e.dName j = .error .nullBusRootBridge := by
              rw [PciHeap.newSlot, hj, Option.bind_some, hroot]
            simp only [hnew]
          | some r =>
            obtain ⟨m', hnew⟩ : ∃ m', m.newSlot e.dName j = .ok m' := by
              rw [PciHeap.newSlot, hj, Option.bind_some, hroot]
              exact ⟨_, rfl⟩
            simp only [hnew]
            exact ih address (hm.newSlot hj hroot hnew)
      · rw [if_neg hc, if_neg hc]
        exact ⟨m, rfl, hm⟩

/-! ### Walks over the lists -/

/-- The structures on a list, as `list_for_each` visits them. -/
def items (fuel : ℕ) (m : PciHeap) (h : PciNode) : Option (List ℕ) :=
  (listForEach Prod.fst h takeDown fuel (m.links, [])).map fun st => st.2.map PciNode.container

/-- A root bridge with the slots on its list. -/
def readBridge (fuel : ℕ) (m : PciHeap) (i : ℕ) : Option SysfsRootBridge :=
  match m.bridges[i]?, m.items fuel (.slots i) with
  | some name, some ks => some ⟨name, ks.filterMap m.slot?⟩
  | _, _ => none

/-- The lists in memory are those of a tree. -/
structure Reads (fuel : ℕ) (m : PciHeap) (tree : PciTree) : Prop where
  rootBridgeList : (m.items fuel .rootBridgeList).map (List.map (m.readBridge fuel)) =
    some (tree.rootBridgeList.map some)
  busList : (m.items fuel .busList).map (List.map (m.buses[·]?)) = some (tree.busList.map some)
  slotList : (m.items fuel .slotList).map (List.map m.slot?) = some (tree.slotList.map some)

theorem Refines.items_eq (hm : m.Refines bridges buses slotList) {h : PciNode}
    {ns : List PciNode} (hw : m.world h = some ns) {fuel : ℕ} (hfuel : ns.length < fuel) :
    m.items fuel h = some (ns.map PciNode.container) := by
  rw [items, (shows_of_ring (hm.rings.ring hw)).forEach fuel hfuel]
  rfl

theorem Refines.map_slotList (hm : m.Refines bridges buses slotList) :
    slotList.map some = (List.range m.slots.length).map m.slot? := by
  have hall : ∀ k ∈ List.range m.slots.length, (m.slot? k).isSome :=
    fun k hk => hm.placed k (List.mem_range.mp hk)
  rw [hm.slotList]
  generalize List.range m.slots.length = ks at hall
  induction ks with
  | nil => rfl
  | cons k ks ih =>
    obtain ⟨slot, hslot⟩ := Option.isSome_iff_exists.mp (hall k List.mem_cons_self)
    rw [List.filterMap_cons, hslot, List.map_cons, List.map_cons, hslot,
      ih fun x hx => hall x (List.mem_cons_of_mem _ hx)]

theorem Refines.length_slotList (hm : m.Refines bridges buses slotList) :
    slotList.length = m.slots.length := by
  have hlen := congrArg List.length hm.map_slotList
  simpa using hlen

theorem Refines.readBridge_eq (hm : m.Refines bridges buses slotList) {fuel : ℕ}
    (hfuel : m.slots.length < fuel) {i : ℕ} (hi : i < m.bridges.length) :
    m.readBridge fuel i = bridges[i]? := by
  have hw : m.world (.slots i) = some ((m.slotsOf i).map .onBridge) := if_pos hi
  have hlen : ((m.slotsOf i).map PciNode.onBridge).length < fuel := by
    rw [List.length_map]
    refine lt_of_le_of_lt ((List.length_filter_le _ _).trans ?_) hfuel
    rw [List.length_range]
  rw [readBridge, hm.items_eq hw hlen, hm.bridges, List.getElem?_mapIdx,
    List.getElem?_eq_getElem hi, List.map_map]
  show some _ = some _
  congr 2
  exact congrArg (List.filterMap m.slot?) (List.map_id _)

theorem Refines.reads (hm : m.Refines bridges buses slotList) {fuel : ℕ}
    (hb : bridges.length < fuel) (hbus : buses.length < fuel) (hslot : slotList.length < fuel) :
    m.Reads fuel ⟨bridges, buses, slotList⟩ := by
  rw [hm.length_bridges] at hb
  rw [hm.length_slotList] at hslot
  constructor
  · rw [hm.items_eq rfl (by simpa using hb), Option.map_some, List.map_map, List.map_map]
    refine congrArg some (List.ext_getElem? fun i => ?_)
    rw [List.getElem?_map, List.getElem?_map]
    by_cases hi : i < m.bridges.length
    · rw [List.getElem?_range hi, Option.map_some]
      show some (m.readBridge fuel i) = _
      rw [hm.readBridge_eq hslot hi, List.getElem?_eq_getElem (hm.length_bridges ▸ hi)]
      rfl
    · rw [List.getElem?_eq_none (by simpa using hi),
        List.getElem?_eq_none (by rw [hm.length_bridges]; omega)]
      rfl
  · rw [hm.items_eq rfl (by simpa [hm.buses] using hbus), Option.map_some, List.map_map,
      List.map_map, hm.buses]
    refine congrArg some (List.ext_getElem? fun j => ?_)
    rw [List.getElem?_map, List.getElem?_map]
    by_cases hj : j < m.buses.length
    · rw [List.getElem?_range hj, List.getElem?_eq_getElem hj, Option.map_some, Option.map_some]
      exact congrArg some (List.getElem?_eq_getElem hj)
    · rw [List.getElem?_eq_none (by simpa using hj), List.getElem?_eq_none (Nat.not_lt.mp hj)]
      rfl
  · rw [hm.items_eq rfl (by simpa using hslot), Option.map_some, List.map_map, List.map_map,
      hm.map_slotList]
    rfl

end PciHeap

namespace PciHeap

theorem createSysfsPciTree_eq {mem : PciMemory} (ps : PageSize) (address : CString)
    {dirs : PciDirs} {bridges : List SysfsRootBridge} {buses : List SysfsBus}
    (hbridges : (createRootBridgeList mem.rootBridge dirs.devices).2 = bridges)
    (hbuses : (createPciBusList mem.bus bridges dirs.pciBus).2 = buses) {fuel : ℕ}
    (hb : bridges.length < fuel) (hbus : buses.length < fuel) (s : Links PciNode) :
    match Tool.createSysfsPciTree mem ps address dirs with
    | .error fault => createSysfsPciTree fuel mem ps address dirs s = some (.error fault)
    | .ok tree => ∃ m, createSysfsPciTree fuel mem ps address dirs s = some (.ok m) ∧
        m.Refines tree.rootBridgeList tree.busList tree.slotList := by
  have hstatic := static_refines s
  -- The root bridges, then the buses, then the slots.
  obtain ⟨m₁, hm₁, hs₁, hrun₁⟩ : ∃ m₁ : PciHeap, m₁.Refines bridges [] [] ∧ m₁.slots = [] ∧
      (match dirs.devices with
        | none => static s
        | some ds => ((static s).addRootBridges mem.rootBridge ds).2) = m₁ := by
    rw [← hbridges]
    cases dirs.devices with
    | none => exact ⟨static s, hstatic, rfl, rfl⟩
    | some ds =>
      obtain ⟨hm, hs⟩ := addRootBridges_refines mem.rootBridge ds hstatic rfl
      exact ⟨_, hm, hs, rfl⟩
  obtain ⟨m₂, hm₂, hrun₂⟩ : ∃ m₂ : PciHeap, m₂.Refines bridges buses [] ∧
      (match dirs.pciBus with
        | none => some m₁
        | some es => (m₁.addBuses fuel mem.bus es).map Prod.snd) = some m₂ := by
    rw [← hbuses]
    cases dirs.pciBus with
    | none => exact ⟨m₁, hm₁, rfl⟩
    | some es =>
      obtain ⟨ret, m₂, hrun, hm₂, -⟩ := addBuses_refines mem.bus es hm₁ hs₁ hb
      exact ⟨m₂, hm₂, by simp only [hrun]; rfl⟩
  have hslots : ∀ es, match Tool.addSlots mem.slot ps buses es ⟨bridges, [], address⟩ with
      | .error fault => m₂.addSlots fuel mem.slot ps es address = some (.error fault)
      | .ok (ret, st) => ∃ m', m₂.addSlots fuel mem.slot ps es address = some (.ok (ret, m')) ∧
          m'.Refines st.bridges buses st.slotList :=
    fun es => addSlots_refines mem.slot ps es address hm₂ hbus
  rw [createSysfsPciTree, Tool.createSysfsPciTree]
  simp only [hbridges, hbuses, hrun₁, hrun₂]
  cases dirs.slots with
  | none => exact ⟨m₂, rfl, hm₂⟩
  | some es =>
    have hslots := hslots es
    simp only [createSysfsSlotList]
    cases hrun : Tool.addSlots mem.slot ps buses es ⟨bridges, [], address⟩ with
    | error fault =>
      simp only [hrun] at hslots
      simp only [hslots]
      rfl
    | ok r =>
      simp only [hrun] at hslots
      obtain ⟨m', hrun', hm'⟩ := hslots
      exact ⟨m', by simp only [hrun']; rfl, hm'⟩

/-- With enough turns of its loops, `create_sysfs_pci_tree` fails in memory where it does
    on the lists, and else leaves the lists of the tree, in which `get_sysfs_root_bridge`
    finds the same root bridge. -/
theorem createSysfsPciTree_refines (mem : PciMemory) (ps : PageSize) (address : CString)
    (dirs : PciDirs) (s : Links PciNode) : ∃ fuel₀, ∀ fuel ≥ fuel₀,
      match Tool.createSysfsPciTree mem ps address dirs with
      | .error fault => createSysfsPciTree fuel mem ps address dirs s = some (.error fault)
      | .ok tree => ∃ m, createSysfsPciTree fuel mem ps address dirs s = some (.ok m) ∧
          m.Reads fuel tree ∧
          ∀ name, (m.getSysfsRootBridge fuel name).map (·.bind (m.readBridge fuel)) =
            some (Tool.getSysfsRootBridge tree.rootBridgeList name) := by
  generalize hbridges : (createRootBridgeList mem.rootBridge dirs.devices).2 = bridges
  generalize hbuses : (createPciBusList mem.bus bridges dirs.pciBus).2 = buses
  cases hres : Tool.createSysfsPciTree mem ps address dirs with
  | error fault =>
    refine ⟨bridges.length + buses.length + 1, fun fuel hfuel => ?_⟩
    have hb : bridges.length < fuel := by omega
    have hbus : buses.length < fuel := by omega
    have heq := createSysfsPciTree_eq ps address hbridges hbuses hb hbus s
    simpa only [hres] using heq
  | ok tree =>
    refine ⟨bridges.length + buses.length + tree.rootBridgeList.length + tree.busList.length +
      tree.slotList.length + 1, fun fuel hfuel => ?_⟩
    have hb : bridges.length < fuel := by omega
    have hbus : buses.length < fuel := by omega
    have heq := createSysfsPciTree_eq ps address hbridges hbuses hb hbus s
    simp only [hres] at heq
    obtain ⟨m, hrun, hm⟩ := heq
    refine ⟨m, hrun, hm.reads (by omega) (by omega) (by omega), fun name => ?_⟩
    rw [getSysfsRootBridge, hm.findBridge_eq (by omega), Option.map_some, Tool.getSysfsRootBridge,
      List.find?_eq_bind_findIdx?_getElem?]
    congr 1
    cases hfind : tree.rootBridgeList.findIdx?
        fun b => strneq name b.name (ROOT_BRIDGE_NAME_LEN - 1) with
    | none => rfl
    | some i =>
      obtain ⟨hlt, -⟩ := List.findIdx?_eq_some_iff_getElem.mp hfind
      have hslot : m.slots.length < fuel := by
        have := hm.length_slotList
        omega
      exact hm.readBridge_eq hslot (hm.length_bridges ▸ hlt)

end PciHeap

end Pcitop.Tool
