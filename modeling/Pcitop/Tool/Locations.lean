import Pcitop.Tool.Main
import Pcitop.Tool.SysInfo

/-!
# Locations of a listing

`find_lba_location_info` walks over the slots behind an LBA. Each of them overwrites the
location of the LBA and goes into `sys_info`, which `init_lbas` never resets between LBAs.

* `Located.step`: what one LBA does to the two.
* `located_of_listLbas`: after the lists are made, an LBA has the location of its last
  slot, and `sys_info` has every location of a slot once, in the order of the walk.
* `one_lt_num_iff`: so a counter exceeds 1 if and only if two slots differ.
* `num_le_of_listLbas`: it does not exceed 256.
-/

namespace Pcitop.Tool

open Pcitop.Common

/-! ## First occurrences -/

theorem eraseDups_concat {α : Type} [BEq α] [LawfulBEq α] (as : List α) (a : α)
    [Decidable (a ∈ as)] :
    (as ++ [a]).eraseDups = if a ∈ as then as.eraseDups else as.eraseDups ++ [a] := by
  rw [List.eraseDups_append]
  split_ifs with h
  · simp [List.removeAll, h]
  · simp [List.removeAll, h, List.eraseDups_cons]

/-- Two values differ. -/
theorem one_lt_length_eraseDups_iff {α : Type} [DecidableEq α] {as : List α} :
    1 < as.eraseDups.length ↔ ∃ a ∈ as, ∃ b ∈ as, a ≠ b := by
  cases as with
  | nil => simp
  | cons a as =>
    have hrest : 1 < (a :: as).eraseDups.length ↔ ∃ b ∈ as, b ≠ a := by
      rw [List.eraseDups_cons, List.length_cons, Nat.lt_add_left_iff_pos,
        List.length_pos_iff_exists_mem]
      simp
    rw [hrest]
    constructor
    · rintro ⟨b, hb, hne⟩
      exact ⟨b, List.mem_cons_of_mem _ hb, a, List.mem_cons_self, hne⟩
    · rintro ⟨b, hb, c, hc, hne⟩
      by_cases hba : b = a
      · subst hba
        rcases List.mem_cons.mp hc with rfl | hc
        · exact absurd rfl hne
        · exact ⟨c, hc, hne.symm⟩
      · rcases List.mem_cons.mp hb with rfl | hb
        · exact absurd rfl hba
        · exact ⟨b, hb, hba⟩

/-! ## One slot -/

/-- A part of what `integrity_parse_slot` stores. -/
def Location.part : Location → SlotLocation → ℤ
  | .cabinet, loc => loc.cabinet
  | .bay, loc => loc.bay
  | .chassis, loc => loc.chassis

/-- The number of a slot. -/
def Location.ofSlot (l : Location) (slot : SysfsSlot) : ℤ := l.part (integrityParseSlot slot.name)

/-- The slots behind an LBA. -/
def LbaInfo.slots (lba : LbaInfo) : List SysfsSlot :=
  match lba.sysfsRootBridge with
  | none => []
  | some bridge => bridge.slots

/-- A list of `sys_info` and its counter, after the slots of some numbers. -/
structure Sees (l : Location) (sysInfo : IntegritySysInfo) (numbers : List ℤ) : Prop where
  list : l.list sysInfo = numbers.eraseDups
  num : l.num sysInfo = numbers.eraseDups.length

theorem number_locateSlot (l : Location) (mem : SysInfoMemory) (slot : SysfsSlot)
    (info : IntegrityLbaInfo × IntegritySysInfo) :
    l.number (locateSlot mem slot info).1 = l.ofSlot slot := by
  simp only [locateSlot, integrityUpdateLbaInfo]
  split_ifs <;> cases l <;> rfl

theorem addWithMemory_eraseDups (number : ℤ) (numbers : List ℤ) :
    addWithMemory number numbers.eraseDups.length numbers.eraseDups =
      (((numbers ++ [number]).eraseDups.length : ℤ), (numbers ++ [number]).eraseDups) := by
  rw [addWithMemory, eraseDups_concat]
  by_cases h : number ∈ numbers
  · rw [if_pos (List.mem_eraseDups.mpr h), if_pos h]
  · rw [if_neg (fun hmem => h (List.mem_eraseDups.mp hmem)), if_neg h, List.length_append]
    rfl

/-- A call with memory does the same to each of the three. -/
theorem update_number (l : Location) (lbaInfo : IntegrityLbaInfo) (sysInfo : IntegritySysInfo) :
    (l.num (integrityUpdateSysInfo ⟨true, true, true⟩ lbaInfo sysInfo).2,
        l.list (integrityUpdateSysInfo ⟨true, true, true⟩ lbaInfo sysInfo).2) =
      addWithMemory (l.number lbaInfo) (l.num sysInfo) (l.list sysInfo) := by
  rw [update_with_memory]
  cases l <;> rfl

theorem Sees.locateSlot {l : Location} {numbers : List ℤ} (slot : SysfsSlot)
    {info : IntegrityLbaInfo × IntegritySysInfo} (h : Sees l info.2 numbers) :
    Sees l (locateSlot ⟨true, true, true⟩ slot info).2 (numbers ++ [l.ofSlot slot]) := by
  have hupdate := update_number l (Tool.locateSlot ⟨true, true, true⟩ slot info).1 info.2
  rw [number_locateSlot, h.num, h.list, addWithMemory_eraseDups] at hupdate
  obtain ⟨hnum, hlist⟩ := Prod.mk.inj hupdate
  exact ⟨hlist, hnum⟩

/-! ## One LBA -/

section

variable {l : Location} {mem : ℕ → SysInfoMemory} {slots : List SysfsSlot}

/-- The LBA keeps the number of the last slot. -/
theorem number_locateSlots (k : ℕ) (info : IntegrityLbaInfo × IntegritySysInfo) :
    l.number ((slots.zipIdx k).foldl (fun info s => locateSlot (mem s.2) s.1 info) info).1 =
      (slots.map l.ofSlot).getLast?.getD (l.number info.1) := by
  induction slots generalizing k info with
  | nil => rfl
  | cons slot slots ih =>
    rw [List.zipIdx_cons, List.foldl_cons, ih, number_locateSlot, List.map_cons,
      List.getLast?_cons]
    cases (slots.map l.ofSlot).getLast? <;> rfl

theorem sees_locateSlots (hmem : ∀ i, mem i = ⟨true, true, true⟩) (k : ℕ)
    {info : IntegrityLbaInfo × IntegritySysInfo} {numbers : List ℤ} (h : Sees l info.2 numbers) :
    Sees l ((slots.zipIdx k).foldl (fun info s => locateSlot (mem s.2) s.1 info) info).2
      (numbers ++ slots.map l.ofSlot) := by
  induction slots generalizing k info numbers with
  | nil => simpa using h
  | cons slot slots ih =>
    rw [List.zipIdx_cons, List.foldl_cons, hmem, List.map_cons, List.append_cons]
    exact ih (k + 1) (h.locateSlot slot)

end

/-- The LBA has the location of its last slot, and zeros if it has none. -/
def LbaInfo.AtLastSlot (lba : LbaInfo) : Prop :=
  ∀ l : Location, l.number lba.archInfo = (lba.slots.map l.ofSlot).getLast?.getD 0

/-- The numbers of all slots behind some LBAs. -/
def slotLocations (lbas : List LbaInfo) (l : Location) : List ℤ :=
  (lbas.flatMap (·.slots)).map l.ofSlot

/-- Two of them differ. -/
def Several (lbas : List LbaInfo) (l : Location) : Prop :=
  ∃ n ∈ slotLocations lbas l, ∃ n' ∈ slotLocations lbas l, n ≠ n'

instance (lbas : List LbaInfo) (l : Location) : Decidable (Several lbas l) :=
  inferInstanceAs (Decidable (∃ n ∈ slotLocations lbas l, ∃ n' ∈ slotLocations lbas l, n ≠ n'))

/-- What holds of a list of LBAs and `sys_info` between two of them. -/
structure Located (lbas : List LbaInfo) (sysInfo : IntegritySysInfo) : Prop where
  last : ∀ lba ∈ lbas, lba.AtLastSlot
  sees : ∀ l, Sees l sysInfo (slotLocations lbas l)

theorem located_nil : Located [] integrityInitSysInfo where
  last _ hmem := absurd hmem List.not_mem_nil
  sees l := by cases l <;> exact ⟨rfl, rfl⟩

/-- One more LBA. -/
theorem Located.step {lbas : List LbaInfo} {sysInfo : IntegritySysInfo}
    (h : Located lbas sysInfo) {lba : LbaInfo} (harch : lba.archInfo = ⟨0, 0, 0, 0⟩)
    (bridges : List SysfsRootBridge) {mem : ℕ → SysInfoMemory}
    (hmem : ∀ i, mem i = ⟨true, true, true⟩) :
    Located (lbas ++ [(findLbaLocationInfo bridges mem lba sysInfo).2.1])
      (findLbaLocationInfo bridges mem lba sysInfo).2.2 := by
  have hzero : ∀ l : Location, l.number lba.archInfo = 0 := by
    intro l
    rw [harch]
    cases l <;> rfl
  have hconcat : ∀ (x : LbaInfo) (l : Location),
      slotLocations (lbas ++ [x]) l = slotLocations lbas l ++ x.slots.map l.ofSlot := by
    intro x l
    simp [slotLocations]
  unfold findLbaLocationInfo
  cases getSysfsRootBridge bridges lba.name with
  | none =>
    refine ⟨fun x hx l => ?_, fun l => ?_⟩
    · rcases List.mem_append.mp hx with hx | hx
      · exact h.last x hx l
      · rw [List.mem_singleton.mp hx]
        exact hzero l
    · rw [hconcat]
      simpa [LbaInfo.slots] using h.sees l
  | some bridge =>
    refine ⟨fun x hx l => ?_, fun l => ?_⟩
    · rcases List.mem_append.mp hx with hx | hx
      · exact h.last x hx l
      · rw [List.mem_singleton.mp hx]
        exact (number_locateSlots 0 _).trans (by rw [hzero]; rfl)
    · rw [hconcat]
      exact sees_locateSlots hmem 0 (h.sees l)

/-! ## The counters -/

theorem Location.ofSlot_mem (l : Location) (slot : SysfsSlot) :
    -176 ≤ l.ofSlot slot ∧ l.ofSlot slot ≤ 79 := by
  obtain ⟨hcabinet, hchassis, hbay, -⟩ := parseSlot_numbers slot.name
  cases l with
  | cabinet => exact hcabinet
  | bay => exact hbay
  | chassis => exact hchassis

/-- A counter is the length of its list, which holds what the names of slots can tell,
    each number once. -/
structure SlotNumbers (l : Location) (sysInfo : IntegritySysInfo) : Prop where
  num : l.num sysInfo = (l.list sysInfo).length
  nodup : (l.list sysInfo).Nodup
  mem : ∀ n ∈ l.list sysInfo, -176 ≤ n ∧ n ≤ 79

theorem slotNumbers_init (l : Location) : SlotNumbers l integrityInitSysInfo := by
  cases l <;> exact ⟨rfl, List.nodup_nil, fun n hn => absurd hn List.not_mem_nil⟩

theorem SlotNumbers.num_le {l : Location} {sysInfo : IntegritySysInfo}
    (h : SlotNumbers l sysInfo) : l.num sysInfo ≤ 256 := by
  have hsub : l.list sysInfo ⊆ (List.range 256).map fun i : ℕ => (i : ℤ) - 176 := by
    intro n hn
    obtain ⟨hge, hle⟩ := h.mem n hn
    exact List.mem_map.mpr ⟨(n + 176).toNat, List.mem_range.mpr (by omega), by omega⟩
  have hlen := (List.subperm_of_subset h.nodup hsub).length_le
  rw [List.length_map, List.length_range] at hlen
  rw [h.num]
  exact_mod_cast hlen

/-- Whatever memory there is. -/
theorem SlotNumbers.locateSlot {l : Location} {info : IntegrityLbaInfo × IntegritySysInfo}
    (h : SlotNumbers l info.2) (mem : SysInfoMemory) (slot : SysfsSlot) :
    SlotNumbers l (locateSlot mem slot info).2 := by
  have hgrows : Grows (l.ofSlot slot) (l.num info.2) (l.list info.2)
      (l.num (Tool.locateSlot mem slot info).2) (l.list (Tool.locateSlot mem slot info).2) := by
    rw [← number_locateSlot l mem slot info]
    exact (update_grows mem (Tool.locateSlot mem slot info).1 info.2 l).1
  rcases hgrows with ⟨hnum, hlist⟩ | ⟨hnew, hnum, hlist⟩
  · exact ⟨by rw [hnum, hlist, h.num], hlist ▸ h.nodup, hlist ▸ h.mem⟩
  · refine ⟨?_, ?_, ?_⟩
    · rw [hnum, hlist, h.num, List.length_append, List.length_singleton]
      push_cast
      rfl
    · rw [hlist, ← List.concat_eq_append]
      exact h.nodup.concat hnew
    · rw [hlist, List.forall_mem_append, List.forall_mem_singleton]
      exact ⟨h.mem, l.ofSlot_mem slot⟩

theorem slotNumbers_locateSlots {l : Location} {mem : ℕ → SysInfoMemory}
    (slots : List (SysfsSlot × ℕ)) {info : IntegrityLbaInfo × IntegritySysInfo}
    (h : SlotNumbers l info.2) :
    SlotNumbers l (slots.foldl (fun info s => locateSlot (mem s.2) s.1 info) info).2 := by
  induction slots generalizing info with
  | nil => exact h
  | cons s slots ih => exact ih (h.locateSlot (mem s.2) s.1)

theorem SlotNumbers.findLbaLocationInfo {l : Location} {sysInfo : IntegritySysInfo}
    (h : SlotNumbers l sysInfo) (bridges : List SysfsRootBridge) (mem : ℕ → SysInfoMemory)
    (lba : LbaInfo) : SlotNumbers l (findLbaLocationInfo bridges mem lba sysInfo).2.2 := by
  unfold Tool.findLbaLocationInfo
  cases getSysfsRootBridge bridges lba.name with
  | none => exact h
  | some bridge => exact slotNumbers_locateSlots _ h

/-! ## All LBAs -/

section

variable {ps : PageSize} {bridges : List SysfsRootBridge}

theorem slotNumbers_addLbas {loc : Location} {es : List LbaEntry} {st st' : LbaState}
    (h : SlotNumbers loc st.sysInfo) (hrun : addLbas ps bridges es st = .ok st') :
    SlotNumbers loc st'.sysInfo := by
  induction es generalizing st with
  | nil =>
    rw [← Except.ok.inj hrun]
    exact h
  | cons e es ih =>
    rw [addLbas] at hrun
    split_ifs at hrun with hdots
    · exact ih h hrun
    · cases hinit : initLba ps e st.numLba with
      | error fault => exact absurd hrun (by simp [hinit])
      | ok r =>
        obtain ⟨_ | lba, numLba⟩ := r
        · exact absurd hrun (by simp [hinit])
        · rw [hinit] at hrun
          exact ih (h.findLbaLocationInfo bridges e.memory.sysInfo lba) hrun

/-- The calls of `integrity_update_sys_info` for an entry have memory. -/
def LbaEntry.Counts (e : LbaEntry) : Prop := ∀ i, e.memory.sysInfo i = ⟨true, true, true⟩

theorem located_addLbas {es : List LbaEntry} (hmem : ∀ e ∈ es, e.Counts) {st st' : LbaState}
    (h : Located st.hostLbaList st.sysInfo) (hrun : addLbas ps bridges es st = .ok st') :
    Located st'.hostLbaList st'.sysInfo := by
  induction es generalizing st with
  | nil =>
    rw [← Except.ok.inj hrun]
    exact h
  | cons e es ih =>
    have hmem' : ∀ x ∈ es, x.Counts := fun x hx => hmem x (List.mem_cons_of_mem _ hx)
    rw [addLbas] at hrun
    split_ifs at hrun with hdots
    · exact ih hmem' h hrun
    · cases hinit : initLba ps e st.numLba with
      | error fault => exact absurd hrun (by simp [hinit])
      | ok r =>
        obtain ⟨_ | lba, numLba⟩ := r
        · exact absurd hrun (by simp [hinit])
        · rw [hinit] at hrun
          obtain ⟨lba', hlba, -, harch⟩ := initLba_of_fits (fits_of_initLba hinit) ps st.numLba
          obtain ⟨rfl, -⟩ := by simpa using hlba.symm.trans hinit
          exact ih hmem' (h.step harch bridges (hmem e List.mem_cons_self)) hrun

end

section

variable {opts : Options} {m : Machine} {l : Listing}

theorem slotLocations_markedList (locals : ℕ → PciId) (i : ℕ) (lbas : List LbaInfo)
    (loc : Location) :
    slotLocations (opts.markedList locals i lbas) loc = slotLocations lbas loc := by
  induction lbas generalizing i with
  | nil => rfl
  | cons lba lbas ih =>
    unfold slotLocations at ih ⊢
    rw [markedList_cons, List.flatMap_cons, List.flatMap_cons, List.map_append, List.map_append, ih]
    rfl

/-- A mark is no part of a location. -/
theorem Located.markedList {lbas : List LbaInfo} {sysInfo : IntegritySysInfo}
    (h : Located lbas sysInfo) (locals : ℕ → PciId) :
    Located (opts.markedList locals 0 lbas) sysInfo where
  last lba hmem := by
    obtain ⟨j, lba, hj, rfl⟩ := mem_markedList hmem
    exact h.last lba (List.mem_of_getElem? hj)
  sees loc := by
    rw [slotLocations_markedList]
    exact h.sees loc

/-- The machine has memory for `sys_info`. -/
def Machine.Counts (m : Machine) : Prop := ∀ e ∈ m.hplba.getD [], e.Counts

/-- The lists are made whatever the options are, and the filter goes over them. -/
theorem listLbas_eq_ok_iff : listLbas opts m = .ok l ↔
    ∃ tree st, m.pciTree = .ok tree ∧
      initLbas m.pageSize tree.rootBridgeList m.hplba ⟨[], 0, integrityInitSysInfo⟩ = .ok (0, st) ∧
      ¬ MissesBridge opts m st ∧ l = opts.listing m st := by
  constructor
  · intro h
    unfold listLbas at h
    cases htree : m.pciTree with
    | error fault => exact absurd h (by simp [htree])
    | ok tree =>
      rw [htree] at h
      simp only at h
      cases hinit : initLbas m.pageSize tree.rootBridgeList m.hplba
          ⟨[], 0, integrityInitSysInfo⟩ with
      | error fault => exact absurd h (by simp [hinit])
      | ok r =>
        obtain ⟨ret, st⟩ := r
        rw [hinit] at h
        simp only [ne_eq, ite_not] at h
        split_ifs at h with hret
        subst hret
        by_cases hmiss : MissesBridge opts m st
        · rw [filterLbas_of_missesBridge hmiss] at h
          exact absurd h (by simp)
        · rw [filterLbas_of_not_missesBridge hmiss] at h
          exact ⟨tree, st, rfl, hinit, hmiss, (Except.ok.inj h).symm⟩
  · rintro ⟨tree, st, htree, hinit, hmiss, rfl⟩
    unfold listLbas
    rw [htree]
    simp only [hinit, filterLbas_of_not_missesBridge hmiss]
    rfl

/-- The LBAs are those that the loop of `init_lbas` adds. -/
theorem addLbas_of_listLbas (h : listLbas opts m = .ok l) : ∃ tree st,
    addLbas m.pageSize (PciTree.rootBridgeList tree) (m.hplba.getD [])
      ⟨[], 0, integrityInitSysInfo⟩ = .ok st ∧ l = opts.listing m st := by
  obtain ⟨tree, st, -, hinit, -, rfl⟩ := listLbas_eq_ok_iff.mp h
  refine ⟨tree, st, ?_, rfl⟩
  cases hdir : m.hplba with
  | none => exact absurd hinit (by simp [hdir, initLbas])
  | some es =>
    rw [hdir, initLbas] at hinit
    obtain ⟨st', hadd, hst⟩ := map_eq_ok hinit
    obtain rfl := (Prod.mk.inj hst).2
    exact hadd

/-- **The locations of a listing.** Every LBA, displayed or not, has the location of its
    last slot, and `sys_info` those of all slots. -/
theorem located_of_listLbas (hmem : m.Counts) (h : listLbas opts m = .ok l) :
    Located l.lbas l.sysInfo := by
  obtain ⟨tree, st, hadd, rfl⟩ := addLbas_of_listLbas h
  exact (located_addLbas hmem located_nil hadd).markedList m.locals

/-- A counter does not exceed 256, with or without memory for all numbers. -/
theorem num_le_of_listLbas (h : listLbas opts m = .ok l) (loc : Location) :
    loc.num l.sysInfo ≤ 256 := by
  obtain ⟨tree, st, hadd, rfl⟩ := addLbas_of_listLbas h
  exact (slotNumbers_addLbas (slotNumbers_init loc) hadd).num_le

/-- A counter exceeds 1 if and only if two slots differ. -/
theorem one_lt_num_iff (hmem : m.Counts) (h : listLbas opts m = .ok l) (loc : Location) :
    1 < loc.num l.sysInfo ↔ Several l.lbas loc := by
  rw [((located_of_listLbas hmem h).sees loc).num, Nat.one_lt_cast, one_lt_length_eraseDups_iff]
  rfl

end

end Pcitop.Tool
