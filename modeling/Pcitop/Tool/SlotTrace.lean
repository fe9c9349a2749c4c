import Pcitop.Tool.SlotOrder

/-!
# The slots one after the other

`create_sysfs_slot_list` reads the address of every slot into one array on its stack,
does not clear it in between, and drops what `read_attribute` returns. `attachments`
is the order in which its loop sets `slot->bus`, over whatever finds a bus for the
contents of the array.

* `createSysfsSlotList_leaves`: the lists the function leaves, from its attachments.
* `attachments_forall_iff`: when every attachment is one that its slot's own address
  calls for.
* `attachedByOwnAddress_iff`: the exact patterns of failing reads for which no slot is
  attached because of what the array held before.
-/

namespace Pcitop.Tool

open Pcitop.Common

section Trace

variable {β : Type} (calloc : CString → Bool) (ps : PageSize) (find : CString → Option β)
  (root : β → Option ℕ)

/-- `slot->bus = bus`, as often as the loop over the slots does it: the entry and the
    bus found for the array `address`. After a bus without a root bridge there is no
    further slot. -/
def attachments : List SlotEntry → CString → List (SlotEntry × β)
  | [], _ => []
  | e :: es, address =>
    if isSkipped e.dName then attachments es address
    else
      let address := (readAttribute ps e.address address SLOT_ADDRESS_LEN).2
      if calloc e.dName then
        match find address with
        | none => []
        | some bus => (e, bus) :: if (root bus).isSome then attachments es address else []
      else []

/-- The bus found for an entry's own address. -/
def ownBus (e : SlotEntry) : Option β := find (e.address.text ps)

/-- The entry does not end the loop: it has memory, and its address can be read and
    names a bus with a root bridge. -/
def Placed (e : SlotEntry) : Prop :=
  calloc e.dName = true ∧ e.address.Reads ∧ ∃ bus, ownBus ps find e = some bus ∧ (root bus).isSome

/-- The loop gets as far as making a slot for the entry `e`, and `earlier` are the
    entries before it. -/
def Reached (es earlier : List SlotEntry) (e : SlotEntry) : Prop :=
  (∃ later, slotEntries es = earlier ++ e :: later) ∧
    (∀ x ∈ earlier, Placed calloc ps find root x) ∧ calloc e.dName = true

theorem attachments_skipped {e : SlotEntry} (hs : isSkipped e.dName = true) (es : List SlotEntry)
    (address : CString) : attachments calloc ps find root (e :: es) address =
      attachments calloc ps find root es address := by
  rw [attachments, if_pos hs]

/-! ## What the loop leaves -/

/-- Buses that are found alike are attached alike. -/
theorem attachments_map {γ : Type} {find : CString → Option β} {root : β → Option ℕ}
    {find' : CString → Option γ} {root' : γ → Option ℕ} {g : β → γ}
    (hfind : ∀ a, find' a = (find a).map g) (hroot : ∀ b, root' (g b) = root b)
    (es : List SlotEntry) (address : CString) :
    attachments calloc ps find' root' es address =
      (attachments calloc ps find root es address).map (Prod.map id g) := by
  induction es generalizing address with
  | nil => rfl
  | cons e es ih =>
    cases hs : isSkipped e.dName with
    | true => rw [attachments_skipped _ _ _ _ hs, attachments_skipped _ _ _ _ hs, ih]
    | false =>
      simp only [attachments, hs, Bool.false_eq_true, if_false, hfind]
      split
      · cases find (readAttribute ps e.address address SLOT_ADDRESS_LEN).2 with
        | none => rfl
        | some bus =>
          simp only [Option.map_some, hroot, List.map_cons, Prod.map_apply, id_eq, ih]
          split <;> rfl
      · rfl

/-- What is attached is an entry of the directory, to a bus that was found for some contents
    of the array. -/
theorem of_mem_attachments {find : CString → Option β} {root : β → Option ℕ}
    {es : List SlotEntry} {address : CString} {p : SlotEntry × β}
    (h : p ∈ attachments calloc ps find root es address) :
    p.1 ∈ es ∧ ∃ a, find a = some p.2 := by
  induction es generalizing address with
  | nil => exact absurd h (by simp [attachments])
  | cons e es ih =>
    cases hs : isSkipped e.dName with
    | true =>
      rw [attachments_skipped _ _ _ _ hs] at h
      exact (ih h).imp_left (List.mem_cons_of_mem e)
    | false =>
      simp only [attachments, hs, Bool.false_eq_true, if_false] at h
      split_ifs at h
      · split at h
        · exact absurd h (by simp)
        · rename_i bus hbus
          obtain rfl | h := List.mem_cons.mp h
          · exact ⟨List.mem_cons_self, _, hbus⟩
          · split_ifs at h
            · exact (ih h).imp_left (List.mem_cons_of_mem e)
            · exact absurd h (by simp)
      · exact absurd h (by simp)

/-- The slots of the attachments, each with the bridge of its bus. -/
def placements (l : List (SlotEntry × SysfsBus)) : List (SysfsSlot × ℕ) :=
  l.filterMap fun p => p.2.rootBridge.map fun r => (newSlot p.1.dName p.2, r)

/-- The loop ends well when every bus attached to has a root bridge: the bridges and
    `slot_list` have gained the slots attached. -/
theorem addSlots_attachments {buses : List SysfsBus} {es : List SlotEntry} (st : SlotState)
    (h : ∀ p ∈ attachments calloc ps (findBus buses) SysfsBus.rootBridge es st.address,
      p.2.rootBridge.isSome) :
    ∃ ret address, addSlots calloc ps buses es st =
      .ok (ret, ⟨attach st.bridges (placements
          (attachments calloc ps (findBus buses) SysfsBus.rootBridge es st.address)),
        st.slotList ++ (attachments calloc ps (findBus buses) SysfsBus.rootBridge es
          st.address).map fun p => newSlot p.1.dName p.2, address⟩) := by
  induction es generalizing st with
  | nil => exact ⟨0, st.address, by simp [addSlots, attachments, placements, attach]⟩
  | cons e es ih =>
    rw [addSlots]
    cases hs : isSkipped e.dName with
    | true =>
      rw [attachments_skipped _ _ _ _ hs] at h ⊢
      exact ih st h
    | false =>
      simp only [attachments, hs, Bool.false_eq_true, if_false] at h ⊢
      split_ifs at h ⊢ with hc
      · cases hb : findBus buses (readAttribute ps e.address st.address SLOT_ADDRESS_LEN).2 with
        | none => exact ⟨1, _, by simp [placements, attach]; rfl⟩
        | some bus =>
          simp only [hb, List.forall_mem_cons] at h
          obtain ⟨hroot, h⟩ := h
          rw [if_pos hroot] at h
          obtain ⟨r, hr⟩ := Option.isSome_iff_exists.mp hroot
          obtain ⟨ret, address, hrun⟩ := ih ⟨st.bridges.modify r
            (addSlot (newSlot e.dName bus)), st.slotList ++ [newSlot e.dName bus],
            (readAttribute ps e.address st.address SLOT_ADDRESS_LEN).2⟩ h
          refine ⟨ret, address, ?_⟩
          simp only [hr]
          rw [hrun]
          simp [placements, attach, hr]
      · exact ⟨1, _, by simp [placements, attach]; rfl⟩

/-- It follows a NULL pointer otherwise. -/
theorem addSlots_attachments_null {buses : List SysfsBus} {es : List SlotEntry} (st : SlotState)
    (h : ¬ ∀ p ∈ attachments calloc ps (findBus buses) SysfsBus.rootBridge es st.address,
      p.2.rootBridge.isSome) :
    addSlots calloc ps buses es st = .error .nullBusRootBridge := by
  induction es generalizing st with
  | nil => exact absurd h (by simp [attachments])
  | cons e es ih =>
    rw [addSlots]
    cases hs : isSkipped e.dName with
    | true =>
      rw [attachments_skipped _ _ _ _ hs] at h
      exact ih st h
    | false =>
      simp only [attachments, hs, Bool.false_eq_true, if_false] at h ⊢
      split_ifs at h ⊢ with hc
      · cases hb : findBus buses (readAttribute ps e.address st.address SLOT_ADDRESS_LEN).2 with
        | none => exact absurd h (by simp [hb])
        | some bus =>
          simp only [hb, List.forall_mem_cons] at h
          cases hr : bus.rootBridge with
          | none => simp [hr]
          | some r =>
            simp only [hr, Option.isSome_some, if_true, true_and] at h ⊢
            exact ih ⟨st.bridges.modify r (addSlot (newSlot e.dName bus)),
              st.slotList ++ [newSlot e.dName bus],
              (readAttribute ps e.address st.address SLOT_ADDRESS_LEN).2⟩ h
      · exact absurd h (by simp)

/-! ## Attachments by the own address -/

/-- The first entry is reached with memory, and a later one when the first is passed. -/
theorem reached_cons {e : SlotEntry} (hs : isSkipped e.dName = false) {es earlier : List SlotEntry}
    {x : SlotEntry} : Reached calloc ps find root (e :: es) earlier x ↔
      (earlier = [] ∧ x = e ∧ calloc e.dName = true) ∨
        ∃ rest, earlier = e :: rest ∧ Placed calloc ps find root e ∧
          Reached calloc ps find root es rest x := by
  unfold Reached
  rw [slotEntries_cons hs]
  constructor
  · rintro ⟨⟨later, hl⟩, hplaced, hc⟩
    cases earlier with
    | nil =>
      obtain ⟨rfl, -⟩ := List.cons.inj hl
      exact .inl ⟨rfl, rfl, hc⟩
    | cons y rest =>
      obtain ⟨rfl, htail⟩ := List.cons.inj hl
      rw [List.forall_mem_cons] at hplaced
      exact .inr ⟨rest, rfl, hplaced.1, ⟨later, htail⟩, hplaced.2, hc⟩
  · rintro (⟨rfl, rfl, hc⟩ | ⟨rest, rfl, hp, ⟨later, hl⟩, hplaced, hc⟩)
    · exact ⟨⟨slotEntries es, rfl⟩, by simp, hc⟩
    · exact ⟨⟨later, congrArg (e :: ·) hl⟩, List.forall_mem_cons.mpr ⟨hp, hplaced⟩, hc⟩

theorem forall_reached_cons {e : SlotEntry} (hs : isSkipped e.dName = false)
    (es : List SlotEntry) (P : List SlotEntry → SlotEntry → Prop) :
    (∀ earlier x, Reached calloc ps find root (e :: es) earlier x → P earlier x) ↔
      (calloc e.dName = true → P [] e) ∧
        (Placed calloc ps find root e → ∀ earlier x, Reached calloc ps find root es earlier x →
          P (e :: earlier) x) := by
  simp only [reached_cons _ _ _ _ hs]
  constructor
  · intro h
    exact ⟨fun hc => h [] e (.inl ⟨rfl, rfl, hc⟩),
      fun hp earlier x hx => h (e :: earlier) x (.inr ⟨earlier, rfl, hp, hx⟩)⟩
  · rintro ⟨hfirst, hrest⟩ earlier x (⟨rfl, rfl, hc⟩ | ⟨rest, rfl, hp, hx⟩)
    · exact hfirst hc
    · exact hrest hp rest x hx

/-- An address that cannot be read leaves the array. -/
theorem readAttribute_of_not_reads {e : SlotEntry} (h : ¬ e.address.Reads) (address : CString) :
    (readAttribute ps e.address address SLOT_ADDRESS_LEN).2 = address := by
  cases hf : e.address with
  | data bytes => rw [hf] at h; exact absurd trivial h
  | noMemory => rfl
  | noOpen => rfl
  | noRead => rfl

/-- Where a slot may only have what its own address calls for, every attachment is as
    it should be exactly when every slot reached has an address that can be read and
    calls for its bus, or is the first and finds none for what the array held. -/
theorem attachments_forall_iff
    (hfind : ∀ a b, (cstr a).take 7 = (cstr b).take 7 → find a = find b)
    {Good : SlotEntry → β → Prop} (hread : ∀ e bus, Good e bus → e.address.Reads)
    (es : List SlotEntry) (address : CString) :
    (∀ p ∈ attachments calloc ps find root es address, Good p.1 p.2) ↔
      ∀ earlier e, Reached calloc ps find root es earlier e →
        (e.address.Reads → ∀ bus, ownBus ps find e = some bus → Good e bus) ∧
          (¬ e.address.Reads → earlier = [] ∧ find address = none) := by
  induction es generalizing address with
  | nil => simp [attachments, Reached, slotEntries]
  | cons e es ih =>
    cases hs : isSkipped e.dName with
    | true =>
      rw [attachments_skipped _ _ _ _ hs, ih]
      simp only [Reached, slotEntries_skipped hs]
    | false =>
      rw [forall_reached_cons _ _ _ _ hs]
      simp only [attachments, hs, Bool.false_eq_true, if_false]
      by_cases hc : calloc e.dName = true
      swap
      · simp [hc, Placed]
      rw [if_pos hc]
      by_cases hr : e.address.Reads
      · have hown : find (readAttribute ps e.address address SLOT_ADDRESS_LEN).2 =
            ownBus ps find e := find_readAttribute ps hfind hr address
        rw [hown]
        cases hb : ownBus ps find e with
        | none =>
          -- The loop ends: nothing is attached, and no other entry is reached.
          simp [hr, hb, Placed]
        | some bus =>
          rw [List.forall_mem_cons]
          refine and_congr (by simp [hc, hr]) ?_
          by_cases hroot : (root bus).isSome
          · have hplaced : Placed calloc ps find root e := ⟨hc, hr, bus, hb, hroot⟩
            rw [if_pos hroot, ih, hown, hb]
            simp [hplaced]
          · have hplaced : ¬ Placed calloc ps find root e := by
              rintro ⟨-, -, bus', hb', hroot'⟩
              rw [← Option.some.inj (hb.symm.trans hb')] at hroot'
              exact hroot hroot'
            simp [hroot, hplaced]
      · have hplaced : ¬ Placed calloc ps find root e := fun h => hr h.2.1
        rw [readAttribute_of_not_reads ps hr]
        cases hb : find address with
        | none => simp [hr, hplaced]
        | some bus =>
          -- What the array held before gives this slot a bus.
          refine iff_of_false (fun h => ?_) (fun h => ?_)
          · rw [List.forall_mem_cons] at h
            exact hr (hread e bus h.1)
          · exact absurd ((h.1 hc).2 hr).2 (by simp)

end Trace

/-! ## The result -/

/-- The slots attached are those on `slot_list`, and those added to the bridges of their
    buses, in order. -/
structure Filled (bridges : List SysfsRootBridge) (l : List (SlotEntry × SysfsBus))
    (bridges' : List SysfsRootBridge) (slotList : List SysfsSlot) : Prop where
  slotList_eq : slotList = l.map fun p => newSlot p.1.dName p.2
  bridges_eq : ∀ i : ℕ, bridges'[i]? = bridges[i]?.map fun b =>
    { b with slots := b.slots ++
      (l.filter fun p => p.2.rootBridge = some i).map fun p => newSlot p.1.dName p.2 }

/-- The function returns with the slots attached on their lists, or follows the NULL
    pointer of a bus it attached one to. -/
def Leaves (bridges : List SysfsRootBridge) (l : List (SlotEntry × SysfsBus)) :
    Except Fault (ℤ × SlotState) → Prop
  | .ok (_, st) => Filled bridges l st.bridges st.slotList
  | .error fault => fault = .nullBusRootBridge ∧ ∃ p ∈ l, p.2.rootBridge = none

theorem placements_filter (l : List (SlotEntry × SysfsBus)) (i : ℕ) :
    ((placements l).filter fun p => p.2 = i).map Prod.fst =
      (l.filter fun p => p.2.rootBridge = some i).map fun p => newSlot p.1.dName p.2 := by
  induction l with
  | nil => rfl
  | cons p l ih =>
    rw [placements, List.filterMap_cons, List.filter_cons]
    cases hr : p.2.rootBridge with
    | none => simpa [placements, hr] using ih
    | some r =>
      by_cases hi : r = i
      · simpa [placements, hr, hi] using ih
      · simpa [placements, hr, hi] using ih

theorem filled_attach (bridges : List SysfsRootBridge) (l : List (SlotEntry × SysfsBus)) :
    Filled bridges l (attach bridges (placements l)) (l.map fun p => newSlot p.1.dName p.2) :=
  ⟨rfl, fun i => by rw [getElem?_attach, placements_filter]⟩

/-- What `create_sysfs_slot_list` leaves, from its attachments. -/
theorem createSysfsSlotList_leaves (calloc : CString → Bool) (ps : PageSize)
    (bridges : List SysfsRootBridge) (buses : List SysfsBus) (address : CString)
    (dir : Option (List SlotEntry)) :
    Leaves bridges
      (attachments calloc ps (findBus buses) SysfsBus.rootBridge (dir.getD []) address)
      (createSysfsSlotList calloc ps bridges buses address dir) := by
  unfold createSysfsSlotList
  cases dir with
  | none => exact filled_attach bridges []
  | some es =>
    by_cases h : ∀ p ∈ attachments calloc ps (findBus buses) SysfsBus.rootBridge es address,
        p.2.rootBridge.isSome
    · obtain ⟨ret, address', hrun⟩ := addSlots_attachments calloc ps ⟨bridges, [], address⟩ h
      simp only [hrun, Option.getD_some]
      exact filled_attach bridges _
    · simp only [addSlots_attachments_null calloc ps ⟨bridges, [], address⟩ h, Option.getD_some]
      push Not at h
      obtain ⟨p, hp, hroot⟩ := h
      exact ⟨rfl, p, hp, by simpa using hroot⟩

/-! ## The address of another slot -/

/-- Every slot that `create_sysfs_slot_list` puts on its lists is attached to the bus its
    own address names. -/
def AttachedByOwnAddress (calloc : CString → Bool) (ps : PageSize)
    (bridges : List SysfsRootBridge) (buses : List SysfsBus) (address : CString)
    (dir : Option (List SlotEntry)) : Prop :=
  let l := attachments calloc ps (findBus buses) SysfsBus.rootBridge (dir.getD []) address
  Leaves bridges l (createSysfsSlotList calloc ps bridges buses address dir) ∧
    ∀ p ∈ l, p.1.address.Reads ∧ p.1.bus? ps buses = some p.2

/-- No slot whose address cannot be read is reached, but for a first one when the array
    names no bus at the start. -/
theorem attachedByOwnAddress_iff (calloc : CString → Bool) (ps : PageSize)
    (bridges : List SysfsRootBridge) (buses : List SysfsBus) (address : CString)
    (dir : Option (List SlotEntry)) :
    AttachedByOwnAddress calloc ps bridges buses address dir ↔
      ∀ earlier e,
        Reached calloc ps (findBus buses) SysfsBus.rootBridge (dir.getD []) earlier e →
          ¬ e.address.Reads → earlier = [] ∧ findBus buses address = none := by
  have hiff := attachments_forall_iff calloc ps (findBus buses) SysfsBus.rootBridge
    (fun a b => findBus_congr buses)
    (fun e bus (h : e.address.Reads ∧ e.bus? ps buses = some bus) => h.1) (dir.getD []) address
  have hleaves := createSysfsSlotList_leaves calloc ps bridges buses address dir
  simp only [AttachedByOwnAddress, hleaves, true_and, hiff]
  exact ⟨fun h earlier e he => (h earlier e he).2,
    fun h earlier e he => ⟨fun hr bus hb => ⟨hr, hb⟩, h earlier e he⟩⟩

/-- A slot whose address cannot be opened, after one on the bus `0000:00`. -/
theorem not_attachedByOwnAddress_noOpen :
    ¬ AttachedByOwnAddress (fun _ => true) ⟨4096, le_rfl⟩ [bridge0] [bus0.toSysfsBus] (zeroed 11)
      (some [slot0, ⟨"2".toList, .noOpen⟩]) := by
  intro h
  have hmem : ((⟨"2".toList, .noOpen⟩ : SlotEntry), bus0.toSysfsBus) ∈
      attachments (fun _ => true) ⟨4096, le_rfl⟩ (findBus [bus0.toSysfsBus]) SysfsBus.rootBridge
        [slot0, ⟨"2".toList, .noOpen⟩] (zeroed 11) := by
    decide
  exact (h.2 _ hmem).1

end Pcitop.Tool
