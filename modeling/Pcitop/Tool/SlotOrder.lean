import Pcitop.Tool.PciTree

/-!
# The order of the slots

An address names the bus with its `domain:bus`, whatever `create_sysfs_slot_list`
finds for it. `slotsOn` says where a slot belongs: on the root bridge of the bus its
address names.

* `findBus_listed`: the bus found is the first with the seven characters an address
  starts with.
* `attachesListed_iff`: when every slot gets to the bus it names, in whatever order
  `readdir` returns the slots.
-/

namespace Pcitop.Tool

open Pcitop.Common

/-! ## The bus an address names -/

/-- The `domain:bus` of an address `domain:bus:device`: its text up to the second
    colon. -/
def domainBus (address : CString) : CString :=
  let domain := address.takeWhile (· ≠ ':')
  match address.drop domain.length with
  | [] => domain
  | colon :: rest => domain ++ colon :: rest.takeWhile (· ≠ ':')

/-- A bus with a root bridge: the entry of `/sys/class/pci_bus` it was made for, and the
    index of the bridge. -/
structure ListedBus where
  dName : CString
  root : ℕ
  deriving DecidableEq, Repr

/-- The bus on `bus_list`. -/
def ListedBus.toSysfsBus (b : ListedBus) : SysfsBus where
  name := strncpy (zeroed BUS_NAME_LEN) b.dName BUS_NAME_LEN
  rootBridge := some b.root

/-- The bus an address names. -/
def namedBus (buses : List ListedBus) (address : CString) : Option ListedBus :=
  buses.find? fun b => cstr b.dName = domainBus address

/-- The first bus with the seven characters an address starts with. -/
def prefixBus (buses : List ListedBus) (address : CString) : Option ListedBus :=
  buses.find? fun b => (cstr b.dName).take 7 = (cstr address).take 7

/-- The name kept of a bus has its first seven characters. -/
theorem take_cstr_toSysfsBus_name (b : ListedBus) :
    (cstr b.toSysfsBus.name).take 7 = (cstr b.dName).take 7 := by
  rw [ListedBus.toSysfsBus]
  by_cases hlen : strlen b.dName < BUS_NAME_LEN
  · rw [cstr_strncpy hlen]
  · have hcut : NoNul ((cstr b.dName).take BUS_NAME_LEN) := (noNul_cstr b.dName).take _
    rw [strncpy_of_le (by omega), zeroed, List.drop_replicate, Nat.sub_self,
      cstr_append_replicate hcut, List.take_take]
    rfl

/-- The search of `create_sysfs_slot_list`, on the names of the directory. -/
theorem findBus_listed (buses : List ListedBus) (address : CString) :
    findBus (buses.map ListedBus.toSysfsBus) address =
      (prefixBus buses address).map ListedBus.toSysfsBus := by
  have hp : ∀ b : ListedBus, strneq address b.toSysfsBus.name (BUS_NAME_LEN - 1) =
      decide ((cstr b.dName).take 7 = (cstr address).take 7) := by
    intro b
    rw [strneq_eq_decide, show BUS_NAME_LEN - 1 = 7 from rfl, take_cstr_toSysfsBus_name]
    exact decide_eq_decide.mpr eq_comm
  rw [findBus, List.find?_map]
  simp only [Function.comp_def, hp]
  rfl

theorem domainBus_take (address : CString) : domainBus address <+: address := by
  have hdomain : address.takeWhile (· ≠ ':') <+: address := List.takeWhile_prefix _
  unfold domainBus
  simp only
  split
  · exact hdomain
  · rename_i colon rest hrest
    have hsplit : address = address.takeWhile (· ≠ ':') ++ colon :: rest := by
      rw [← hrest]
      exact (List.prefix_iff_eq_append.mp hdomain).symm
    conv_rhs => rw [hsplit]
    exact (List.prefix_append_right_inj _).mpr (List.cons_prefix_cons.mpr
      ⟨rfl, List.takeWhile_prefix _⟩)

/-! ## Lists of slots with their bridges -/

section Slots

variable {α : Type}

/-- What is on the bridge `i`. -/
def onBridge (l : List (α × ℕ)) (i : ℕ) : List α := (l.filter fun p => p.2 = i).map Prod.fst

theorem onBridge_perm {l l' : List (α × ℕ)} (h : l.Perm l') (i : ℕ) :
    (onBridge l i).Perm (onBridge l' i) :=
  (h.filter _).map _

variable [DecidableEq α]

theorem count_onBridge (l : List (α × ℕ)) (a : α) (i : ℕ) :
    (onBridge l i).count a = l.count (a, i) := by
  induction l with
  | nil => rfl
  | cons p l ih =>
    obtain ⟨b, j⟩ := p
    rw [onBridge, List.filter_cons, List.count_cons, ← ih]
    by_cases hj : j = i
    · simp [hj, onBridge, List.count_cons]
    · simp [hj, onBridge]

/-- With the same on every bridge, the lists are the same up to order. -/
theorem perm_of_onBridge {l l' : List (α × ℕ)} {n : ℕ} (hlt : ∀ p ∈ l, p.2 < n)
    (hlt' : ∀ p ∈ l', p.2 < n) (h : ∀ i < n, (onBridge l i).Perm (onBridge l' i)) : l.Perm l' := by
  rw [List.perm_iff_count]
  rintro ⟨a, i⟩
  by_cases hi : i < n
  · rw [← count_onBridge, ← count_onBridge, (h i hi).count_eq]
  · rw [List.count_eq_zero_of_not_mem fun hm => hi (hlt _ hm),
      List.count_eq_zero_of_not_mem fun hm => hi (hlt' _ hm)]

end Slots

/-! ## The order of the directory -/

/-- The slot of an entry on a bus, and the bridge it is then on. -/
def ListedBus.slot (b : ListedBus) (e : SlotEntry) : SysfsSlot × ℕ :=
  (newSlot e.dName b.toSysfsBus, b.root)

/-- The slot of an entry on the bus its address names. -/
def slotNamed (ps : PageSize) (buses : List ListedBus) (e : SlotEntry) :
    Option (SysfsSlot × ℕ) :=
  (namedBus buses (e.address.text ps)).map (·.slot e)

/-- The slots of a directory that belong on the bridge `i`, in its order. -/
def slotsOn (ps : PageSize) (buses : List ListedBus) (es : List SlotEntry) (i : ℕ) :
    List SysfsSlot :=
  onBridge ((slotEntries es).filterMap (slotNamed ps buses)) i

/-- In whatever order `readdir` returns the entries, every root bridge is given
    the slots that belong on it and no others. -/
def AttachesListed (calloc : CString → Bool) (ps : PageSize) (bridges : List SysfsRootBridge)
    (buses : List ListedBus) (es : List SlotEntry) : Prop :=
  ∀ es' address, es'.Perm es →
    ∃ (ret : ℤ) (st : SlotState),
      createSysfsSlotList calloc ps bridges (buses.map ListedBus.toSysfsBus) address (some es') =
        .ok (ret, st) ∧
      ∀ (i : ℕ) (b : SysfsRootBridge), bridges[i]? = some b →
        ∃ new : List SysfsSlot, st.bridges[i]? = some { b with slots := b.slots ++ new } ∧
          new.Perm (slotsOn ps buses es i)

/-- The first bus with the seven characters an address starts with is the one it names. -/
def FindsNamed (buses : List ListedBus) (address : CString) : Prop :=
  (namedBus buses address).isSome ∧
    (prefixBus buses address).map ListedBus.toSysfsBus =
      (namedBus buses address).map ListedBus.toSysfsBus

instance (buses : List ListedBus) (address : CString) : Decidable (FindsNamed buses address) :=
  inferInstanceAs (Decidable (_ ∧ _))

theorem findsNamed_iff {buses : List ListedBus} {a : CString} : FindsNamed buses a ↔
    ∃ b b', prefixBus buses a = some b ∧ namedBus buses a = some b' ∧
      b.toSysfsBus = b'.toSysfsBus := by
  unfold FindsNamed
  cases prefixBus buses a <;> cases namedBus buses a <;> simp

/-! ### The buses found and the buses named -/

theorem forall_eq_of_sum_eq {α : Type} {f g : α → ℕ} {l : List α} (hle : ∀ a ∈ l, f a ≤ g a)
    (hsum : (l.map f).sum = (l.map g).sum) : ∀ a ∈ l, f a = g a := by
  intro a ha
  by_contra hne
  have hlt : (l.map f).sum < (l.map g).sum :=
    List.sum_lt_sum f g hle ⟨a, ha, lt_of_le_of_ne (hle a ha) hne⟩
  exact hlt.ne hsum

/-- Two choices of values for the same elements are the same up to order, and the keys of
    the one are prefixes of those of the other: so they have the same lengths in sum, and
    are the same. -/
theorem keys_eq_of_perm {α β : Type} {f g : α → β} {key : β → CString} {l : List α}
    (hperm : (l.map f).Perm (l.map g)) (hkeys : ∀ a ∈ l, key (g a) <+: key (f a)) :
    ∀ a ∈ l, key (g a) = key (f a) := by
  have hsum := (hperm.symm.map fun b => (key b).length).sum_eq
  rw [List.map_map, List.map_map] at hsum
  have hlength := forall_eq_of_sum_eq (fun a ha => (hkeys a ha).length_le) hsum
  exact fun a ha => (hkeys a ha).eq_of_length (hlength a ha)

/-- What is looked at of the name of a bus. -/
def SysfsBus.key (bus : SysfsBus) : CString := (cstr bus.name).take 7

theorem key_of_prefixBus {buses : List ListedBus} {a : CString} {b : ListedBus}
    (h : prefixBus buses a = some b) : b.toSysfsBus.key = (cstr a).take 7 := by
  rw [SysfsBus.key, take_cstr_toSysfsBus_name]
  simpa using List.find?_some h

theorem key_of_namedBus {buses : List ListedBus} {a : CString} {b : ListedBus}
    (h : namedBus buses a = some b) : b.toSysfsBus.key = (domainBus a).take 7 := by
  have hp : cstr b.dName = domainBus a := by simpa using List.find?_some h
  rw [SysfsBus.key, take_cstr_toSysfsBus_name, hp]

theorem noNul_text (ps : PageSize) (address : FileRead) : NoNul (address.text ps) := by
  cases address with
  | data bytes => exact noNul_attributeText ps bytes
  | noMemory => exact List.not_mem_nil
  | noOpen => exact List.not_mem_nil
  | noRead => exact List.not_mem_nil

theorem prefixBus_congr {a b : CString} (buses : List ListedBus)
    (h : (cstr a).take 7 = (cstr b).take 7) : prefixBus buses a = prefixBus buses b := by
  unfold prefixBus
  rw [h]

/-- Where the buses found for some addresses are the buses named, up to order, each address
    finds the one it names: what is looked at of a name is a prefix of what is looked at of
    an address that has it. -/
theorem findsNamed_of_perm {buses : List ListedBus} {as : List CString}
    (hnul : ∀ a ∈ as, NoNul a) (hsome : ∀ a ∈ as, (prefixBus buses a).isSome)
    (hperm : (as.filterMap fun a => (prefixBus buses a).map ListedBus.toSysfsBus).Perm
      (as.filterMap fun a => (namedBus buses a).map ListedBus.toSysfsBus)) :
    ∀ a ∈ as, FindsNamed buses a := by
  have hnamed : ∀ a ∈ as, (namedBus buses a).isSome := by
    have hfull : (as.filterMap fun a => (prefixBus buses a).map ListedBus.toSysfsBus).length =
        as.length :=
      List.filterMap_length_eq_length.mpr fun a ha => by rw [Option.isSome_map]; exact hsome a ha
    rw [hperm.length_eq] at hfull
    intro a ha
    have hname := List.filterMap_length_eq_length.mp hfull a ha
    rwa [Option.isSome_map] at hname
  let found (a : CString) : SysfsBus :=
    ((prefixBus buses a).map ListedBus.toSysfsBus).getD ⟨[], none⟩
  let named (a : CString) : SysfsBus :=
    ((namedBus buses a).map ListedBus.toSysfsBus).getD ⟨[], none⟩
  have hfound_eq : ∀ a b, prefixBus buses a = some b → found a = b.toSysfsBus := by
    intro a b hb
    simp only [found, hb, Option.map_some, Option.getD_some]
  have hnamed_eq : ∀ a b, namedBus buses a = some b → named a = b.toSysfsBus := by
    intro a b hb
    simp only [named, hb, Option.map_some, Option.getD_some]
  have hmap : (as.map found).Perm (as.map named) := by
    rwa [List.filterMap_eq_map_iff_forall_eq_some.mpr fun a ha => ?_,
      List.filterMap_eq_map_iff_forall_eq_some.mpr fun a ha => ?_] at hperm
    · obtain ⟨b, hb⟩ := Option.isSome_iff_exists.mp (hnamed a ha)
      rw [hnamed_eq a b hb, hb, Option.map_some]
    · obtain ⟨b, hb⟩ := Option.isSome_iff_exists.mp (hsome a ha)
      rw [hfound_eq a b hb, hb, Option.map_some]
  have hkeys : ∀ a ∈ as, (named a).key <+: (found a).key := by
    intro a ha
    obtain ⟨b, hb⟩ := Option.isSome_iff_exists.mp (hsome a ha)
    obtain ⟨b', hb'⟩ := Option.isSome_iff_exists.mp (hnamed a ha)
    rw [hfound_eq a b hb, hnamed_eq a b' hb', key_of_prefixBus hb, key_of_namedBus hb',
      cstr_eq_self (hnul a ha)]
    exact (domainBus_take a).take 7
  have hkey := keys_eq_of_perm hmap hkeys
  intro a ha
  obtain ⟨b, hb⟩ := Option.isSome_iff_exists.mp (hsome a ha)
  obtain ⟨b', hb'⟩ := Option.isSome_iff_exists.mp (hnamed a ha)
  refine findsNamed_iff.mpr ⟨b, b', hb, hb', ?_⟩
  -- The bus named is found for some address, which starts with the same seven characters.
  obtain ⟨x, hx, hxa⟩ := List.mem_map.mp (hmap.mem_iff.mpr (List.mem_map_of_mem ha))
  obtain ⟨b'', hb''⟩ := Option.isSome_iff_exists.mp (hsome x hx)
  have hsame : prefixBus buses x = prefixBus buses a := by
    refine prefixBus_congr buses ?_
    rw [← key_of_prefixBus hb'', ← key_of_prefixBus hb, ← hfound_eq x b'' hb'', hxa, hkey a ha,
      hfound_eq a b hb]
  rw [← hfound_eq a b hb, ← hnamed_eq a b' hb', ← hxa]
  simp only [found, hsame]

section Order

variable {calloc : CString → Bool} {ps : PageSize} {bridges : List SysfsRootBridge}
  {buses : List ListedBus} {es : List SlotEntry}

/-- The slots attached when `readdir` returns the entries in the order `es`. -/
def attached (calloc : CString → Bool) (ps : PageSize) (buses : List ListedBus)
    (es : List SlotEntry) : List (SysfsSlot × ℕ) :=
  ((slotEntries es).takeWhile (Listed calloc ps (buses.map ListedBus.toSysfsBus))).filterMap
    (placement ps (buses.map ListedBus.toSysfsBus))

theorem attachesListed_iff_perm (hread : ∀ e ∈ slotEntries es, e.address.Reads) :
    AttachesListed calloc ps bridges buses es ↔
      ∀ es', es'.Perm es → ∀ i < bridges.length,
        (onBridge (attached calloc ps buses es') i).Perm (slotsOn ps buses es i) := by
  have hsome : ∀ b ∈ buses.map ListedBus.toSysfsBus, b.rootBridge.isSome :=
    List.forall_mem_map.mpr fun b _ => rfl
  have hrun : ∀ es' address, es'.Perm es → ∃ ret st,
      createSysfsSlotList calloc ps bridges (buses.map ListedBus.toSysfsBus) address (some es') =
        .ok (ret, st) ∧ ∀ i : ℕ, st.bridges[i]? = bridges[i]?.map fun b =>
          { b with slots := b.slots ++ onBridge (attached calloc ps buses es') i } := by
    intro es' address hperm
    obtain ⟨ret, st, hrun, hst⟩ := addSlots_eq calloc hsome
      (fun e he => hread e ((hperm.filter _).mem_iff.mp he)) ⟨bridges, [], address⟩
    exact ⟨ret, st, hrun, fun i => by rw [hst, getElem?_attach]; rfl⟩
  constructor
  · intro h es' hperm i hi
    obtain ⟨ret, st, hrun', hst⟩ := hrun es' [] hperm
    obtain ⟨ret', st', hrun'', hnew⟩ := h es' [] hperm
    obtain ⟨-, rfl⟩ := Prod.mk.inj (Except.ok.inj (hrun'.symm.trans hrun''))
    obtain ⟨new, hget, hp⟩ := hnew i bridges[i] (List.getElem?_eq_getElem hi)
    rw [hst, List.getElem?_eq_getElem hi, Option.map_some, Option.some.injEq] at hget
    have hslots := congrArg SysfsRootBridge.slots hget
    rw [List.append_cancel_left hslots]
    exact hp
  · intro h es' address hperm
    obtain ⟨ret, st, hrun', hst⟩ := hrun es' address hperm
    refine ⟨ret, st, hrun', fun i b hb => ⟨_, by rw [hst, hb]; rfl, ?_⟩⟩
    exact h es' hperm i (List.getElem?_eq_some_iff.mp hb).1

theorem listed_iff (e : SlotEntry) :
    Listed calloc ps (buses.map ListedBus.toSysfsBus) e = true ↔
      calloc e.dName = true ∧ (prefixBus buses (e.address.text ps)).isSome := by
  rw [Listed, Bool.and_eq_true, SlotEntry.bus?, findBus_listed, Option.isSome_map]

theorem placement_listed (e : SlotEntry) :
    placement ps (buses.map ListedBus.toSysfsBus) e =
      (prefixBus buses (e.address.text ps)).map (·.slot e) := by
  rw [placement, SlotEntry.bus?, findBus_listed]
  cases prefixBus buses (e.address.text ps) <;> rfl

/-- An entry that ends the loop, when it comes first, leaves nothing to attach. -/
theorem attached_of_not_listed {e : SlotEntry} (hs : isSkipped e.dName = false)
    (he : ¬ Listed calloc ps (buses.map ListedBus.toSysfsBus) e = true) :
    attached calloc ps buses (e :: es) = [] := by
  rw [attached, slotEntries_cons hs, List.takeWhile_cons, if_neg he, List.filterMap_nil]

/-- One that does not is attached. -/
theorem attached_of_listed {e : SlotEntry} (hs : isSkipped e.dName = false)
    (hc : calloc e.dName = true) {b : ListedBus}
    (hb : prefixBus buses (e.address.text ps) = some b) :
    attached calloc ps buses (e :: es) =
      b.slot e :: attached calloc ps buses es := by
  have he : Listed calloc ps (buses.map ListedBus.toSysfsBus) e = true :=
    (listed_iff e).mpr ⟨hc, by rw [hb, Option.isSome_some]⟩
  rw [attached, slotEntries_cons hs, List.takeWhile_cons, if_pos he, List.filterMap_cons,
    placement_listed, hb]
  rfl

/-- Every entry can be put first. -/
theorem perm_of_mem_slotEntries {e : SlotEntry} (he : e ∈ slotEntries es) :
    isSkipped e.dName = false ∧ (e :: es.erase e).Perm es :=
  ⟨by simpa using List.of_mem_filter he,
    (List.perm_cons_erase (List.mem_of_mem_filter he)).symm⟩

/-- With an entry that ends the loop, in whatever order, there is no slot to attach. -/
theorem none_of_not_listed (hbus : ∀ b ∈ buses, b.root < bridges.length)
    (h : ∀ es', es'.Perm es → ∀ i < bridges.length,
      (onBridge (attached calloc ps buses es') i).Perm (slotsOn ps buses es i))
    {e : SlotEntry} (he : e ∈ slotEntries es)
    (hlisted : ¬ Listed calloc ps (buses.map ListedBus.toSysfsBus) e = true) :
    ∀ x ∈ slotEntries es, namedBus buses (x.address.text ps) = none ∧
      (calloc x.dName = true → prefixBus buses (x.address.text ps) = none) := by
  have hnil : ∀ i < bridges.length, slotsOn ps buses es i = [] := by
    intro i hi
    obtain ⟨hs, hperm⟩ := perm_of_mem_slotEntries he
    have hp := h _ hperm i hi
    rw [attached_of_not_listed hs hlisted] at hp
    exact hp.nil_eq.symm
  intro x hx
  constructor
  · by_contra hname
    obtain ⟨b, hb⟩ := Option.ne_none_iff_exists'.mp hname
    have hmem : newSlot x.dName b.toSysfsBus ∈ slotsOn ps buses es b.root := by
      rw [slotsOn, onBridge, List.mem_map]
      refine ⟨b.slot x, ?_, rfl⟩
      rw [List.mem_filter, List.mem_filterMap]
      exact ⟨⟨x, hx, by rw [slotNamed, hb, Option.map_some]⟩, by simp [ListedBus.slot]⟩
    rw [hnil b.root (hbus b (List.mem_of_find?_eq_some hb))] at hmem
    exact List.not_mem_nil hmem
  · intro hc
    by_contra hname
    obtain ⟨b, hb⟩ := Option.ne_none_iff_exists'.mp hname
    obtain ⟨hs, hperm⟩ := perm_of_mem_slotEntries hx
    have hlt := hbus b (List.mem_of_find?_eq_some hb)
    have hp := h _ hperm b.root hlt
    rw [attached_of_listed hs hc hb, hnil b.root hlt, onBridge, List.filter_cons,
      if_pos (by simp [ListedBus.slot])] at hp
    exact List.cons_ne_nil _ _ hp.eq_nil

/-- When every entry is attached, to where its address calls for, it finds the bus named. -/
theorem findsNamed_of_attached (hbus : ∀ b ∈ buses, b.root < bridges.length)
    (h : ∀ i < bridges.length,
      (onBridge (attached calloc ps buses es) i).Perm (slotsOn ps buses es i))
    (hall : ∀ e ∈ slotEntries es,
      Listed calloc ps (buses.map ListedBus.toSysfsBus) e = true) :
    ∀ e ∈ slotEntries es, FindsNamed buses (e.address.text ps) := by
  have hlt : ∀ find : CString → Option ListedBus, (∀ a b, find a = some b → b ∈ buses) →
      ∀ p ∈ (slotEntries es).filterMap fun e => (find (e.address.text ps)).map (·.slot e),
        p.2 < bridges.length := by
    intro find hfind p hp
    obtain ⟨e, -, he⟩ := List.mem_filterMap.mp hp
    obtain ⟨b, hb, rfl⟩ := Option.map_eq_some_iff.mp he
    exact hbus b (hfind _ b hb)
  have hattached : attached calloc ps buses es = (slotEntries es).filterMap fun e =>
      (prefixBus buses (e.address.text ps)).map (·.slot e) := by
    rw [attached, List.takeWhile_eq_self_iff.mpr hall]
    exact List.filterMap_congr fun e _ => placement_listed e
  rw [hattached] at h
  have hpairs := perm_of_onBridge (hlt (prefixBus buses) fun a b => List.mem_of_find?_eq_some)
    (hlt (namedBus buses) fun a b => List.mem_of_find?_eq_some) h
  have hfound := hpairs.map fun p => p.1.bus
  simp only [List.map_filterMap, Option.map_map, Function.comp_def, ListedBus.slot, newSlot]
    at hfound
  have haddresses : ∀ a ∈ (slotEntries es).map fun e => e.address.text ps,
      FindsNamed buses a := by
    refine findsNamed_of_perm ?_ ?_ ?_
    · exact List.forall_mem_map.mpr fun e _ => noNul_text ps e.address
    · exact List.forall_mem_map.mpr fun e he => ((listed_iff e).mp (hall e he)).2
    · rw [List.filterMap_map, List.filterMap_map]
      exact hfound
  exact List.forall_mem_map.mp haddresses

/-- Every slot gets to its bus in every order exactly when each has its memory and finds
    the bus it names, or when none names a bus and none finds one. -/
theorem attachesListed_iff (hbus : ∀ b ∈ buses, b.root < bridges.length)
    (hread : ∀ e ∈ slotEntries es, e.address.Reads) :
    AttachesListed calloc ps bridges buses es ↔
      (∀ e ∈ slotEntries es, calloc e.dName = true ∧ FindsNamed buses (e.address.text ps)) ∨
        ∀ e ∈ slotEntries es, namedBus buses (e.address.text ps) = none ∧
          (calloc e.dName = true → prefixBus buses (e.address.text ps) = none) := by
  rw [attachesListed_iff_perm hread]
  constructor
  · intro h
    by_cases hall : ∀ e ∈ slotEntries es, Listed calloc ps (buses.map ListedBus.toSysfsBus) e = true
    · exact .inl fun e he => ⟨((listed_iff e).mp (hall e he)).1,
        findsNamed_of_attached hbus (h es (.refl es)) hall e he⟩
    · push Not at hall
      obtain ⟨e, he, hlisted⟩ := hall
      exact .inr (none_of_not_listed hbus h he hlisted)
  · intro hcond es' hperm i hi
    have hent : ∀ e ∈ slotEntries es', e ∈ slotEntries es :=
      fun e he => (hperm.filter _).mem_iff.mp he
    have heq : attached calloc ps buses es' = (slotEntries es').filterMap (slotNamed ps buses) := by
      rcases hcond with hcond | hcond
      · have hall : ∀ e ∈ slotEntries es',
            Listed calloc ps (buses.map ListedBus.toSysfsBus) e = true := by
          intro e he
          obtain ⟨hc, hfinds⟩ := hcond e (hent e he)
          obtain ⟨b, -, hb, -⟩ := findsNamed_iff.mp hfinds
          exact (listed_iff e).mpr ⟨hc, by rw [hb, Option.isSome_some]⟩
        rw [attached, List.takeWhile_eq_self_iff.mpr hall]
        refine List.filterMap_congr fun e he => ?_
        obtain ⟨b, b', hb, hb', heq⟩ := findsNamed_iff.mp (hcond e (hent e he)).2
        have hroot : b.root = b'.root := Option.some.inj (congrArg SysfsBus.rootBridge heq)
        rw [placement_listed, slotNamed, hb, hb', Option.map_some, Option.map_some,
          ListedBus.slot, ListedBus.slot, heq, hroot]
      · have hnone : ∀ e ∈ slotEntries es', slotNamed ps buses e = none := by
          intro e he
          rw [slotNamed, (hcond e (hent e he)).1, Option.map_none]
        rw [List.filterMap_eq_nil_iff.mpr hnone, attached]
        have hnot : ∀ e ∈ slotEntries es',
            ¬ Listed calloc ps (buses.map ListedBus.toSysfsBus) e = true := by
          rintro e he hlisted
          obtain ⟨hc, hsome⟩ := (listed_iff e).mp hlisted
          rw [(hcond e (hent e he)).2 hc] at hsome
          exact absurd hsome (by simp)
        cases hes : slotEntries es' with
        | nil => rfl
        | cons e rest =>
          rw [List.takeWhile_cons, if_neg (hnot e (by rw [hes]; exact List.mem_cons_self))]
          rfl
    rw [heq, slotsOn]
    exact onBridge_perm ((hperm.filter _).filterMap _) i

end Order

/-- Two root bridges with their buses, and a bus behind a bridge of the first. -/
def bridge0 : SysfsRootBridge := ⟨"0000:00".toList ++ [nul], []⟩
def bridge1 : SysfsRootBridge := ⟨"0001:00".toList ++ [nul], []⟩
def bus0 : ListedBus := ⟨"0000:00".toList, 0⟩
def bus1 : ListedBus := ⟨"0001:00".toList, 1⟩
def bus5 : ListedBus := ⟨"0000:05".toList, 0⟩

/-- A slot on each of them, and one on a bus that is not listed. -/
def slot0 : SlotEntry := ⟨"1".toList, .data "0000:00:01\n".toList⟩
def slot1 : SlotEntry := ⟨"2".toList, .data "0001:00:02\n".toList⟩
def slot5 : SlotEntry := ⟨"3".toList, .data "0000:05:00\n".toList⟩
def unlistedSlot : SlotEntry := ⟨"4".toList, .data "0000:40:00\n".toList⟩

/-- In all orders of the directory, the slots `1` and `3` get to the first root bridge and
    `2` to the second. -/
theorem attachesListed_slots :
    AttachesListed (fun _ => true) ⟨4096, le_rfl⟩ [bridge0, bridge1] [bus0, bus1, bus5]
        [slot0, slot1, ⟨".".toList, .noRead⟩, slot5] ∧
      slotsOn ⟨4096, le_rfl⟩ [bus0, bus1, bus5]
          [slot0, slot1, ⟨".".toList, .noRead⟩, slot5] 0 =
        [newSlot "1".toList bus0.toSysfsBus, newSlot "3".toList bus5.toSysfsBus] ∧
      slotsOn ⟨4096, le_rfl⟩ [bus0, bus1, bus5]
          [slot0, slot1, ⟨".".toList, .noRead⟩, slot5] 1 =
        [newSlot "2".toList bus1.toSysfsBus] := by
  refine ⟨(attachesListed_iff (by decide) ?_).mpr (.inl (by decide)), by decide, by decide⟩
  have hent : slotEntries [slot0, slot1, ⟨".".toList, .noRead⟩, slot5] = [slot0, slot1, slot5] := by
    decide
  rw [hent]
  simp [slot0, slot1, slot5, FileRead.Reads]

/-- The slot on the listed bus is lost when `readdir` returns it second. -/
theorem not_attachesListed_unlistedSlot :
    ¬ AttachesListed (fun _ => true) ⟨4096, le_rfl⟩ [bridge0] [bus0] [slot0, unlistedSlot] := by
  intro h
  obtain ⟨ret, st, hrun, hst⟩ := h [unlistedSlot, slot0] [] (.swap _ _ _)
  obtain ⟨new, hnew, hp⟩ := hst 0 bridge0 rfl
  have hleft : createSysfsSlotList (fun _ => true) ⟨4096, le_rfl⟩ [bridge0] [bus0.toSysfsBus] []
      (some [unlistedSlot, slot0]) =
      .ok (1, ⟨[bridge0], [], "0000:40:00".toList ++ [nul]⟩) := by
    decide
  rw [List.map_singleton, hleft] at hrun
  rw [← (Prod.mk.inj (Except.ok.inj hrun)).2] at hnew
  have hnil : new = [] := by
    have := congrArg SysfsRootBridge.slots (Option.some.inj hnew)
    simpa using this
  rw [hnil] at hp
  exact absurd hp.nil_eq (by decide)

/-- Two buses whose names have seven characters in common: a slot on the second is not
    found there. -/
example : ¬ FindsNamed [⟨"10000:00".toList, 0⟩, ⟨"10000:0f".toList, 1⟩] "10000:0f:01".toList := by
  decide

end Pcitop.Tool
