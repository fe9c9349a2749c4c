import Pcitop.Driver.DeviceName
import Pcitop.Tool.BusId
import Pcitop.Tool.PciId

/-!
# Names between driver and tool

The driver names a device `%04x:%02x:%02x.%d`. The tool scans the name for the
address, and finds the root bridge by the characters before the second colon.

* `nameToPciId_deviceText`: the scan gives back the address.
* `find?_of_getElem?`: the bridge found is the one of that segment and bus.
* `deviceName_roundTrip`: both, and that two devices find the same bridge exactly
  when they agree on segment and bus.
-/

namespace Pcitop.System

open Pcitop.Common Pcitop.Driver Pcitop.Tool

/-- The segment and bus of an address. -/
def busIdOf (id : AcpiPciId) (h : id.Valid) : BusId where
  domain := id.segment.toFin
  bus := ⟨id.bus.toNat, by have := h.bus; omega⟩

/-- The address as the tool keeps it. -/
def pciIdOf (id : AcpiPciId) : PciId where
  pciDomain := id.segment.setWidth 32
  pciBusid := id.bus.setWidth 32
  pciAddr := id.device.setWidth 32
  pciFunc := id.function.setWidth 32

theorem busIdOf_eq_iff {id id' : AcpiPciId} (h : id.Valid) (h' : id'.Valid) :
    busIdOf id h = busIdOf id' h' ↔ id.segment = id'.segment ∧ id.bus = id'.bus := by
  simp only [busIdOf, BusId.mk.injEq, Fin.mk.injEq, BitVec.toNat_inj]
  constructor
  · rintro ⟨hs, hb⟩
    exact ⟨BitVec.eq_of_toFin_eq hs, hb⟩
  · rintro ⟨hs, hb⟩
    exact ⟨by rw [hs], hb⟩

/-- A name is a bus address, then device and function. -/
theorem deviceText_eq {id : AcpiPciId} (h : id.Valid) :
    deviceText id = (busIdOf id h).text ++
      ':' :: (hexPad 2 id.device.toNat ++ '.' :: hexPad 1 id.function.toNat) := by
  rw [deviceText, dec_eq_hexPad h.function]
  simp [BusId.text, busIdOf]

/-! ## The address -/

theorem ofNat_toNat_16 (v : BitVec 16) : BitVec.ofNat 32 v.toNat = v.setWidth 32 := by
  apply BitVec.eq_of_toNat_eq
  simp

/-- `%04x:%02x:%02x.%01x` reads back a name. -/
theorem sscanf_deviceText {id : AcpiPciId} (h : id.Valid) :
    sscanf longFmt (deviceText id) =
      [.uint (id.segment.setWidth 32), .uint (id.bus.setWidth 32),
        .uint (id.device.setWidth 32), .uint (id.function.setWidth 32)] := by
  have hd := scan_x_hexPad (w := 2) (by norm_num)
    (show id.device.toNat < 16 ^ 2 by have := h.device; omega) (by norm_num)
    ('.' :: hexPad 1 id.function.toNat)
  have hf := scan_x_hexPad (w := 1) (by norm_num)
    (show id.function.toNat < 16 ^ 1 by have := h.function; omega) (by norm_num) []
  rw [List.append_nil] at hf
  rw [sscanf, cstr_eq_self (noNul_deviceText id), deviceText_eq h, longFmt, shortFmt,
    runDirectives_busId, runDirectives_lit, runDirectives_conv hd, runDirectives_lit,
    runDirectives_conv hf, runDirectives_nil]
  simp only [← ofNat_toNat_16]
  rfl

/-- `name_to_pci_id` assigns all four fields. -/
theorem nameToPciId_deviceText {id : AcpiPciId} (h : id.Valid) (old : PciId) :
    (nameToPciId (deviceText id) old).2 = pciIdOf id := by
  have hlen : strlen (deviceText id) = 12 := by
    rw [strlen, cstr_eq_self (noNul_deviceText id), length_deviceText h]
  rw [nameToPciId, hlen, if_neg (by norm_num), if_pos rfl]
  simp only [scanLong, sscanf_deviceText h]
  rfl

/-! ## The root bridge -/

/-- Bridges with the names of distinct addresses are found by position. -/
theorem find?_of_getElem? {bridges : List SysfsRootBridge} {ids : List BusId}
    (hnames : bridges.map (fun b => cstr b.name) = ids.map BusId.text) (hnodup : ids.Nodup)
    {i : ℕ} {id : BusId} (hi : ids[i]? = some id) :
    (bridges.find? fun b => cstr b.name = id.text) = bridges[i]? := by
  have hlen : bridges.length = ids.length := by
    simpa using congrArg List.length hnames
  obtain ⟨hlt, hget⟩ := List.getElem?_eq_some_iff.mp hi
  have hat : ∀ j (hj : j < ids.length), cstr bridges[j].name = ids[j].text := by
    intro j hj
    have := congrArg (fun l : List CString => l[j]?) hnames
    simpa [hj, hlen] using this
  rw [List.getElem?_eq_getElem (by omega), List.find?_eq_some_iff_getElem]
  refine ⟨by rw [hat i hlt, hget]; exact decide_eq_true rfl, i, by omega, rfl, ?_⟩
  intro j hj
  have hne : ids[j] ≠ id := by
    rw [← hget, ne_eq, hnodup.getElem_inj_iff]
    omega
  have hname : cstr bridges[j].name ≠ id.text := by
    rw [hat j (by omega)]
    exact fun h => hne (BusId.text_injective h)
  simpa using hname

/-- The names of bridges formatted from distinct addresses. -/
theorem map_cstr_name {bridges : List SysfsRootBridge} {ids : List BusId}
    (h : bridges.map (·.name) = ids.map fun id => (bridgeOf id).name) :
    bridges.map (fun b => cstr b.name) = ids.map BusId.text := by
  calc bridges.map (fun b => cstr b.name)
      = (bridges.map (·.name)).map cstr := by rw [List.map_map]; rfl
    _ = (ids.map fun id => (bridgeOf id).name).map cstr := by rw [h]
    _ = ids.map BusId.text := by
      rw [List.map_map]
      exact List.map_congr_left fun id _ => cstr_bridgeOf_name id

/-- A name selects the bridge of its segment and bus. -/
theorem getSysfsRootBridge_deviceText {bridges : List SysfsRootBridge} {ids : List BusId}
    (hnames : bridges.map (fun b => cstr b.name) = ids.map BusId.text) {id : AcpiPciId}
    (h : id.Valid) :
    getSysfsRootBridge bridges (deviceText id) =
      bridges.find? fun b => cstr b.name = (busIdOf id h).text := by
  rw [deviceText_eq h, getSysfsRootBridge_text]
  intro b hb
  have hmem : cstr b.name ∈ ids.map BusId.text := hnames ▸ List.mem_map_of_mem hb
  obtain ⟨id', -, hid'⟩ := List.mem_map.mp hmem
  rw [← hid', id'.length_text]

/-- Over root bridges formatted from distinct addresses, the name the driver gives
    a device is decoded into its address, selects the bridge of its segment and bus
    if there is one, and two devices that have a bridge have the same one exactly
    when they agree on segment and bus. -/
theorem deviceName_roundTrip {bridges : List SysfsRootBridge} {ids : List BusId}
    (hnodup : ids.Nodup)
    (hnames : bridges.map (·.name) = ids.map fun id => (bridgeOf id).name)
    {id id' : AcpiPciId} (h : id.Valid) (h' : id'.Valid) (classId classId' : CString)
    (old : PciId) :
    let name := cstr (registerHplbaDevice classId id)
    let name' := cstr (registerHplbaDevice classId' id')
    (nameToPciId name old).2 = pciIdOf id ∧
      (∀ i : ℕ, ids[i]? = some (busIdOf id h) →
        getSysfsRootBridge bridges name = bridges[i]? ∧ i < bridges.length) ∧
      (busIdOf id h ∉ ids → getSysfsRootBridge bridges name = none) ∧
      ∀ b b', getSysfsRootBridge bridges name = some b →
        getSysfsRootBridge bridges name' = some b' →
        (b = b' ↔ id.segment = id'.segment ∧ id.bus = id'.bus) := by
  have htexts := map_cstr_name hnames
  intro name name'
  have hname : name = deviceText id := cstr_registerHplbaDevice classId h
  have hname' : name' = deviceText id' := cstr_registerHplbaDevice classId' h'
  rw [hname, hname', getSysfsRootBridge_deviceText htexts h,
    getSysfsRootBridge_deviceText htexts h']
  refine ⟨nameToPciId_deviceText h old, ?_, ?_, ?_⟩
  · intro i hi
    refine ⟨find?_of_getElem? htexts hnodup hi, ?_⟩
    have hlen : bridges.length = ids.length := by
      simpa using congrArg List.length htexts
    obtain ⟨hlt, -⟩ := List.getElem?_eq_some_iff.mp hi
    omega
  · intro hmem
    rw [List.find?_eq_none]
    intro b hb hm
    have hin : cstr b.name ∈ ids.map BusId.text := htexts ▸ List.mem_map_of_mem hb
    obtain ⟨id₂, hid₂, htext⟩ := List.mem_map.mp hin
    have heq : id₂ = busIdOf id h := BusId.text_injective (htext.trans (of_decide_eq_true hm))
    exact hmem (heq ▸ hid₂)
  · intro b b' hb hb'
    have hbt : cstr b.name = (busIdOf id h).text := by simpa using List.find?_some hb
    have hbt' : cstr b'.name = (busIdOf id' h').text := by simpa using List.find?_some hb'
    rw [← busIdOf_eq_iff h h']
    constructor
    · intro heq
      rw [heq, hbt'] at hbt
      exact (BusId.text_injective hbt).symm
    · intro heq
      rw [heq, hb', Option.some.injEq] at hb
      exact hb.symm

/-- Three root bridges, of which two have the same bus number. -/
def threeRoots : List BusId := [⟨0, 0⟩, ⟨1, 0x40⟩, ⟨0, 0x40⟩]

theorem deviceName_roundTrip_threeRoots :
    let bridges := threeRoots.map bridgeOf
    let name := cstr (registerHplbaDevice [] ⟨1, 0x40, 2, 1⟩)
    let name' := cstr (registerHplbaDevice [] ⟨0, 0x40, 0, 0⟩)
    let stray := cstr (registerHplbaDevice [] ⟨1, 0, 0, 0⟩)
    (nameToPciId name ⟨0, 0, 0, 0⟩).2 = ⟨1, 0x40, 2, 1⟩ ∧
      getSysfsRootBridge bridges name = some (bridgeOf ⟨1, 0x40⟩) ∧
      getSysfsRootBridge bridges name' = some (bridgeOf ⟨0, 0x40⟩) ∧
      bridgeOf ⟨1, 0x40⟩ ≠ bridgeOf ⟨0, 0x40⟩ ∧ getSysfsRootBridge bridges stray = none := by
  intro bridges name name' stray
  have hnames : bridges.map (·.name) = threeRoots.map fun id => (bridgeOf id).name := rfl
  have hvalid : AcpiPciId.Valid ⟨1, 0x40, 2, 1⟩ := ⟨by decide, by decide, by decide⟩
  have hvalid' : AcpiPciId.Valid ⟨0, 0x40, 0, 0⟩ := ⟨by decide, by decide, by decide⟩
  have hstray : AcpiPciId.Valid ⟨1, 0, 0, 0⟩ := ⟨by decide, by decide, by decide⟩
  obtain ⟨hscan, hfound, -, hsame⟩ :=
    deviceName_roundTrip (by decide) hnames hvalid hvalid' [] [] ⟨0, 0, 0, 0⟩
  obtain ⟨-, hfound', -⟩ :=
    deviceName_roundTrip (by decide) hnames hvalid' hvalid [] [] ⟨0, 0, 0, 0⟩
  obtain ⟨-, -, hnone, -⟩ :=
    deviceName_roundTrip (by decide) hnames hstray hvalid [] [] ⟨0, 0, 0, 0⟩
  have hbridge := (hfound 1 rfl).1
  have hbridge' := (hfound' 2 rfl).1
  refine ⟨hscan, hbridge, hbridge', ?_, hnone ?_⟩
  · intro heq
    exact absurd ((hsame _ _ hbridge hbridge').mp heq).1 (by decide)
  · show (⟨1, 0⟩ : BusId) ∉ threeRoots
    decide

end Pcitop.System
