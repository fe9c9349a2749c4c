import Pcitop.Common.Lifecycle
import Pcitop.Driver.DeviceName
import Pcitop.Driver.UtilState

/-!
# Loading and unloading the driver

`hplba_init` (`hplba_drv.c`) registers the class of the LBAs and walks the ACPI nodes;
`lba_probe` registers a device for each LBA it finds and appends it to `lba_list`, and
`hplba_exit` unregisters the devices of the list and the class. The calls to the driver core
are recorded in the order in which they are made.

When one of the two registrations of the class fails, `register_hplba_class` unregisters what
was not registered, and when no LBA is found `hplba_init` fails and leaves the class behind.

* `lbaProbe_cases`: what a visit to a node does.
* `hplbaInit_cases`: what is registered after a load.
* `balanced_iff`: the loads whose registrations are all undone when they fail, and by the
  unload when they succeed.
-/

namespace Pcitop.Driver

open Pcitop.Common Pcitop.Hplba

/-- `KERNEL_VERSION` of `<linux/version.h>`. -/
def KERNEL_VERSION (a b c : ℕ) : ℕ := a * 2 ^ 16 + b * 2 ^ 8 + c

/-- What the module registers: `lba_class`, `lba_class_inf` and the `dev` of an LBA. -/
inductive Obj where
  | lbaClass
  | lbaClassInf
  | dev (lba : ℕ)
  deriving DecidableEq, Repr

/-! ## The kernel -/

/-- The status of `acpi_evaluate_integer`, with the value it stores. -/
inductive Seg where
  | ok (value : BitVec 64)
  | notFound
  | failure
  deriving DecidableEq, Repr

/-- What the kernel answers when `lba_probe` visits a node. -/
structure AcpiNode where
  /-- The registers at the address that `hp_acpi_csr_space` finds, if it succeeds. -/
  hpAcpiCsrSpace : Option (Regs 64)
  /-- The result of `acpi_bus_get_device`. -/
  acpiBusGetDevice : ℤ
  /-- The address that `acpi_get_pci_id` stores, if it succeeds. -/
  acpiGetPciId : Option AcpiPciId
  /-- `kmalloc` finds memory. -/
  kmalloc : Bool
  /-- What `acpi_evaluate_integer` finds for `_SEG`. -/
  acpiEvaluateInteger : Seg
  /-- The result of `device_add`, before 2.6.26 of `class_device_register`. -/
  deviceAdd : ℤ

/-- What the kernel answers when the module is loaded. -/
structure Kernel where
  linuxVersionCode : ℕ
  /-- The result of `class_register`. -/
  classRegister : ℤ
  /-- The result of `class_interface_register`. -/
  classInterfaceRegister : ℤ
  /-- The nodes that `acpi_get_devices` visits for a PNP id, in their order. -/
  acpiGetDevices : CString → List AcpiNode

/-- There are class interfaces before 2.6.26 only. -/
def Kernel.HasInterface (k : Kernel) : Prop := k.linuxVersionCode < KERNEL_VERSION 2 6 26

instance (k : Kernel) : Decidable k.HasInterface :=
  inferInstanceAs (Decidable (k.linuxVersionCode < KERNEL_VERSION 2 6 26))

/-! ## The module -/

/-- `struct lba` (`hplba.h`, lines 244–257) as `lba_probe` fills it in. The objects that
    `kmalloc` hands out are numbered. -/
structure ProbedLba extends Lba (Regs 64) where
  lba : ℕ
  classId : CString
  segment : BitVec 16
  ops : Chip

/-- The state of the module: `lba_list`, the number of objects allocated and the calls to
    the driver core. -/
structure Module where
  lbaList : List ProbedLba
  allocated : ℕ
  calls : List (Registration Obj)

/-- The module before it is loaded. -/
def Module.unloaded : Module := ⟨[], 0, []⟩

/-- One more call. -/
def Module.call (m : Module) (c : Registration Obj) : Module := { m with calls := m.calls ++ [c] }

@[simp] theorem call_calls (m : Module) (c : Registration Obj) :
    (m.call c).calls = m.calls ++ [c] := rfl

/-- `LBA_FUNC_ID` (`hplba.h`, lines 204–207). -/
def LBA_FUNC_ID : LbaReg 64 where
  offset := 0x00
  field := { shift := 16, mask := 0xffff, fits := by decide }

/-- `apollo.h`, line 24. -/
def APOLLO_FUNC_ID : BitVec 64 := 0x4037

/-- `gemini.h`, line 24. -/
def GEMINI_FUNC_ID : BitVec 64 := 0x12ee

/-- `mercury.h`, line 24. -/
def MERCURY_FUNC_ID : BitVec 64 := 0x122e

/-- `lba_info_tab` (`hplba_drv.c`, lines 85–89). -/
def lbaInfoTab : List (BitVec 64 × Chip) :=
  [(APOLLO_FUNC_ID, .apollo), (GEMINI_FUNC_ID, .gemini), (MERCURY_FUNC_ID, .mercury)]

/-- `find_lba_ops` (`hplba_drv.c`, lines 198–207). -/
def findLbaOps (functionId : BitVec 64) : Option Chip :=
  (lbaInfoTab.find? fun e => functionId = e.1).map (·.2)

/-- `pnpids` (`hplba_drv.c`, lines 43–49). -/
def pnpids : List CString :=
  ["HPQ0002".toList, "HWP0002".toList, "HWP0003".toList, "HWP0007".toList]

/-- `register_hplba_class` (`hplba_sysfs.c`, lines 90–112). -/
def registerHplbaClass (k : Kernel) (m : Module) : ℤ × Module :=
  if k.classRegister ≠ 0 then
    -- `out_class`
    (1, m.call (.unregister .lbaClass))
  else
    let m := m.call (.register .lbaClass)
    if k.HasInterface then
      if k.classInterfaceRegister ≠ 0 then
        -- `out_inf`
        (1, (m.call (.unregister .lbaClassInf)).call (.unregister .lbaClass))
      else (0, m.call (.register .lbaClassInf))
    else (0, m)

/-- `unregister_hplba_class` (`hplba_sysfs.c`, lines 114–120). -/
def unregisterHplbaClass (k : Kernel) (m : Module) : Module :=
  let m := if k.HasInterface then m.call (.unregister .lbaClassInf) else m
  m.call (.unregister .lbaClass)

/-- `unregister_hplba_device` (`hplba_sysfs.c`, lines 145–152). -/
def unregisterHplbaDevice (lba : ℕ) (m : Module) : Module := m.call (.unregister (.dev lba))

/-- The segment that `lba_probe` stores (`hplba_drv.c`, lines 275–285). -/
def probedSegment : Seg → BitVec 16
  | .ok value => value.setWidth 16
  | .notFound => 0
  | .failure => 0xffff

/-- `lba_probe` (`hplba_drv.c`, lines 209–306); an error is the state in which the kernel
    oopses. -/
def lbaProbe (m : Module) (node : AcpiNode) : Except Module Module :=
  match node.hpAcpiCsrSpace with
  | none => .ok m
  | some regs =>
    let functionId := lbaReg regs LBA_FUNC_ID
    if functionId ≠ APOLLO_FUNC_ID ∧ functionId ≠ GEMINI_FUNC_ID ∧
        functionId ≠ MERCURY_FUNC_ID then .ok m
    else if node.acpiBusGetDevice ≠ 0 then .ok m
    else
      match node.acpiGetPciId with
      | none => .ok m
      | some pciId =>
        -- the `memset` stands before the test for `NULL`
        if node.kmalloc = false then .error m
        else
          let lba := m.allocated
          let m := { m with allocated := lba + 1 }
          match findLbaOps functionId with
          | none => .ok m
          | some ops =>
            let segment := probedSegment node.acpiEvaluateInteger
            let classId := registerHplbaDevice (zeroed BUS_ID_SIZE) pciId
            if node.deviceAdd ≠ 0 then .ok m
            else
              let m := m.call (.register (.dev lba))
              .ok { m with lbaList := m.lbaList ++ [⟨⟨.unk, regs⟩, lba, classId, segment, ops⟩] }

/-- `find_lbas` (`hplba_drv.c`, lines 308–321). -/
def findLbas (k : Kernel) (m : Module) : Except Module (ℤ × Module) := do
  let m ← pnpids.foldlM (fun m pnpid => (k.acpiGetDevices pnpid).foldlM lbaProbe m) m
  if m.lbaList.isEmpty then return (-1, m) else return (0, m)

/-- `hplba_init` (`hplba_drv.c`, lines 323–340). -/
def Kernel.hplbaInit (k : Kernel) : Except Module (ℤ × Module) := do
  let (ret, m) := registerHplbaClass k .unloaded
  if ret ≠ 0 then return (1, m)
  let (ret, m) ← findLbas k m
  if ret = -1 then return (1, m)
  return (0, m)

/-- The `list_for_each_safe` loop of `hplba_exit`. -/
def exitLoop : List ProbedLba → Module → Module
  | [], m => m
  | l :: rest, m => exitLoop rest (unregisterHplbaDevice l.lba { m with lbaList := rest })

/-- `hplba_exit` (`hplba_drv.c`, lines 342–355). -/
def Kernel.hplbaExit (k : Kernel) (m : Module) : Module :=
  unregisterHplbaClass k (exitLoop m.lbaList m)

/-! ## The class -/

/-- The class is registered, and its interface where there is one. -/
def Kernel.ClassRegisters (k : Kernel) : Prop :=
  k.classRegister = 0 ∧ (k.HasInterface → k.classInterfaceRegister = 0)

/-- The class, and its interface where there is one. -/
def Kernel.classObjs (k : Kernel) : List Obj :=
  if k.HasInterface then [.lbaClass, .lbaClassInf] else [.lbaClass]

theorem lbaClass_mem_classObjs (k : Kernel) : .lbaClass ∈ k.classObjs := by
  unfold Kernel.classObjs
  split_ifs <;> simp

theorem nodup_classObjs (k : Kernel) : k.classObjs.Nodup := by
  unfold Kernel.classObjs
  split_ifs <;> simp

theorem dev_not_mem_classObjs (k : Kernel) (lba : ℕ) : .dev lba ∉ k.classObjs := by
  unfold Kernel.classObjs
  split_ifs <;> simp

/-- The module after its class is registered. -/
def Kernel.classLoaded (k : Kernel) : Module := ⟨[], 0, k.classObjs.map .register⟩

theorem registerHplbaClass_of_registers {k : Kernel} (h : k.ClassRegisters) :
    registerHplbaClass k .unloaded = (0, k.classLoaded) := by
  obtain ⟨hclass, hinf⟩ := h
  unfold registerHplbaClass Kernel.classLoaded Kernel.classObjs
  rw [if_neg (not_not_intro hclass)]
  by_cases h : k.HasInterface
  · rw [if_pos h, if_pos h, if_neg (not_not_intro (hinf h))]
    rfl
  · rw [if_neg h, if_neg h]
    rfl

/-- What failed to register is unregistered. -/
theorem registerHplbaClass_of_not {k : Kernel} (h : ¬ k.ClassRegisters) :
    (registerHplbaClass k .unloaded).1 = 1 ∧
      ¬ Orderly (registerHplbaClass k .unloaded).2.calls := by
  unfold registerHplbaClass
  by_cases hclass : k.classRegister = 0
  · obtain ⟨hinf, hret⟩ : k.HasInterface ∧ k.classInterfaceRegister ≠ 0 := by
      by_contra hnot
      exact h ⟨hclass, fun hinf => by_contra fun hret => hnot ⟨hinf, hret⟩⟩
    rw [if_neg (not_not_intro hclass), if_pos hinf, if_pos hret]
    refine ⟨rfl, fun horderly => ?_⟩
    have hmem := horderly [.register .lbaClass] .lbaClassInf [.unregister .lbaClass] rfl
    simp [registered, runAll, Registration.step] at hmem
  · rw [if_pos hclass]
    exact ⟨rfl, fun horderly => horderly [] .lbaClass [] rfl⟩

theorem calls_unregisterHplbaClass (k : Kernel) (m : Module) :
    (unregisterHplbaClass k m).calls = m.calls ++ k.classObjs.reverse.map .unregister := by
  unfold unregisterHplbaClass Kernel.classObjs
  split_ifs <;> simp

/-! ## A visit -/

/-- The node is an LBA of a known kind, with a device and an address. -/
def AcpiNode.Known (node : AcpiNode) : Prop :=
  (∃ regs ∈ node.hpAcpiCsrSpace, (findLbaOps (lbaReg regs LBA_FUNC_ID)).isSome) ∧
    node.acpiBusGetDevice = 0 ∧ node.acpiGetPciId.isSome

/-- The visit clears an object that could not be allocated. -/
def AcpiNode.Faults (node : AcpiNode) : Prop := node.Known ∧ node.kmalloc = false

/-- The visit registers a device. -/
def AcpiNode.Registers (node : AcpiNode) : Prop :=
  node.Known ∧ node.kmalloc = true ∧ node.deviceAdd = 0

/-- The table has operations for the function ids that `lba_probe` lets through. -/
theorem findLbaOps_eq_none_iff (functionId : BitVec 64) :
    findLbaOps functionId = none ↔ functionId ≠ APOLLO_FUNC_ID ∧ functionId ≠ GEMINI_FUNC_ID ∧
      functionId ≠ MERCURY_FUNC_ID := by
  simp [findLbaOps, lbaInfoTab]

/-- The module after it registered the device of one more LBA. -/
def Module.append (m : Module) (l : ProbedLba) : Module :=
  ⟨m.lbaList ++ [l], m.allocated + 1, m.calls ++ [.register (.dev l.lba)]⟩

theorem lbaProbe_of_not_known (m : Module) {node : AcpiNode} (h : ¬ node.Known) :
    lbaProbe m node = .ok m := by
  unfold lbaProbe
  cases hcsr : node.hpAcpiCsrSpace with
  | none => rfl
  | some regs =>
    by_cases hid : findLbaOps (lbaReg regs LBA_FUNC_ID) = none
    · exact if_pos ((findLbaOps_eq_none_iff _).mp hid)
    by_cases hdev : node.acpiBusGetDevice = 0
    · cases hpci : node.acpiGetPciId with
      | none => simp [hdev]
      | some pciId =>
        exact absurd ⟨⟨regs, hcsr, Option.isSome_iff_ne_none.mpr hid⟩, hdev, by simp [hpci]⟩ h
    · simp [hdev]

theorem lbaProbe_of_known (m : Module) {node : AcpiNode} (h : node.Known) :
    ∃ l : ProbedLba, l.lba = m.allocated ∧
      lbaProbe m node =
        if node.kmalloc = false then .error m
        else if node.deviceAdd ≠ 0 then .ok { m with allocated := m.allocated + 1 }
        else .ok (m.append l) := by
  obtain ⟨⟨regs, hcsr, hid⟩, hdev, hpci⟩ := h
  obtain ⟨ops, hops⟩ := Option.isSome_iff_exists.mp hid
  obtain ⟨pciId, hpci⟩ := Option.isSome_iff_exists.mp hpci
  have hswitch := (not_congr (findLbaOps_eq_none_iff _)).mp (Option.isSome_iff_ne_none.mp hid)
  refine ⟨⟨⟨.unk, regs⟩, m.allocated, registerHplbaDevice (zeroed BUS_ID_SIZE) pciId,
    probedSegment node.acpiEvaluateInteger, ops⟩, rfl, ?_⟩
  unfold lbaProbe
  rw [hcsr, hpci]
  simp only [if_neg hswitch, if_neg (not_not_intro hdev), hops]
  rfl

/-- A visit oopses, or registers no device, or registers one and appends it to the list. -/
theorem lbaProbe_cases (m : Module) (node : AcpiNode) :
    (node.Faults ∧ lbaProbe m node = .error m) ∨
    (¬ node.Faults ∧ ¬ node.Registers ∧
      ∃ n, m.allocated ≤ n ∧ lbaProbe m node = .ok { m with allocated := n }) ∨
    (¬ node.Faults ∧ node.Registers ∧
      ∃ l : ProbedLba, l.lba = m.allocated ∧ lbaProbe m node = .ok (m.append l)) := by
  by_cases hknown : node.Known
  · obtain ⟨l, hl, heq⟩ := lbaProbe_of_known m hknown
    by_cases halloc : node.kmalloc = false
    · exact .inl ⟨⟨hknown, halloc⟩, heq.trans (if_pos halloc)⟩
    rw [if_neg halloc] at heq
    have hfaults : ¬ node.Faults := fun h => halloc h.2
    by_cases hadd : node.deviceAdd = 0
    · rw [if_neg (not_not_intro hadd)] at heq
      have hregisters : node.Registers := ⟨hknown, by simpa using halloc, hadd⟩
      exact .inr (.inr ⟨hfaults, hregisters, l, hl, heq⟩)
    · rw [if_pos hadd] at heq
      exact .inr (.inl ⟨hfaults, fun h => hadd h.2.2, m.allocated + 1, by omega, heq⟩)
  · exact .inr (.inl ⟨fun h => hknown h.1, fun h => hknown h.1, m.allocated, le_rfl,
      lbaProbe_of_not_known m hknown⟩)

/-! ## The walk -/

/-- The objects on `lba_list`. -/
def Module.lbas (m : Module) : List ℕ := m.lbaList.map (·.lba)

/-- The class and the devices of the list are registered, and nothing else; the objects of
    the list are different. -/
structure Module.Inv (k : Kernel) (m : Module) : Prop where
  calls : m.calls = (k.classObjs ++ m.lbas.map Obj.dev).map .register
  nodup : m.lbas.Nodup
  fresh : ∀ lba ∈ m.lbas, lba < m.allocated

theorem inv_classLoaded (k : Kernel) : k.classLoaded.Inv k where
  calls := by
    rw [show k.classLoaded.lbas = [] from rfl, List.map_nil, List.append_nil]
    rfl
  nodup := List.nodup_nil
  fresh := fun lba h => absurd h (List.not_mem_nil)

theorem Module.Inv.append {k : Kernel} {m : Module} (h : m.Inv k) {l : ProbedLba}
    (hl : l.lba = m.allocated) : (m.append l).Inv k := by
  have hlbas : (m.append l).lbas = m.lbas ++ [m.allocated] := by
    rw [Module.lbas, Module.append, List.map_append, List.map_singleton, hl]
    rfl
  constructor
  · show m.calls ++ [.register (.dev l.lba)] = _
    rw [hlbas, h.calls, hl]
    simp only [List.map_append, List.map_cons, List.map_nil, List.append_assoc]
  · rw [hlbas]
    refine h.nodup.append (List.nodup_singleton _) ?_
    rw [List.disjoint_singleton]
    intro hmem
    exact absurd (h.fresh _ hmem) (lt_irrefl _)
  · intro lba hmem
    show lba < m.allocated + 1
    rw [hlbas, List.mem_append, List.mem_singleton] at hmem
    obtain hmem | rfl := hmem
    · have := h.fresh lba hmem
      omega
    · omega

/-- A visit keeps the invariant. -/
theorem Module.Inv.lbaProbe {k : Kernel} (m : Module) (node : AcpiNode) (h : m.Inv k) :
    (final (lbaProbe m node)).Inv k := by
  obtain ⟨-, heq⟩ | ⟨-, -, n, hn, heq⟩ | ⟨-, -, l, hl, heq⟩ := lbaProbe_cases m node
  · rw [heq]
    exact h
  · rw [heq]
    exact ⟨h.calls, h.nodup, fun lba hmem => lt_of_lt_of_le (h.fresh lba hmem) hn⟩
  · rw [heq]
    exact h.append hl

/-- A walk oopses if a visit does; otherwise the list stays empty if no visit registers a
    device. -/
theorem foldlM_lbaProbe (nodes : List AcpiNode) (m : Module) :
    (∃ node ∈ nodes, node.Faults) ∧ (∃ m', nodes.foldlM lbaProbe m = .error m') ∨
    (∀ node ∈ nodes, ¬ node.Faults) ∧ ∃ m', nodes.foldlM lbaProbe m = .ok m' ∧
      (m'.lbaList = [] ↔ m.lbaList = [] ∧ ∀ node ∈ nodes, ¬ node.Registers) := by
  induction nodes generalizing m with
  | nil =>
    refine .inr ⟨fun node h => absurd h List.not_mem_nil, m, rfl, ?_⟩
    simp
  | cons node nodes ih =>
    simp only [List.foldlM_cons, List.exists_mem_cons_iff, List.forall_mem_cons]
    obtain ⟨hfaults, heq⟩ | ⟨hfaults, hregisters, n, -, heq⟩ | ⟨hfaults, hregisters, l, -, heq⟩ :=
      lbaProbe_cases m node
    · rw [heq]
      exact .inl ⟨.inl hfaults, m, rfl⟩
    · rw [heq]
      obtain ⟨hrest, herror⟩ | ⟨hrest, m', hok, hnil⟩ := ih { m with allocated := n }
      · exact .inl ⟨.inr hrest, herror⟩
      · exact .inr ⟨⟨hfaults, hrest⟩, m', hok, by simp [hnil, hregisters]⟩
    · rw [heq]
      obtain ⟨hrest, herror⟩ | ⟨hrest, m', hok, hnil⟩ := ih (m.append l)
      · exact .inl ⟨.inr hrest, herror⟩
      · refine .inr ⟨⟨hfaults, hrest⟩, m', hok, ?_⟩
        simp [hnil, hregisters, Module.append]

/-! ## Load and unload -/

/-- The nodes that `find_lbas` visits. -/
def Kernel.visits (k : Kernel) : List AcpiNode := pnpids.flatMap k.acpiGetDevices

theorem findLbas_eq (k : Kernel) (m : Module) :
    findLbas k m = (k.visits.foldlM lbaProbe m).map fun m =>
      (if m.lbaList.isEmpty then -1 else 0, m) := by
  unfold findLbas Kernel.visits
  rw [foldlM_flatMap]
  generalize pnpids.foldlM (fun m pnpid => (k.acpiGetDevices pnpid).foldlM lbaProbe m) m = r
  cases r with
  | error m => rfl
  | ok m =>
    show (if m.lbaList.isEmpty then .ok (-1, m) else .ok (0, m)) =
      Except.ok (if m.lbaList.isEmpty then (-1 : ℤ) else 0, m)
    split_ifs <;> rfl

/-- The module when `hplba_init` returns or the kernel oopses. -/
def Kernel.afterInit (k : Kernel) : Module :=
  match k.hplbaInit with
  | .ok (_, m) => m
  | .error m => m

/-- With its class the module walks the nodes, and fails if it finds no LBA. -/
theorem hplbaInit_of_registers {k : Kernel} (h : k.ClassRegisters) :
    k.hplbaInit = (k.visits.foldlM lbaProbe k.classLoaded).map fun m =>
      (if m.lbaList = [] then 1 else 0, m) := by
  unfold Kernel.hplbaInit
  rw [registerHplbaClass_of_registers h]
  show (findLbas k k.classLoaded >>= fun r =>
    if r.1 = -1 then .ok (1, r.2) else .ok (0, r.2)) = _
  rw [findLbas_eq]
  cases k.visits.foldlM lbaProbe k.classLoaded with
  | error m => rfl
  | ok m =>
    show (if (if m.lbaList.isEmpty then (-1 : ℤ) else 0) = -1 then _ else _) = Except.ok _
    by_cases hnil : m.lbaList = [] <;> simp [hnil]

theorem calls_exitLoop (ls : List ProbedLba) (m : Module) :
    (exitLoop ls m).calls = m.calls ++ ((ls.map (·.lba)).map Obj.dev).map .unregister := by
  induction ls generalizing m with
  | nil => simp [exitLoop]
  | cons l rest ih =>
    rw [exitLoop, ih]
    simp [unregisterHplbaDevice]

theorem calls_hplbaExit (k : Kernel) (m : Module) :
    (k.hplbaExit m).calls =
      m.calls ++ (m.lbas.map Obj.dev ++ k.classObjs.reverse).map .unregister := by
  rw [Kernel.hplbaExit, calls_unregisterHplbaClass, calls_exitLoop, List.append_assoc,
    ← List.map_append]
  rfl

/-- Registrations and unregistrations are paired: none is unregistered that is not
    registered, a failed load leaves nothing registered, and after one that succeeds
    `lba_list` holds the registered devices and the unload unregisters each of them and the
    class once. -/
structure Balanced (k : Kernel) : Prop where
  orderly : Orderly k.afterInit.calls
  failed : ∀ ret m, k.hplbaInit = .ok (ret, m) → ret ≠ 0 → registered m.calls = ∅
  listed : ∀ m, k.hplbaInit = .ok (0, m) →
    m.lbas.Nodup ∧ ∀ lba, lba ∈ m.lbas ↔ .dev lba ∈ registered m.calls
  unloads : ∀ m, k.hplbaInit = .ok (0, m) →
    Orderly (k.hplbaExit m).calls ∧ ∃ exitCalls, (k.hplbaExit m).calls = m.calls ++ exitCalls ∧
      (∀ lba ∈ m.lbas, exitCalls.count (.unregister (.dev lba)) = 1) ∧
      exitCalls.count (.unregister .lbaClass) = 1

/-- The class and its interface are registered, and a device: some visit registers one, or
    oopses so that the load does not return. -/
def Kernel.Loads (k : Kernel) : Prop :=
  k.ClassRegisters ∧ ∃ node ∈ k.visits, node.Registers ∨ node.Faults

theorem Module.Inv.registered_calls {k : Kernel} {m : Module} (h : m.Inv k) :
    registered m.calls = {a | a ∈ k.classObjs ++ m.lbas.map Obj.dev} := by
  rw [h.calls, registered_register]

theorem Module.Inv.mem_lbas_iff {k : Kernel} {m : Module} (h : m.Inv k) (lba : ℕ) :
    lba ∈ m.lbas ↔ .dev lba ∈ registered m.calls := by
  rw [h.registered_calls, Set.mem_ofPred_eq, List.mem_append,
    or_iff_right (dev_not_mem_classObjs k lba),
    List.mem_map_of_injective fun a b heq => Obj.dev.inj heq]

/-- An unload unregisters what is registered, each object once. -/
theorem Module.Inv.unloads {k : Kernel} {m : Module} (h : m.Inv k) :
    Orderly (k.hplbaExit m).calls ∧ ∃ exitCalls, (k.hplbaExit m).calls = m.calls ++ exitCalls ∧
      (∀ lba ∈ m.lbas, exitCalls.count (.unregister (.dev lba)) = 1) ∧
      exitCalls.count (.unregister .lbaClass) = 1 := by
  have hnodup : (m.lbas.map Obj.dev ++ k.classObjs.reverse).Nodup := by
    refine (h.nodup.map fun a b heq => Obj.dev.inj heq).append
      (List.nodup_reverse.mpr (nodup_classObjs k)) ?_
    intro a hdev hclass
    obtain ⟨lba, -, rfl⟩ := List.mem_map.mp hdev
    exact dev_not_mem_classObjs k lba (List.mem_reverse.mp hclass)
  constructor
  · rw [calls_hplbaExit, h.calls, orderly_map]
    refine ⟨hnodup, fun a ha => ?_⟩
    rw [List.mem_append, List.mem_reverse, or_comm] at ha
    exact List.mem_append.mpr ha
  · refine ⟨_, calls_hplbaExit k m, fun lba hlba => ?_, ?_⟩
    · apply count_unregister hnodup
      exact List.mem_append_left _ (List.mem_map_of_mem hlba)
    · apply count_unregister hnodup
      exact List.mem_append_right _ (List.mem_reverse.mpr (lbaClass_mem_classObjs k))

/-- An unload leaves nothing registered. -/
theorem Module.Inv.registered_hplbaExit {k : Kernel} {m : Module} (h : m.Inv k) :
    registered (k.hplbaExit m).calls = ∅ := by
  rw [calls_hplbaExit, h.calls, registered_map]
  ext a
  simp only [List.mem_append, List.mem_reverse, Set.mem_ofPred_eq, Set.mem_empty_iff_false]
  tauto

/-- A class that is not registered is unregistered all the same. -/
theorem not_orderly_of_not_registers {k : Kernel} (h : ¬ k.ClassRegisters) :
    ¬ Orderly k.afterInit.calls := by
  obtain ⟨hret, horderly⟩ := registerHplbaClass_of_not h
  have hinit : k.hplbaInit = .ok (1, (registerHplbaClass k .unloaded).2) := by
    unfold Kernel.hplbaInit
    simp only [hret]
    rfl
  unfold Kernel.afterInit
  rw [hinit]
  exact horderly

/-- With its class the module oopses in the walk, or finds no LBA and fails, or is loaded. -/
theorem hplbaInit_cases {k : Kernel} (h : k.ClassRegisters) :
    ∃ m : Module, m.Inv k ∧
      (k.hplbaInit = .error m ∧ (∃ node ∈ k.visits, node.Faults) ∨
        k.hplbaInit = .ok (1, m) ∧ (∀ node ∈ k.visits, ¬ node.Faults ∧ ¬ node.Registers) ∨
        k.hplbaInit = .ok (0, m) ∧ ∃ node ∈ k.visits, node.Registers) := by
  have hinv := foldlM_inv (P := Module.Inv k) Module.Inv.lbaProbe k.visits (inv_classLoaded k)
  rw [hplbaInit_of_registers h]
  obtain ⟨hfaults, m, hwalk⟩ | ⟨hfaults, m, hwalk, hnil⟩ :=
    foldlM_lbaProbe k.visits k.classLoaded
  · rw [hwalk] at hinv ⊢
    exact ⟨m, hinv, .inl ⟨rfl, hfaults⟩⟩
  · rw [hwalk] at hinv ⊢
    refine ⟨m, hinv, .inr ?_⟩
    by_cases hempty : m.lbaList = []
    · refine .inl ⟨?_, fun node hnode => ⟨hfaults node hnode, (hnil.mp hempty).2 node hnode⟩⟩
      show Except.ok (if m.lbaList = [] then (1 : ℤ) else 0, m) = _
      rw [if_pos hempty]
    · refine .inr ⟨?_, ?_⟩
      · show Except.ok (if m.lbaList = [] then (1 : ℤ) else 0, m) = _
        rw [if_neg hempty]
      · by_contra hnone
        exact hempty (hnil.mpr ⟨rfl, fun node hnode hreg => hnone ⟨node, hnode, hreg⟩⟩)

/-- Loading and unloading are balanced exactly when the class is registered, with its
    interface where there is one, and some visit registers a device or oopses. -/
theorem balanced_iff (k : Kernel) : Balanced k ↔ k.Loads := by
  by_cases hclass : k.ClassRegisters
  · obtain ⟨m, hinv, hinit⟩ := hplbaInit_cases hclass
    have horderly : Orderly m.calls := by
      rw [hinv.calls]
      exact orderly_register _
    obtain ⟨hinit, node, hnode, hfaults⟩ | ⟨hinit, hnone⟩ | ⟨hinit, node, hnode, hreg⟩ := hinit
    · refine iff_of_true ⟨?_, ?_, ?_, ?_⟩ ⟨hclass, node, hnode, .inr hfaults⟩
      · rwa [Kernel.afterInit, hinit]
      all_goals simp [hinit]
    · -- the class stays registered
      refine iff_of_false (fun h => ?_) ?_
      · have hempty := h.failed 1 m hinit one_ne_zero
        rw [hinv.registered_calls] at hempty
        have hmem : .lbaClass ∈ {a | a ∈ k.classObjs ++ m.lbas.map Obj.dev} :=
          List.mem_append_left _ (lbaClass_mem_classObjs k)
        rw [hempty] at hmem
        exact hmem
      · rintro ⟨-, node, hnode, hreg | hfaults⟩
        · exact (hnone node hnode).2 hreg
        · exact (hnone node hnode).1 hfaults
    · have hloaded : ∀ {ret m'}, k.hplbaInit = .ok (ret, m') → ret = 0 ∧ m' = m := by
        intro ret m' heq
        rw [hinit, Except.ok.injEq, Prod.mk.injEq] at heq
        exact ⟨heq.1.symm, heq.2.symm⟩
      refine iff_of_true ⟨?_, ?_, ?_, ?_⟩ ⟨hclass, node, hnode, .inl hreg⟩
      · rwa [Kernel.afterInit, hinit]
      · intro ret m' heq hret
        exact absurd (hloaded heq).1 hret
      · intro m' heq
        obtain ⟨-, rfl⟩ := hloaded heq
        exact ⟨hinv.nodup, hinv.mem_lbas_iff⟩
      · intro m' heq
        obtain ⟨-, rfl⟩ := hloaded heq
        exact hinv.unloads
  · exact iff_of_false (fun h => not_orderly_of_not_registers hclass h.orderly)
      fun h => hclass h.1

/-- Linux 2.6.27 on a machine without LBAs. -/
def noLbaKernel : Kernel := ⟨KERNEL_VERSION 2 6 27, 0, 0, fun _ => []⟩

/-- The load fails and the class stays registered. -/
theorem not_balanced_noLba : ¬ Balanced noLbaKernel := by
  intro h
  have hinit : noLbaKernel.hplbaInit = .ok (1, ⟨[], 0, [.register .lbaClass]⟩) := rfl
  have hempty := h.failed 1 _ hinit one_ne_zero
  simp [registered, runAll, Registration.step] at hempty

end Pcitop.Driver
