import Pcitop.Driver.UtilState
import Pcitop.Hplba.NameTables
import Pcitop.Tool.LbaInfo

/-!
# The tables of the driver and of the tool

`hplba_drv.c` and `pcitop.c` define the name tables that the lookups of `hplba.h` search.
The driver keeps the entries in the order of the values; the tool has the one of UNK first,
so that the index of UNK is that of another entry there.

* `tables_lookUp`: in every table the lookups find what they are meant to find.
* `tables_agree_iff`: driver and tool agree on every string, and on an integer exactly when
  it is a value of the enumeration.
-/

namespace Pcitop.Driver

open Pcitop.Hplba

/-- `bus_op_modes_tab` of the driver (`hplba_drv.c`, lines 52–60). -/
def busOpModesTab : List (NameEntry LbaBusOpModes) :=
  [⟨.agp, "AGP".toList⟩, ⟨.pci, "PCI".toList⟩, ⟨.pciX, "PCI-X mode 1".toList⟩,
    ⟨.pciXEcc, "mode 1 ECC".toList⟩, ⟨.pciX2Ecc, "PCI-X mode 2 ECC".toList⟩,
    ⟨.pcie, "PCIe".toList⟩, ⟨.unkType, "unknown".toList⟩]

/-- `bus_speeds_tab` of the driver (lines 62–75). -/
def busSpeedsTab : List (NameEntry LbaBusSpeeds) :=
  [⟨.mhz66, "66 MHz".toList⟩, ⟨.mhz100, "100 MHz".toList⟩, ⟨.mhz133, "133 MHz".toList⟩,
    ⟨.mhz266, "266 MHz".toList⟩, ⟨.x1, "x1".toList⟩, ⟨.x2, "x2".toList⟩, ⟨.x4, "x4".toList⟩,
    ⟨.x8, "x8".toList⟩, ⟨.agp1x, "1x".toList⟩, ⟨.agp2x, "2x".toList⟩, ⟨.agp4x, "4x".toList⟩,
    ⟨.unkSpeed, "unknown".toList⟩]

end Pcitop.Driver

namespace Pcitop.Tool

open Pcitop.Hplba

/-- `util_states_tab` of the tool (`pcitop.c`, lines 108–114). -/
def utilStatesTab : List (NameEntry LbaUtilStates) :=
  [⟨.unk, "unknown".toList⟩, ⟨.init, "init".toList⟩, ⟨.reset, "reset".toList⟩,
    ⟨.start, "start".toList⟩, ⟨.stop, "stop".toList⟩]

end Pcitop.Tool

namespace Pcitop.System

open Pcitop.Common Pcitop.Hplba

/-! ## The enumerations -/

theorem code_injective_busOpModes : Function.Injective LbaBusOpModes.code := by
  intro v v' h
  cases v <;> cases v' <;> first | rfl | exact absurd h (by decide)

theorem code_injective_busSpeeds : Function.Injective LbaBusSpeeds.code := by
  intro v v' h
  cases v <;> cases v' <;> first | rfl | exact absurd h (by decide)

theorem code_injective_utilStates : Function.Injective LbaUtilStates.code := by
  intro v v' h
  cases v <;> cases v' <;> first | rfl | exact absurd h (by decide)

/-! ## The tables -/

theorem nameTable_driver_busOpModes :
    NameTable LbaBusOpModes.code .unkType Driver.busOpModesTab where
  injective := code_injective_busOpModes
  length := rfl
  complete v := by cases v <;> decide
  values := by decide
  names := by decide
  oneLine := by decide
  unknown := by decide

theorem nameTable_driver_busSpeeds :
    NameTable LbaBusSpeeds.code .unkSpeed Driver.busSpeedsTab where
  injective := code_injective_busSpeeds
  length := rfl
  complete v := by cases v <;> decide
  values := by decide
  names := by decide
  oneLine := by decide
  unknown := by decide

theorem nameTable_driver_utilStates :
    NameTable LbaUtilStates.code .unk Driver.utilStatesTab where
  injective := code_injective_utilStates
  length := rfl
  complete v := by cases v <;> decide
  values := by decide
  names := by decide
  oneLine := by decide
  unknown := by decide

theorem perm_busOpModes : Driver.busOpModesTab.Perm Tool.busOpModesTab := by decide

theorem perm_busSpeeds : Driver.busSpeedsTab.Perm Tool.busSpeedsTab := by decide

theorem perm_utilStates : Driver.utilStatesTab.Perm Tool.utilStatesTab := by decide

/-! ## The lookups -/

/-- The lookups in the tables of the driver and in those of the tool find what they are
    meant to find. -/
theorem tables_lookUp :
    (LooksUp LbaBusOpModes.code .unkType Driver.busOpModesTab
      (hplbaBusOpModeToStr Driver.busOpModesTab) (hplbaBusOpModeToValue Driver.busOpModesTab)) ∧
    (LooksUp LbaBusSpeeds.code .unkSpeed Driver.busSpeedsTab
      (hplbaBusSpeedToStr Driver.busSpeedsTab) (hplbaBusSpeedToValue Driver.busSpeedsTab)) ∧
    (LooksUp LbaUtilStates.code .unk Driver.utilStatesTab
      (hplbaUtilStateToStr Driver.utilStatesTab) (hplbaUtilStateToValue Driver.utilStatesTab)) ∧
    (LooksUp LbaBusOpModes.code .unkType Tool.busOpModesTab
      (hplbaBusOpModeToStr Tool.busOpModesTab) (hplbaBusOpModeToValue Tool.busOpModesTab)) ∧
    (LooksUp LbaBusSpeeds.code .unkSpeed Tool.busSpeedsTab
      (hplbaBusSpeedToStr Tool.busSpeedsTab) (hplbaBusSpeedToValue Tool.busSpeedsTab)) ∧
    (LooksUp LbaUtilStates.code .unk Tool.utilStatesTab
      (hplbaUtilStateToStr Tool.utilStatesTab) (hplbaUtilStateToValue Tool.utilStatesTab)) :=
  ⟨nameTable_driver_busOpModes.looksUp, nameTable_driver_busSpeeds.looksUp,
    nameTable_driver_utilStates.looksUp,
    (nameTable_driver_busOpModes.perm perm_busOpModes).looksUp,
    (nameTable_driver_busSpeeds.perm perm_busSpeeds).looksUp,
    (nameTable_driver_utilStates.perm perm_utilStates).looksUp⟩

/-- Driver and tool turn every string into the same value, and an integer into the same
    name, `unknown` unless it is a value, if and only if it is a value. -/
theorem tables_agree_iff (s : CString) (v : ℤ) :
    hplbaBusOpModeToValue Driver.busOpModesTab s = hplbaBusOpModeToValue Tool.busOpModesTab s ∧
    hplbaBusSpeedToValue Driver.busSpeedsTab s = hplbaBusSpeedToValue Tool.busSpeedsTab s ∧
    hplbaUtilStateToValue Driver.utilStatesTab s = hplbaUtilStateToValue Tool.utilStatesTab s ∧
    (Agree LbaBusOpModes.code (hplbaBusOpModeToStr Driver.busOpModesTab)
      (hplbaBusOpModeToStr Tool.busOpModesTab) v ↔ ∃ mode : LbaBusOpModes, v = mode.code) ∧
    (Agree LbaBusSpeeds.code (hplbaBusSpeedToStr Driver.busSpeedsTab)
      (hplbaBusSpeedToStr Tool.busSpeedsTab) v ↔ ∃ speed : LbaBusSpeeds, v = speed.code) ∧
    (Agree LbaUtilStates.code (hplbaUtilStateToStr Driver.utilStatesTab)
      (hplbaUtilStateToStr Tool.utilStatesTab) v ↔ ∃ state : LbaUtilStates, v = state.code) := by
  refine ⟨?_, ?_, ?_, ?_, ?_, ?_⟩
  · exact nameTable_driver_busOpModes.toValue_perm perm_busOpModes s
  · exact nameTable_driver_busSpeeds.toValue_perm perm_busSpeeds s
  · exact nameTable_driver_utilStates.toValue_perm perm_utilStates s
  · exact nameTable_driver_busOpModes.agree_iff perm_busOpModes rfl rfl (by decide) v
  · exact nameTable_driver_busSpeeds.agree_iff perm_busSpeeds rfl rfl (by decide) v
  · exact nameTable_driver_utilStates.agree_iff perm_utilStates rfl rfl (by decide) v

/-- The bus mode 7 is `unknown` to the driver and `PCIe` to the tool. -/
theorem not_agree_seven :
    ¬ Agree LbaBusOpModes.code (hplbaBusOpModeToStr Driver.busOpModesTab)
      (hplbaBusOpModeToStr Tool.busOpModesTab) 7 := by
  have hdriver : hplbaBusOpModeToStr Driver.busOpModesTab 7 = "unknown".toList := by decide
  have htool : hplbaBusOpModeToStr Tool.busOpModesTab 7 = "PCIe".toList := by decide
  intro h
  have hsame := h.same
  rw [hdriver, htool] at hsame
  revert hsame
  decide

end Pcitop.System
