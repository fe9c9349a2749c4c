import Pcitop.Driver.Module

/-!
# What the chips tell about themselves

The read-only attributes of an LBA: `function_id`, `revision`, `bus_mode`, `bus_speed` and
`ropes`. Each chip decodes them from register fields of its own (`apollo.c`, `gemini.c`,
`mercury.c`), and `hplba_sysfs.c` prints them. Names are taken from the tables of the driver
by their index.

* `busOpMode_eq`, `busSpeed_eq`: the names are those of a mode and a speed, never NULL.
* `cstr_revision`: the array of the revision holds the whole text.
* `ropes_mem`: there are one, two or four ropes.
-/

namespace Pcitop.Driver

open Pcitop.Common Pcitop.Hplba

/-! ## Registers -/

/-- `APOLLO_MAJOR_REVISION` and `APOLLO_MINOR_REVISION`; the fields of `gemini.h` and
    `mercury.h` are the same. -/
def MAJOR_REVISION : LbaReg 64 := ⟨0x0008, ⟨4, 0xf, by decide⟩⟩
def MINOR_REVISION : LbaReg 64 := ⟨0x0008, ⟨0, 0xf, by decide⟩⟩

/-- `apollo.h`, lines 35–48. -/
def APOLLO_ROPE_2X_L : LbaReg 64 := ⟨0x0610, ⟨8, 0x1, by decide⟩⟩
def APOLLO_ROPE_4X_L : LbaReg 64 := ⟨0x0610, ⟨9, 0x1, by decide⟩⟩
def APOLLO_MAX_LINK_WIDTH : LbaReg 64 := ⟨0x0670, ⟨24, 0x3, by decide⟩⟩

/-- `gemini.h`, lines 35–48. -/
def GEMINI_ROPE_4X_L : LbaReg 64 := ⟨0x0620, ⟨6, 0x1, by decide⟩⟩
def GEMINI_ROPE_2X_L : LbaReg 64 := ⟨0x0620, ⟨5, 0x1, by decide⟩⟩
def GEMINI_BUS_OP_MODE : LbaReg 64 := ⟨0x0620, ⟨13, 0x7, by decide⟩⟩

/-- `mercury.h`, lines 35–52. -/
def MERCURY_ROPE_2X_L : LbaReg 64 := ⟨0x0610, ⟨8, 0x1, by decide⟩⟩
def MERCURY_AGP_BUS_MODE : LbaReg 64 := ⟨0x0620, ⟨0, 0x1, by decide⟩⟩
def MERCURY_BUS_OP_MODE : LbaReg 64 := ⟨0x0620, ⟨13, 0x3, by decide⟩⟩
def MERCURY_AGP_DATA_RATE : LbaReg 64 := ⟨0x0068, ⟨0, 0x7, by decide⟩⟩

/-! ## The functions of the chips -/

/-- `tab[i].name`, `none` behind the end of the table. -/
def nameAt {α : Type} (tab : List (NameEntry α)) (i : ℤ) : Option CString :=
  (tab[i.toNat]?).map (·.name)

/-- `REVISION_SIZE` (`hplba.h`, line 172). -/
def REVISION_SIZE : ℕ := 6

/-- The body that the `revision` functions share: the array after `memset` and `snprintf`. -/
def revision (major minor : LbaReg 64) (regs : Regs 64) : CString :=
  snprintf (zeroed REVISION_SIZE) REVISION_SIZE
    (dec (lbaReg regs major).toNat ++ '.' :: dec (lbaReg regs minor).toNat)

/-- `apollo_revision` (`apollo.c`, lines 26–36). -/
def apolloRevision : Regs 64 → CString := revision MAJOR_REVISION MINOR_REVISION

/-- `gemini_revision` (`gemini.c`, lines 26–36). -/
def geminiRevision : Regs 64 → CString := revision MAJOR_REVISION MINOR_REVISION

/-- `mercury_revision` (`mercury.c`, lines 26–36). -/
def mercuryRevision : Regs 64 → CString := revision MAJOR_REVISION MINOR_REVISION

/-- `apollo_bus_op_mode` (`apollo.c`, lines 38–41). -/
def apolloBusOpMode (busOpModesTab : List (NameEntry LbaBusOpModes)) (_regs : Regs 64) :
    Option CString :=
  nameAt busOpModesTab LbaBusOpModes.pcie.code

/-- The `switch` of `gemini_bus_op_mode`. -/
def geminiMode (busMode : ℕ) : LbaBusOpModes :=
  match busMode with
  | 0 => .pci
  | 1 | 2 | 3 => .pciX
  | 4 | 5 => .pciXEcc
  | 6 | 7 => .pciX2Ecc
  | _ => .unkType

/-- `gemini_bus_op_mode` (`gemini.c`, lines 38–64). -/
def geminiBusOpMode (busOpModesTab : List (NameEntry LbaBusOpModes)) (regs : Regs 64) :
    Option CString :=
  nameAt busOpModesTab (geminiMode (lbaReg regs GEMINI_BUS_OP_MODE).toNat).code

/-- The `if` of `mercury_bus_op_mode` with its `switch`. -/
def mercuryMode (agpBusMode busMode : ℕ) : LbaBusOpModes :=
  if agpBusMode ≠ 0 then .agp
  else
    match busMode with
    | 0 => .pci
    | 1 | 2 | 3 => .pciX
    | _ => .unkType

/-- `mercury_bus_op_mode` (`mercury.c`, lines 38–60). -/
def mercuryBusOpMode (busOpModesTab : List (NameEntry LbaBusOpModes)) (regs : Regs 64) :
    Option CString :=
  nameAt busOpModesTab (mercuryMode (lbaReg regs MERCURY_AGP_BUS_MODE).toNat
    (lbaReg regs MERCURY_BUS_OP_MODE).toNat).code

/-- `apollo_bus_speed` (`apollo.c`, lines 43–63): NULL for a width that is none of the four. -/
def apolloBusSpeed (busSpeedsTab : List (NameEntry LbaBusSpeeds)) (regs : Regs 64) :
    Option CString :=
  let width := ((lbaReg regs APOLLO_MAX_LINK_WIDTH).setWidth 32).toNat
  match width with
  | 0 => nameAt busSpeedsTab LbaBusSpeeds.x8.code
  | 1 => nameAt busSpeedsTab LbaBusSpeeds.x1.code
  | 2 => nameAt busSpeedsTab LbaBusSpeeds.x2.code
  | 3 => nameAt busSpeedsTab LbaBusSpeeds.x4.code
  | _ => none

/-- The `switch` of `gemini_bus_speed`. -/
def geminiSpeed (pciBusMode : ℕ) : LbaBusSpeeds :=
  match pciBusMode with
  | 0 => .mhz66
  | 1 => .mhz100
  | 2 => .mhz66
  | 3 => .mhz133
  | 4 => .mhz66
  | 5 => .mhz133
  | 6 => .mhz133
  | 7 => .mhz266
  | _ => .unkSpeed

/-- `gemini_bus_speed` (`gemini.c`, lines 66–99). -/
def geminiBusSpeed (busSpeedsTab : List (NameEntry LbaBusSpeeds)) (regs : Regs 64) :
    Option CString :=
  nameAt busSpeedsTab (geminiSpeed (lbaReg regs GEMINI_BUS_OP_MODE).toNat).code

/-- The `if` of `mercury_bus_speed` with its `switch` statements. -/
def mercurySpeed (agpBusMode dataRate pciBusMode : ℕ) : LbaBusSpeeds :=
  if agpBusMode ≠ 0 then
    match dataRate with
    | 1 => .agp1x
    | 2 => .agp2x
    | 4 => .agp4x
    | _ => .unkSpeed
  else
    match pciBusMode with
    | 0 => .mhz66
    | 1 => .mhz100
    | 2 => .mhz66
    | 3 => .mhz133
    | _ => .unkSpeed

/-- `mercury_bus_speed` (`mercury.c`, lines 62–100). -/
def mercuryBusSpeed (busSpeedsTab : List (NameEntry LbaBusSpeeds)) (regs : Regs 64) :
    Option CString :=
  nameAt busSpeedsTab (mercurySpeed (lbaReg regs MERCURY_AGP_BUS_MODE).toNat
    (lbaReg regs MERCURY_AGP_DATA_RATE).toNat (lbaReg regs MERCURY_BUS_OP_MODE).toNat).code

/-- `apollo_ropes` (`apollo.c`, lines 65–72). -/
def apolloRopes (regs : Regs 64) : ℤ :=
  if lbaReg regs APOLLO_ROPE_4X_L = 0 then 4
  else if lbaReg regs APOLLO_ROPE_2X_L = 0 then 2
  else 1

/-- `gemini_ropes` (`gemini.c`, lines 101–108). -/
def geminiRopes (regs : Regs 64) : ℤ :=
  if lbaReg regs GEMINI_ROPE_4X_L = 0 then 4
  else if lbaReg regs GEMINI_ROPE_2X_L = 0 then 2
  else 1

/-- `mercury_ropes` (`mercury.c`, lines 102–107). -/
def mercuryRopes (regs : Regs 64) : ℤ :=
  if lbaReg regs MERCURY_ROPE_2X_L = 0 then 2 else 1

/-- The functions of `struct lba_ops` (`hplba.h`, lines 235–242) behind the read-only
    attributes. -/
structure LbaOps where
  revision : Regs 64 → CString
  busOpMode : List (NameEntry LbaBusOpModes) → Regs 64 → Option CString
  busSpeed : List (NameEntry LbaBusSpeeds) → Regs 64 → Option CString
  ropes : Regs 64 → ℤ

/-- `apollo_ops` (`apollo.c`, lines 119–126). -/
def apolloOps : LbaOps := ⟨apolloRevision, apolloBusOpMode, apolloBusSpeed, apolloRopes⟩

/-- `gemini_ops` (`gemini.c`, lines 155–162). -/
def geminiOps : LbaOps := ⟨geminiRevision, geminiBusOpMode, geminiBusSpeed, geminiRopes⟩

/-- `mercury_ops` (`mercury.c`, lines 152–159). -/
def mercuryOps : LbaOps := ⟨mercuryRevision, mercuryBusOpMode, mercuryBusSpeed, mercuryRopes⟩

def Chip.ops : Chip → LbaOps
  | .apollo => apolloOps
  | .gemini => geminiOps
  | .mercury => mercuryOps

/-! ## The attributes -/

/-- `"%s\n"` of a string; `null` is what the kernel prints for NULL. -/
def lineOf (null : CString) (s : Option CString) : CString := s.getD null ++ ['\n']

/-- `function_id_show` (`hplba_sysfs.c`, lines 159–164): `"%#lx\n"`. -/
def functionIdShow (regs : Regs 64) : CString :=
  let id := (lbaReg regs LBA_FUNC_ID).toNat
  (if id = 0 then ['0'] else "0x".toList ++ Nat.toDigits 16 id) ++ ['\n']

/-- `revision_show` (lines 166–171). -/
def revisionShow (chip : Chip) (regs : Regs 64) : CString := cstr (chip.ops.revision regs) ++ ['\n']

/-- `bus_op_mode_show` (lines 173–178). -/
def busOpModeShow (busOpModesTab : List (NameEntry LbaBusOpModes)) (null : CString) (chip : Chip)
    (regs : Regs 64) : CString :=
  lineOf null (chip.ops.busOpMode busOpModesTab regs)

/-- `bus_speed_show` (lines 180–185). -/
def busSpeedShow (busSpeedsTab : List (NameEntry LbaBusSpeeds)) (null : CString) (chip : Chip)
    (regs : Regs 64) : CString :=
  lineOf null (chip.ops.busSpeed busSpeedsTab regs)

/-- `ropes_show` (lines 187–192). -/
def ropesShow (chip : Chip) (regs : Regs 64) : CString := decInt (chip.ops.ropes regs) ++ ['\n']

/-! ## What the fields may hold -/

/-- A field is no larger than its mask. -/
theorem lbaReg_le_mask {w : ℕ} (regs : Regs w) (reg : LbaReg w) :
    (lbaReg regs reg).toNat ≤ reg.field.mask.toNat := by
  rw [lbaReg, BitField.get, BitVec.toNat_and]
  exact Nat.and_le_right

/-- The bus mode that a chip decodes. -/
def Chip.mode (chip : Chip) (regs : Regs 64) : LbaBusOpModes :=
  match chip with
  | .apollo => .pcie
  | .gemini => geminiMode (lbaReg regs GEMINI_BUS_OP_MODE).toNat
  | .mercury => mercuryMode (lbaReg regs MERCURY_AGP_BUS_MODE).toNat
      (lbaReg regs MERCURY_BUS_OP_MODE).toNat

/-- The bus speed that a chip decodes. -/
def Chip.speed (chip : Chip) (regs : Regs 64) : LbaBusSpeeds :=
  match chip with
  | .apollo =>
    match (lbaReg regs APOLLO_MAX_LINK_WIDTH).toNat with
    | 0 => .x8
    | 1 => .x1
    | 2 => .x2
    | _ => .x4
  | .gemini => geminiSpeed (lbaReg regs GEMINI_BUS_OP_MODE).toNat
  | .mercury => mercurySpeed (lbaReg regs MERCURY_AGP_BUS_MODE).toNat
      (lbaReg regs MERCURY_AGP_DATA_RATE).toNat (lbaReg regs MERCURY_BUS_OP_MODE).toNat

theorem busOpMode_eq (tab : List (NameEntry LbaBusOpModes)) (chip : Chip) (regs : Regs 64) :
    chip.ops.busOpMode tab regs = nameAt tab (chip.mode regs).code := by
  cases chip <;> rfl

/-- The two bits of the link width are all cases of its `switch`. -/
theorem busSpeed_eq (tab : List (NameEntry LbaBusSpeeds)) (chip : Chip) (regs : Regs 64) :
    chip.ops.busSpeed tab regs = nameAt tab (chip.speed regs).code := by
  cases chip with
  | apollo =>
    have hle : (lbaReg regs APOLLO_MAX_LINK_WIDTH).toNat ≤ 3 := lbaReg_le_mask _ _
    have hwidth : ((lbaReg regs APOLLO_MAX_LINK_WIDTH).setWidth 32).toNat =
        (lbaReg regs APOLLO_MAX_LINK_WIDTH).toNat := by
      rw [BitVec.toNat_setWidth]
      omega
    show apolloBusSpeed tab regs = _
    simp only [apolloBusSpeed, hwidth, Chip.speed]
    generalize (lbaReg regs APOLLO_MAX_LINK_WIDTH).toNat = width at hle
    interval_cases width <;> rfl
  | gemini => rfl
  | mercury => rfl

/-- Only a rate that the `switch` of Mercury lacks gives an unknown speed. -/
theorem speed_eq_unknown_iff (chip : Chip) (regs : Regs 64) :
    chip.speed regs = .unkSpeed ↔ chip = .mercury ∧ chip.mode regs = .agp ∧
      (lbaReg regs MERCURY_AGP_DATA_RATE).toNat ∉ [1, 2, 4] := by
  cases chip with
  | apollo =>
    simp only [Chip.speed, reduceCtorEq, false_and, iff_false]
    split <;> decide
  | gemini =>
    have hle : (lbaReg regs GEMINI_BUS_OP_MODE).toNat ≤ 7 := lbaReg_le_mask _ _
    simp only [Chip.speed, reduceCtorEq, false_and, iff_false]
    generalize (lbaReg regs GEMINI_BUS_OP_MODE).toNat = mode at hle
    interval_cases mode <;> decide
  | mercury =>
    have hagp : (lbaReg regs MERCURY_AGP_BUS_MODE).toNat ≤ 1 := lbaReg_le_mask _ _
    have hmode : (lbaReg regs MERCURY_BUS_OP_MODE).toNat ≤ 3 := lbaReg_le_mask _ _
    have hrate : (lbaReg regs MERCURY_AGP_DATA_RATE).toNat ≤ 7 := lbaReg_le_mask _ _
    simp only [Chip.speed, Chip.mode]
    generalize (lbaReg regs MERCURY_AGP_BUS_MODE).toNat = agp at hagp
    generalize (lbaReg regs MERCURY_BUS_OP_MODE).toNat = mode at hmode
    generalize (lbaReg regs MERCURY_AGP_DATA_RATE).toNat = rate at hrate
    interval_cases agp
    · interval_cases mode <;> simp [mercurySpeed, mercuryMode]
    · interval_cases rate <;> simp [mercurySpeed, mercuryMode]

/-! ## Texts -/

/-- The text of the revision of a chip. -/
def revisionText (regs : Regs 64) : CString :=
  dec (lbaReg regs MAJOR_REVISION).toNat ++ '.' :: dec (lbaReg regs MINOR_REVISION).toNat

theorem noNul_revisionText (regs : Regs 64) : NoNul (revisionText regs) := by
  have hdot : NoNul ['.'] := by decide
  exact (noNul_dec _).append (hdot.append (noNul_dec _))

/-- Two numbers below 16 with a dot between them. -/
theorem length_revisionText (regs : Regs 64) : (revisionText regs).length < REVISION_SIZE := by
  have hmajor : (lbaReg regs MAJOR_REVISION).toNat ≤ 15 := lbaReg_le_mask _ _
  have hminor : (lbaReg regs MINOR_REVISION).toNat ≤ 15 := lbaReg_le_mask _ _
  have h1 : (dec (lbaReg regs MAJOR_REVISION).toNat).length ≤ 2 :=
    length_dec_le (by norm_num) (by omega)
  have h2 : (dec (lbaReg regs MINOR_REVISION).toNat).length ≤ 2 :=
    length_dec_le (by norm_num) (by omega)
  simp only [revisionText, REVISION_SIZE, List.length_append, List.length_cons]
  omega

theorem cstr_revision (chip : Chip) (regs : Regs 64) :
    cstr (chip.ops.revision regs) = revisionText regs := by
  have htext : cstr (revision MAJOR_REVISION MINOR_REVISION regs) = revisionText regs :=
    cstr_snprintf (noNul_revisionText regs) (length_revisionText regs)
  cases chip <;> exact htext

theorem ropes_mem (chip : Chip) (regs : Regs 64) : chip.ops.ropes regs ∈ [1, 2, 4] := by
  cases chip with
  | apollo =>
    show apolloRopes regs ∈ _
    unfold apolloRopes
    split_ifs <;> decide
  | gemini =>
    show geminiRopes regs ∈ _
    unfold geminiRopes
    split_ifs <;> decide
  | mercury =>
    show mercuryRopes regs ∈ _
    unfold mercuryRopes
    split_ifs <;> decide

end Pcitop.Driver
