import Pcitop.Common.Printf

/-!
# The name of a device

`register_hplba_device` (`hplba_sysfs.c`) names the device of an LBA after its
PCI address; sysfs shows it as a directory of that name.

* `cstr_registerHplbaDevice`: the name is the whole text, twelve characters for
  an address of PCI.
-/

namespace Pcitop.Driver

open Pcitop.Common

/-- `BUS_ID_SIZE` of `<linux/device.h>`. -/
def BUS_ID_SIZE : ℕ := 20

/-- `struct acpi_pci_id` of `<linux/acpi.h>`: four `u16`. -/
structure AcpiPciId where
  segment : BitVec 16
  bus : BitVec 16
  device : BitVec 16
  function : BitVec 16
  deriving DecidableEq, Repr

/-- The bounds PCI sets on an address below its segment. -/
structure AcpiPciId.Valid (id : AcpiPciId) : Prop where
  bus : id.bus.toNat ≤ 0xff
  device : id.device.toNat ≤ 0x1f
  function : id.function.toNat ≤ 7

/-- The text `"%04x:%02x:%02x.%d"` of an address. -/
def deviceText (id : AcpiPciId) : CString :=
  hexPad 4 id.segment.toNat ++ ':' :: hexPad 2 id.bus.toNat ++
    ':' :: hexPad 2 id.device.toNat ++ '.' :: dec id.function.toNat

/-- `register_hplba_device` (lines 122–143): the array `class_id` after `snprintf`,
    from what it held before. -/
def registerHplbaDevice (classId : CString) (pciId : AcpiPciId) : CString :=
  snprintf classId BUS_ID_SIZE (deviceText pciId)

theorem noNul_deviceText (id : AcpiPciId) : NoNul (deviceText id) := by
  have hcolon : NoNul [':'] := by decide
  have hdot : NoNul ['.'] := by decide
  exact (((noNul_hexPad 4 _).append (hcolon.append (noNul_hexPad 2 _))).append
    (hcolon.append (noNul_hexPad 2 _))).append (hdot.append (noNul_dec _))

/-- A function number is written with one digit, as `%01x` would write it. -/
theorem dec_eq_hexPad {f : ℕ} (h : f ≤ 7) : dec f = hexPad 1 f := by
  interval_cases f <;> rfl

theorem length_deviceText {id : AcpiPciId} (h : id.Valid) : (deviceText id).length = 12 := by
  have hs : (hexPad 4 id.segment.toNat).length = 4 := length_hexPad (by norm_num) id.segment.isLt
  have hb : (hexPad 2 id.bus.toNat).length = 2 :=
    length_hexPad (by norm_num) (by have := h.bus; omega)
  have hd : (hexPad 2 id.device.toNat).length = 2 :=
    length_hexPad (by norm_num) (by have := h.device; omega)
  have hf : (hexPad 1 id.function.toNat).length = 1 :=
    length_hexPad (by norm_num) (by have := h.function; omega)
  simp [deviceText, dec_eq_hexPad h.function, hs, hb, hd, hf]

/-- The array holds the whole text. -/
theorem cstr_registerHplbaDevice (classId : CString) {id : AcpiPciId} (h : id.Valid) :
    cstr (registerHplbaDevice classId id) = deviceText id :=
  cstr_snprintf (noNul_deviceText id) (by rw [length_deviceText h]; decide)

end Pcitop.Driver
