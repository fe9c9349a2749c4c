import Pcitop.Common.Scanf

/-!
# PCI addresses in `pcitop.c`

`name_to_pci_id` reads the address of an LBA off its name, and `pcicmp` compares
an address given by the user with that of an LBA. Both scan the string with one
of two formats, chosen by its length, and ignore how many fields were assigned.
-/

namespace Pcitop.Tool

open Pcitop.Common

/-- `struct pci_id` (`pcitop.h`, lines 50–55). -/
structure PciId where
  pciDomain : BitVec 32
  pciBusid : BitVec 32
  pciAddr : BitVec 32
  pciFunc : BitVec 32
  deriving DecidableEq, Repr

/-- `"%02x:%02x.%01x"`. -/
def shortFmt : List Directive :=
  [.conv (.x (some 2)), .lit ':', .conv (.x (some 2)), .lit '.', .conv (.x (some 1))]

/-- `"%04x:%02x:%02x.%01x"`. -/
def longFmt : List Directive := .conv (.x (some 4)) :: .lit ':' :: shortFmt

/-- The variables of a scan with `shortFmt`, from what they held before. -/
def scanShort (s : CString) (old : PciId) : PciId :=
  let vals := sscanf shortFmt s
  { old with
    pciBusid := assignUint vals 0 old.pciBusid
    pciAddr := assignUint vals 1 old.pciAddr
    pciFunc := assignUint vals 2 old.pciFunc }

/-- The variables of a scan with `longFmt`, from what they held before. -/
def scanLong (s : CString) (old : PciId) : PciId :=
  let vals := sscanf longFmt s
  { pciDomain := assignUint vals 0 old.pciDomain
    pciBusid := assignUint vals 1 old.pciBusid
    pciAddr := assignUint vals 2 old.pciAddr
    pciFunc := assignUint vals 3 old.pciFunc }

/-- `name_to_pci_id` (lines 448–478): the return value, and `*id` after it. The
    numbers of items compared with are one more than the formats have. -/
def nameToPciId (name : CString) (id : PciId) : ℤ × PciId :=
  if strlen name = 7 then
    let ret : ℤ := (sscanf shortFmt name).length
    (if ret ≠ 4 then -1 else ret, { scanShort name id with pciDomain := 0 })
  else if strlen name = 12 then
    let ret : ℤ := (sscanf longFmt name).length
    (if ret ≠ 5 then -1 else ret, scanLong name id)
  else (-1, id)

/-- `pcicmp` (lines 417–446); `locals` is what its variables `pci_domain` to
    `pci_func` hold on entry. -/
def pcicmp (locals : PciId) (pciaddr : CString) (domain : BitVec 16) (busId : BitVec 32) : ℤ :=
  if strlen pciaddr = 7 then
    let locals := { scanShort pciaddr locals with pciDomain := 0 }
    if locals.pciDomain = domain.setWidth 32 ∧ locals.pciBusid = busId then 0 else 1
  else if strlen pciaddr = 12 then
    let locals := scanLong pciaddr locals
    if locals.pciDomain = domain.setWidth 32 ∧ locals.pciBusid = busId then 0 else 1
  else -1

end Pcitop.Tool
