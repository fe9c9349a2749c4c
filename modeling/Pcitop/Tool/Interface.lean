import Pcitop.Tool.BusId
import Pcitop.Tool.PciAddress

/-!
# The root bridge of a network interface

`find_interface` looks through the device directories of the root bridges for an entry
`net:` and the interface, and writes the address of the root bridge for `pcicmp`. The
domain is scanned from the name of the directory as a decimal number, printed in
hexadecimal and scanned again as such.

* `findInterface_eq_search`: the nested loops are one search over the entries read.
* `findsBridge_iff`: when the address stands for the root bridge that has the interface.
-/

namespace Pcitop.Tool

open Pcitop.Common

/-! ## Model -/

/-- The size of `netname` (line 340). -/
def NETNAME_SIZE : ℕ := 8

/-- The size of `my_lspci` (line 1001). -/
def LSPCI_SIZE : ℕ := 13

/-- The arrays that a call may write past. -/
inductive Overflow where
  | netname | lspci
  deriving DecidableEq, Repr

def netPrefix : CString := "net:".toList

/-- The entry of an interface. -/
def netName (ifname : CString) : CString := netPrefix ++ ifname

/-- A name in a device directory. The name of an interface is not empty and has no white
    space. -/
structure DirEntry where
  name : CString
  noNul : NoNul name
  word : ∀ ifname, name = netName ifname → ifname ≠ [] ∧ ∀ c ∈ ifname, isspace c = false

/-- A directory below that of a root bridge: what `readdir` returns, nothing if it cannot
    be opened (a file, say). -/
structure DeviceDir where
  entries : Option (List DirEntry)

/-- A directory below `/sys/devices`. -/
structure RootDir where
  name : CString
  devices : Option (List DeviceDir)

/-- `/sys/devices`. -/
structure SysDevices where
  roots : Option (List RootDir)

/-- `"net:%s"`. -/
def netFmt : List Directive := lits netPrefix ++ [.conv (.s none)]

/-- `"pci%d:%x"`. -/
def rootFmt : List Directive := lits "pci".toList ++ [.conv .d, .lit ':', .conv (.x none)]

/-- The loop of `find_interface_in_dir` (lines 339–346). -/
def findInEntries (ifname : CString) : List DirEntry → Except Overflow ℤ
  | [] => .ok 0
  | deviceDp :: entries =>
    match sscanf netFmt deviceDp.name with
    | [.str netname] =>
      if NETNAME_SIZE ≤ netname.length then .error .netname
      else if streq netname ifname then .ok 1
      else findInEntries ifname entries
    | _ => findInEntries ifname entries

/-- `find_interface_in_dir` (lines 330–349). -/
def findInterfaceInDir (dir : DeviceDir) (ifname : CString) : Except Overflow ℤ :=
  match dir.entries with
  | none => .ok 0
  | some entries => findInEntries ifname entries

/-- `"%04x:%02x:%02x,%01x"` of the domain, the bus and two zeros. -/
def lspciText (domain bus : BitVec 32) : CString :=
  hexPad 4 domain.toNat ++ ':' :: (hexPad 2 bus.toNat ++ ':' :: (hexPad 2 0 ++ ',' :: hexPad 1 0))

/-- The `sprintf` into `lspci` (lines 379–380). -/
def sprintfLspci (domain bus : BitVec 32) (lspci : CString) : Except Overflow CString :=
  let text := lspciText domain bus
  if LSPCI_SIZE ≤ text.length then .error .lspci
  else .ok (text ++ nul :: lspci.drop (text.length + 1))

/-- The loop over the directory of one root bridge (lines 372–383): whether a device
    directory has the interface. -/
def findInDevices (ifname : CString) : List DeviceDir → Except Overflow Bool
  | [] => .ok false
  | pciDp :: devices => do
    let found ← findInterfaceInDir pciDp ifname
    if found ≠ 0 then .ok true else findInDevices ifname devices

/-- The numbers `sscanf` assigns from the name of a root directory, when it returns 2
    (line 366). -/
def RootDir.numbers? (root : RootDir) : Option (BitVec 32 × BitVec 32) :=
  match sscanf rootFmt root.name with
  | [.int domain, .uint bus] => some (domain, bus)
  | _ => none

/-- The loop over `/sys/devices` (lines 364–386). -/
def findInRoots (ifname lspci : CString) : List RootDir → Except Overflow (ℤ × CString)
  | [] => .ok (-1, lspci)
  | devicesDp :: roots =>
    match devicesDp.numbers? with
    | some (domain, bus) =>
      match devicesDp.devices with
      | none => findInRoots ifname lspci roots
      | some devices => do
        if ← findInDevices ifname devices then
          let lspci ← sprintfLspci domain bus lspci
          .ok (1, lspci)
        else findInRoots ifname lspci roots
    | none => findInRoots ifname lspci roots

/-- `find_interface` (lines 351–389): the return value, and the array `lspci` after it. -/
def findInterface (sys : SysDevices) (ifname lspci : CString) : Except Overflow (ℤ × CString) :=
  match sys.roots with
  | none => .ok (-1, lspci)
  | some roots => findInRoots ifname lspci roots

/-! ## The entries -/

/-- The interface of an entry `net:…`. -/
def DirEntry.ifname? (e : DirEntry) : Option CString :=
  if netPrefix <+: e.name then some (e.name.drop netPrefix.length) else none

theorem DirEntry.ifname?_eq_some_iff (e : DirEntry) (ifname : CString) :
    e.ifname? = some ifname ↔ e.name = netName ifname := by
  unfold DirEntry.ifname? netName
  constructor
  · intro h
    split_ifs at h with hp
    obtain ⟨t, ht⟩ := hp
    rw [← ht, List.drop_left, Option.some_inj] at h
    rw [← ht, h]
  · intro h
    rw [h, if_pos (List.prefix_append _ _), List.drop_left]

theorem DirEntry.noNul_ifname {e : DirEntry} {ifname : CString} (h : e.name = netName ifname) :
    NoNul ifname := by
  have hn := e.noNul
  rw [h] at hn
  exact fun hmem => hn (List.mem_append_right _ hmem)

/-- `"net:%s"` reads the interface of an entry. -/
theorem sscanf_netFmt (e : DirEntry) :
    sscanf netFmt e.name = (e.ifname?.map Value.str).toList := by
  cases hname : e.ifname? with
  | none =>
    have hp : ¬ netPrefix <+: e.name := by
      intro hp
      rw [DirEntry.ifname?, if_pos hp] at hname
      exact absurd hname (by simp)
    exact sscanf_lits_of_not_prefix hp _
  | some ifname =>
    have hname := (e.ifname?_eq_some_iff ifname).mp hname
    obtain ⟨hne, hspace⟩ := e.word ifname hname
    have hdrop : ifname.dropWhile isspace = ifname := by
      rw [List.dropWhile_eq_self_iff]
      intro hl
      rw [hspace _ (List.getElem_mem hl)]
      exact Bool.false_ne_true
    have htake : ifname.takeWhile (fun c => !isspace c) = ifname := by
      rw [List.takeWhile_eq_self_iff]
      intro c hc
      rw [hspace c hc, Bool.not_false]
    have hscan : (Conv.s none).scan ifname = some (.str ifname, []) := by
      simp only [Conv.scan, hdrop, Option.getD_none, List.take_length, htake, if_neg hne,
        List.drop_length]
    rw [sscanf, cstr_eq_self e.noNul, hname, netFmt, netName, runDirectives_lits,
      runDirectives_conv hscan]
    rfl

/-! ## One search -/

/-- An entry that is read, with the numbers scanned from the name of its root directory. -/
structure EntryRead where
  domain : BitVec 32
  bus : BitVec 32
  entry : DirEntry

/-- The entries in the device directories of a root directory that can be opened. -/
def RootDir.entries (root : RootDir) : List DirEntry :=
  (root.devices.getD []).flatMap fun dev => dev.entries.getD []

def RootDir.reads (root : RootDir) : List EntryRead :=
  match root.numbers? with
  | some (domain, bus) => root.entries.map fun e => ⟨domain, bus, e⟩
  | none => []

/-- The entries that a search which finds nothing reads, in order. -/
def SysDevices.reads (sys : SysDevices) : List EntryRead :=
  (sys.roots.getD []).flatMap RootDir.reads

/-- The search for an interface in a list of entries. -/
def search (ifname lspci : CString) : List EntryRead → Except Overflow (ℤ × CString)
  | [] => .ok (-1, lspci)
  | r :: rest =>
    match r.entry.ifname? with
    | none => search ifname lspci rest
    | some netname =>
      if NETNAME_SIZE ≤ netname.length then .error .netname
      else if netname = ifname then do
        let lspci ← sprintfLspci r.domain r.bus lspci
        .ok (1, lspci)
      else search ifname lspci rest

section Search

variable {ifname : CString} (lspci : CString) (domain bus : BitVec 32)

/-- The result of a search in the entries of a root directory and those after it. -/
def foundOr (lspci : CString) (domain bus : BitVec 32)
    (rest : Except Overflow (ℤ × CString)) (found : Bool) : Except Overflow (ℤ × CString) :=
  if found then do
    let lspci ← sprintfLspci domain bus lspci
    .ok (1, lspci)
  else rest

theorem search_entries (hif : NoNul ifname) (entries : List DirEntry) (rest : List EntryRead) :
    search ifname lspci (entries.map (fun e => ⟨domain, bus, e⟩) ++ rest) =
      (findInEntries ifname entries).bind fun found =>
        foundOr lspci domain bus (search ifname lspci rest) (found ≠ 0) := by
  induction entries with
  | nil => rfl
  | cons e entries ih =>
    rw [List.map_cons, List.cons_append, search, findInEntries, sscanf_netFmt]
    cases hname : e.ifname? with
    | none => exact ih
    | some netname =>
      have hnoNul := DirEntry.noNul_ifname ((e.ifname?_eq_some_iff netname).mp hname)
      have heq : streq netname ifname = decide (netname = ifname) := by
        rw [streq, cstr_eq_self hnoNul, cstr_eq_self hif, beq_eq_decide]
      simp only [Option.map_some, Option.toList_some, heq, decide_eq_true_eq]
      split_ifs with hsize hmatch
      · rfl
      · rfl
      · exact ih

theorem search_devices (hif : NoNul ifname) (devices : List DeviceDir) (rest : List EntryRead) :
    search ifname lspci ((devices.flatMap fun dev => dev.entries.getD []).map
        (fun e => ⟨domain, bus, e⟩) ++ rest) =
      (findInDevices ifname devices).bind
        (foundOr lspci domain bus (search ifname lspci rest)) := by
  induction devices with
  | nil => rfl
  | cons dev devices ih =>
    have hdir : findInterfaceInDir dev ifname = findInEntries ifname (dev.entries.getD []) := by
      rw [findInterfaceInDir]
      cases dev.entries with
      | none => rfl
      | some entries => rfl
    rw [List.flatMap_cons, List.map_append, List.append_assoc, search_entries lspci _ _ hif,
      findInDevices, hdir]
    cases hfound : findInEntries ifname (dev.entries.getD []) with
    | error o => rfl
    | ok found =>
      by_cases h : found = 0
      · subst h
        exact ih
      · simp [Except.bind, bind, foundOr, h]

theorem findInRoots_cons (root : RootDir) (roots : List RootDir) :
    findInRoots ifname lspci (root :: roots) =
      match root.numbers? with
      | some (domain, bus) =>
        (findInDevices ifname (root.devices.getD [])).bind
          (foundOr lspci domain bus (findInRoots ifname lspci roots))
      | none => findInRoots ifname lspci roots := by
  rw [findInRoots]
  cases root.numbers? with
  | none => rfl
  | some numbers =>
    cases root.devices with
    | none => rfl
    | some devices => rfl

end Search

/-- The loops are one search over the entries read. -/
theorem findInterface_eq_search (sys : SysDevices) {ifname : CString} (hif : NoNul ifname)
    (lspci : CString) : findInterface sys ifname lspci = search ifname lspci sys.reads := by
  have hroots : ∀ roots, findInRoots ifname lspci roots =
      search ifname lspci (roots.flatMap RootDir.reads) := by
    intro roots
    induction roots with
    | nil => rfl
    | cons root roots ih =>
      rw [List.flatMap_cons, findInRoots_cons, RootDir.reads, ih]
      cases root.numbers? with
      | none => rfl
      | some numbers => exact (search_devices lspci _ _ hif _ _).symm
  unfold findInterface SysDevices.reads
  cases sys.roots with
  | none => rfl
  | some roots => exact hroots roots

/-! ## Names of root bridges -/

theorem sscanf_rootFmt_dir (id : BusId) :
    sscanf rootFmt id.dir = runDirectives [.conv .d, .lit ':', .conv (.x none)] id.text := by
  rw [sscanf, cstr_eq_self id.noNul_dir, rootFmt, BusId.dir, runDirectives_lits]

/-- `%x` reads the bus at the end of the name. -/
theorem scan_x_bus (id : BusId) :
    (Conv.x none).scan (hexPad 2 id.bus) = some (.uint (BitVec.ofNat 32 id.bus), []) := by
  have hscan : scanNumeral 16 (hexPad 2 id.bus).length (hexPad 2 id.bus ++ []) =
      some (false, digitsVal 16 (hexPad 2 id.bus), []) :=
    scanNumeral_digits le_rfl (hexPad_ne_nil 2 _) (isDigitOf_hexPad 2 _) le_rfl
      (by simpa using endsNumber_nil 16)
  rw [List.append_nil, digitsVal_hexPad] at hscan
  have hlt : (id.bus : ℕ) < 2 ^ 64 := id.bus.isLt.trans (by norm_num)
  simp only [Conv.scan, Option.getD_none, hscan, Option.map_some, strtoulValue_of_lt hlt]
  rw [BitVec.setWidth_ofNat_of_le (by norm_num)]

/-- A domain of decimal digits has four of them. -/
theorem digitsVal_decimal_lt {id : BusId} (hdec : ∀ c ∈ hexPad 4 id.domain, isDigitOf 10 c = true) :
    digitsVal 10 (hexPad 4 id.domain) < 10 ^ 4 := by
  have h := digitsVal_lt hdec
  rwa [id.length_domain] at h

/-- It is read, as a decimal number. -/
theorem numbers?_of_decimal {root : RootDir} {id : BusId} (hname : root.name = id.dir)
    (hdec : ∀ c ∈ hexPad 4 id.domain, isDigitOf 10 c = true) :
    root.numbers? =
      some (BitVec.ofNat 32 (digitsVal 10 (hexPad 4 id.domain)), BitVec.ofNat 32 id.bus) := by
  have hlt := digitsVal_decimal_lt hdec
  have hscan : Conv.d.scan (hexPad 4 id.domain ++ ':' :: hexPad 2 id.bus) = _ :=
    scan_d_digits (hexPad_ne_nil 4 _) hdec (by omega)
      (endsNumber_cons (by norm_num) (by decide) (by decide) (by decide) _)
  rw [RootDir.numbers?, hname, sscanf_rootFmt_dir, BusId.text, runDirectives_conv hscan,
    runDirectives_lit, runDirectives_conv (scan_x_bus id)]
  simp only [runDirectives_nil, BitVec.ofInt_natCast]

/-- `%d` reads no number where a letter stands. -/
theorem scan_d_letter {c : Char} (hhex : isDigitOf 16 c = true) (hdec : isDigitOf 10 c = false)
    (rest : CString) : Conv.d.scan (c :: rest) = none := by
  have hdigits : ∀ d ∈ [c], isDigitOf 16 d = true := by simp [hhex]
  have hdrop : (c :: rest).dropWhile isspace = c :: rest :=
    dropWhile_isspace_digits le_rfl (List.cons_ne_nil c []) hdigits rest
  have hsign : scanSign (c :: rest) = (false, c :: rest) :=
    scanSign_digits le_rfl (List.cons_ne_nil c []) hdigits rest
  have hbody : ∀ s, skipHexPrefix 10 s = s := by
    intro s
    unfold skipHexPrefix
    split <;> simp_all
  have hnum : scanNumeral 10 (c :: rest).length (c :: rest) = none := by
    simp [scanNumeral, hdrop, hsign, hbody, hdec]
  rw [Conv.scan, hnum, Option.map_none]

/-- Another domain is not read as a number followed by a colon. -/
theorem numbers?_of_not_decimal {root : RootDir} {id : BusId} (hname : root.name = id.dir)
    (hdec : ¬ ∀ c ∈ hexPad 4 id.domain, isDigitOf 10 c = true) : root.numbers? = none := by
  rw [RootDir.numbers?, hname, sscanf_rootFmt_dir, BusId.text]
  have hhex := isDigitOf_hexPad 4 id.domain
  have hlen := id.length_domain
  generalize hexPad 4 (id.domain : ℕ) = t at hdec hhex hlen ⊢
  -- A string of decimal digits, and a letter that ends it.
  cases hletter : t.dropWhile (isDigitOf 10) with
  | nil => exact absurd (List.dropWhile_eq_nil_iff.mp hletter) hdec
  | cons c r =>
    have hsplit := List.takeWhile_append_dropWhile (p := isDigitOf 10) (l := t)
    have hc : isDigitOf 10 c = false := by
      have h := List.head?_dropWhile_not (isDigitOf 10) t
      rwa [hletter] at h
    rw [hletter] at hsplit
    have hchex : isDigitOf 16 c = true := hhex c (by rw [← hsplit]; simp)
    rw [← hsplit, List.append_assoc, List.cons_append]
    have hdigits : ∀ d ∈ t.takeWhile (isDigitOf 10), isDigitOf 10 d = true :=
      fun d hd => List.mem_takeWhile_imp hd
    have hds : (t.takeWhile (isDigitOf 10)).length ≤ 4 :=
      hlen ▸ (List.takeWhile_sublist _).length_le
    generalize t.takeWhile (isDigitOf 10) = ds at hdigits hds
    cases ds with
    | nil =>
      rw [List.nil_append, runDirectives, scan_d_letter hchex hc]
    | cons d ds =>
      have hends : ∀ k, EndsNumber 10 ((c :: (r ++ ':' :: hexPad 2 id.bus)).take k) := by
        intro k e he
        cases k with
        | zero => exact absurd he (by simp)
        | succ k =>
          obtain rfl : c = e := by simpa using he
          exact ⟨hc, ne_of_isDigitOf le_rfl hchex rfl, ne_of_isDigitOf le_rfl hchex rfl⟩
      have hlt : digitsVal 10 (d :: ds) < 2 ^ 63 := by
        calc digitsVal 10 (d :: ds) < 10 ^ (d :: ds).length := digitsVal_lt hdigits
          _ ≤ 10 ^ 4 := Nat.pow_le_pow_right (by norm_num) hds
          _ < 2 ^ 63 := by norm_num
      have hcolon : c ≠ ':' := ne_of_isDigitOf le_rfl hchex rfl
      rw [runDirectives_conv (scan_d_digits (List.cons_ne_nil d ds) hdigits hlt hends),
        runDirectives, if_neg hcolon]

/-- Four digits have the same value in both bases up to 9. -/
theorem le_nine_iff (id : BusId) :
    (id.domain : ℕ) ≤ 9 ↔ (∀ c ∈ hexPad 4 id.domain, isDigitOf 10 c = true) ∧
      digitsVal 10 (hexPad 4 id.domain) = id.domain := by
  have hval := digitsVal_hexPad 4 id.domain
  have hlen := id.length_domain
  generalize hexPad 4 (id.domain : ℕ) = t at hval hlen ⊢
  obtain ⟨a, b, c, d, rfl⟩ := List.length_eq_four.mp hlen
  rw [← hval]
  simp only [digitsVal, List.foldl_cons, List.foldl_nil, isDigitOf, decide_eq_true_eq,
    List.mem_cons, List.not_mem_nil, or_false, forall_eq_or_imp, forall_eq]
  omega

/-! ## The address written -/

/-- The address of two numbers fits in `lspci` and stands for them. -/
theorem sprintfLspci_spec {m n : ℕ} (hm : m < 16 ^ 4) (hn : n < 16 ^ 2) (lspci : CString) :
    ∃ buf, sprintfLspci (BitVec.ofNat 32 m) (BitVec.ofNat 32 n) lspci = .ok buf ∧
      ∀ (locals : PciId) (domain : BitVec 16) (busId : BitVec 32),
        pcicmp locals buf domain busId = 0 ↔ domain.toNat = m ∧ busId.toNat = n := by
  have hm32 : (BitVec.ofNat 32 m).toNat = m := Nat.mod_eq_of_lt (by omega)
  have hn32 : (BitVec.ofNat 32 n).toNat = n := Nat.mod_eq_of_lt (by omega)
  have htext : lspciText (BitVec.ofNat 32 m) (BitVec.ofNat 32 n) =
      hexPad 4 m ++ ':' :: (hexPad 2 n ++ ":00,0".toList) := by
    rw [lspciText, hm32, hn32]
    rfl
  have hlen : (hexPad 4 m).length = 4 := length_hexPad (by norm_num) hm
  have hlen' : (hexPad 2 n).length = 2 := length_hexPad (by norm_num) hn
  have hnul : NoNul (hexPad 4 m ++ ':' :: (hexPad 2 n ++ ":00,0".toList)) :=
    (noNul_hexPad 4 m).append
      (NoNul.append (s := [':']) (by decide) ((noNul_hexPad 2 n).append (by decide)))
  have hsize : (hexPad 4 m ++ ':' :: (hexPad 2 n ++ ":00,0".toList)).length = 12 := by
    rw [List.length_append, List.length_cons, List.length_append, hlen, hlen']
    rfl
  rw [sprintfLspci, htext]
  refine ⟨_, if_neg (by rw [hsize]; decide), fun locals domain busId => ?_⟩
  have hfields : longFields locals (hexPad 4 m ++ ':' :: (hexPad 2 n ++ ":00,0".toList)) = _ :=
    longFields_digits locals hlen (isDigitOf_hexPad 4 m) hlen' (isDigitOf_hexPad 2 n)
  rw [digitsVal_hexPad, digitsVal_hexPad] at hfields
  rw [pcicmp_eq_zero_iff, leadingFields, strlen, cstr_append_nul hnul, hsize,
    if_neg (by decide), if_pos rfl, hfields]
  exact leadingFields_eq_iff (by omega) (by omega)

/-! ## The search -/

section Found

variable {ifname lspci : CString}

/-- The name of the interface fits in `netname`. -/
def EntryRead.Short (r : EntryRead) : Prop :=
  ∀ netname, r.entry.name = netName netname → netname.length < NETNAME_SIZE

theorem short_iff {r : EntryRead} (h : r.entry.name = netName ifname) :
    r.Short ↔ ifname.length < NETNAME_SIZE := by
  simp [EntryRead.Short, h, netName]

/-- An entry of the interface. -/
theorem search_found_iff {r : EntryRead} (hr : r.entry.name = netName ifname)
    (l : List EntryRead) (buf : CString) :
    search ifname lspci (r :: l) = .ok (1, buf) ↔
      r.Short ∧ sprintfLspci r.domain r.bus lspci = .ok buf := by
  rw [short_iff hr, search, (r.entry.ifname?_eq_some_iff ifname).mpr hr]
  simp only [if_true]
  split_ifs with hsize
  · simp only [false_iff, not_and]
    omega
  · cases hbuf : sprintfLspci r.domain r.bus lspci with
    | error o => simp [bind, Except.bind]
    | ok buf' => simp [bind, Except.bind, not_le.mp hsize]

/-- Another entry. -/
theorem search_cons_iff {x : EntryRead} (hx : x.entry.name ≠ netName ifname)
    (l : List EntryRead) (buf : CString) :
    search ifname lspci (x :: l) = .ok (1, buf) ↔
      x.Short ∧ search ifname lspci l = .ok (1, buf) := by
  rw [search]
  cases hname : x.entry.ifname? with
  | none =>
    have hshort : x.Short := by
      intro netname h
      rw [(x.entry.ifname?_eq_some_iff netname).mpr h] at hname
      exact absurd hname (by simp)
    simp only [hshort, true_and]
  | some netname =>
    have hname := (x.entry.ifname?_eq_some_iff netname).mp hname
    have hne : netname ≠ ifname := fun h => hx (h ▸ hname)
    rw [short_iff hname]
    simp only [if_neg hne]
    split_ifs with hsize
    · simp only [false_iff, not_and]
      omega
    · simp only [not_le.mp hsize, true_and]

/-- An interface is found if and only if the names before and its own fit in `netname`. -/
theorem search_split {l₁ l₂ : List EntryRead} {r : EntryRead}
    (hbefore : ∀ x ∈ l₁, x.entry.name ≠ netName ifname) (hr : r.entry.name = netName ifname)
    (buf : CString) :
    search ifname lspci (l₁ ++ r :: l₂) = .ok (1, buf) ↔
      ((∀ x ∈ l₁, x.Short) ∧ r.Short) ∧ sprintfLspci r.domain r.bus lspci = .ok buf := by
  induction l₁ with
  | nil => simp [search_found_iff hr]
  | cons x l₁ ih =>
    rw [List.forall_mem_cons] at hbefore
    rw [List.cons_append, search_cons_iff hbefore.1, ih hbefore.2, List.forall_mem_cons]
    simp only [and_assoc]

/-- No other search returns 1. -/
theorem search_ne_one {l : List EntryRead} (h : ∀ x ∈ l, x.entry.name ≠ netName ifname)
    (buf : CString) : search ifname lspci l ≠ .ok (1, buf) := by
  induction l with
  | nil => simp [search]
  | cons x l ih =>
    rw [List.forall_mem_cons] at h
    intro hfound
    exact ih h.2 ((search_cons_iff h.1 l buf).mp hfound).2

end Found

/-! ## The only entry of an interface -/

/-- The names of the entries in the device directories, in order. -/
def RootDir.entryNames (root : RootDir) : List CString := root.entries.map (·.name)

def SysDevices.entryNames (sys : SysDevices) : List CString :=
  (sys.roots.getD []).flatMap RootDir.entryNames

/-- The root bridge directory of a domain and bus has an entry for an interface, and it is
    the only one there is. -/
structure OnlyInterface (sys : SysDevices) (id : BusId) (ifname : CString) : Prop where
  held : ∃ root ∈ sys.roots.getD [], root.name = id.dir ∧ netName ifname ∈ root.entryNames
  only : sys.entryNames.count (netName ifname) = 1

/-- The call returns 1 and what it writes stands for that domain and bus. -/
def FindsBridge (sys : SysDevices) (id : BusId) (ifname lspci : CString) : Prop :=
  ∃ buf, findInterface sys ifname lspci = .ok (1, buf) ∧
    ∀ (locals : PciId) (domain : BitVec 16) (busId : BitVec 32),
      pcicmp locals buf domain busId = 0 ↔ domain.toNat = id.domain ∧ busId.toNat = id.bus

/-- The names of the entries read up to the first of an interface. -/
def SysDevices.readBefore (sys : SysDevices) (ifname : CString) : List CString :=
  (sys.reads.map (·.entry.name)).takeWhile (· ≠ netName ifname)

/-- What occurs once in several lists is in one of them. -/
theorem eq_of_count_flatMap {α β : Type*} [BEq β] [LawfulBEq β] {l : List α}
    {f : α → List β} {x : β} (h : (l.flatMap f).count x = 1) {a b : α} (ha : a ∈ l)
    (hb : b ∈ l) (hxa : x ∈ f a) (hxb : x ∈ f b) : a = b := by
  by_contra hne
  obtain ⟨s, t, rfl⟩ := List.append_of_mem ha
  have hrest : x ∈ (s ++ t).flatMap f := by
    refine List.mem_flatMap.mpr ⟨b, ?_, hxb⟩
    rcases List.mem_append.mp hb with hb | hb
    · exact List.mem_append_left _ hb
    · exact List.mem_append_right _ ((List.mem_cons.mp hb).resolve_left (Ne.symm hne))
  have h1 : 0 < (f a).count x := List.count_pos_iff.mpr hxa
  have h2 : 0 < ((s ++ t).flatMap f).count x := List.count_pos_iff.mpr hrest
  simp only [List.flatMap_append, List.flatMap_cons, List.count_append] at h h2
  omega

theorem reads_sublist (sys : SysDevices) :
    (sys.reads.map (·.entry.name)).Sublist sys.entryNames := by
  unfold SysDevices.reads SysDevices.entryNames
  induction sys.roots.getD [] with
  | nil => exact List.Sublist.refl _
  | cons root roots ih =>
    rw [List.flatMap_cons, List.flatMap_cons, List.map_append]
    refine List.Sublist.append ?_ ih
    rw [RootDir.reads, RootDir.entryNames]
    cases root.numbers? with
    | none => exact List.nil_sublist _
    | some numbers =>
      rw [List.map_map]
      exact List.Sublist.refl _

/-- An entry that is read is in a root directory whose name was scanned. -/
theorem mem_reads {sys : SysDevices} {r : EntryRead} (h : r ∈ sys.reads) :
    ∃ root ∈ sys.roots.getD [], root.numbers? = some (r.domain, r.bus) ∧
      r.entry.name ∈ root.entryNames := by
  obtain ⟨root, hroot, hr⟩ := List.mem_flatMap.mp h
  refine ⟨root, hroot, ?_⟩
  unfold RootDir.reads at hr
  cases hnumbers : root.numbers? with
  | none =>
    rw [hnumbers] at hr
    exact absurd hr List.not_mem_nil
  | some numbers =>
    rw [hnumbers] at hr
    obtain ⟨e, he, rfl⟩ := List.mem_map.mp hr
    exact ⟨rfl, List.mem_map_of_mem he⟩

theorem mem_reads_of_entry {sys : SysDevices} {root : RootDir} {x : CString}
    {domain bus : BitVec 32} (hroot : root ∈ sys.roots.getD [])
    (hnumbers : root.numbers? = some (domain, bus)) (hx : x ∈ root.entryNames) :
    ∃ r ∈ sys.reads, r.domain = domain ∧ r.bus = bus ∧ r.entry.name = x := by
  obtain ⟨e, he, rfl⟩ := List.mem_map.mp hx
  refine ⟨⟨domain, bus, e⟩, List.mem_flatMap.mpr ⟨root, hroot, ?_⟩, rfl, rfl, rfl⟩
  rw [RootDir.reads, hnumbers]
  exact List.mem_map_of_mem he

/-- The first entry of an interface that is read, and the names read before it. -/
theorem split_reads {sys : SysDevices} {ifname : CString}
    (honly : sys.entryNames.count (netName ifname) = 1) {r : EntryRead} (hr : r ∈ sys.reads)
    (hname : r.entry.name = netName ifname) :
    ∃ l₁ l₂, sys.reads = l₁ ++ r :: l₂ ∧ (∀ x ∈ l₁, x.entry.name ≠ netName ifname) ∧
      sys.readBefore ifname = l₁.map (·.entry.name) := by
  obtain ⟨l₁, l₂, hsplit⟩ := List.append_of_mem hr
  have hbefore : ∀ x ∈ l₁, x.entry.name ≠ netName ifname := by
    intro x hx heq
    have hcount := (reads_sublist sys).count_le (netName ifname)
    have hpos : 0 < (l₁.map (·.entry.name)).count (netName ifname) :=
      List.count_pos_iff.mpr (heq ▸ List.mem_map_of_mem hx)
    rw [hsplit, List.map_append, List.map_cons, hname, List.count_append,
      List.count_cons_self, honly] at hcount
    omega
  refine ⟨l₁, l₂, hsplit, hbefore, ?_⟩
  rw [SysDevices.readBefore, hsplit, List.map_append, List.takeWhile_append_of_pos,
    List.map_cons, List.takeWhile_cons_of_neg, List.append_nil]
  · simp [hname]
  · intro x hx
    obtain ⟨y, hy, rfl⟩ := List.mem_map.mp hx
    simpa using hbefore y hy

/-- A domain of decimal digits: the address written has their decimal value. -/
theorem findsBridge_of_decimal {sys : SysDevices} {id : BusId} {ifname : CString}
    (h : OnlyInterface sys id ifname) (hif : NoNul ifname) (lspci : CString)
    (hdec : ∀ c ∈ hexPad 4 id.domain, isDigitOf 10 c = true) :
    FindsBridge sys id ifname lspci ↔
      digitsVal 10 (hexPad 4 id.domain) = id.domain ∧ ifname.length < NETNAME_SIZE ∧
        ∀ netname, netName netname ∈ sys.readBefore ifname → netname.length < NETNAME_SIZE := by
  obtain ⟨root, hroot, hname, hheld⟩ := h.held
  obtain ⟨r, hr, hd, hb, hrname⟩ :=
    mem_reads_of_entry hroot (numbers?_of_decimal hname hdec) hheld
  obtain ⟨l₁, l₂, hsplit, hbefore, hread⟩ := split_reads h.only hr hrname
  have hlt : digitsVal 10 (hexPad 4 id.domain) < 16 ^ 4 :=
    (digitsVal_decimal_lt hdec).trans (by norm_num)
  obtain ⟨buf, hbuf, hcmp⟩ := sprintfLspci_spec hlt id.bus.isLt lspci
  rw [← hd, ← hb] at hbuf
  have hshort : ((∀ x ∈ l₁, x.Short) ∧ r.Short) ↔ ifname.length < NETNAME_SIZE ∧
      ∀ netname, netName netname ∈ sys.readBefore ifname → netname.length < NETNAME_SIZE := by
    rw [hread, and_comm, short_iff hrname]
    refine and_congr_right fun _ => ?_
    simp only [List.mem_map, forall_exists_index, and_imp, EntryRead.Short]
    exact ⟨fun h netname x hx hn => h x hx netname hn, fun h x hx netname hn => h netname x hx hn⟩
  have hmatch : (∀ (locals : PciId) (domain : BitVec 16) (busId : BitVec 32),
      pcicmp locals buf domain busId = 0 ↔ domain.toNat = id.domain ∧ busId.toNat = id.bus) ↔
      digitsVal 10 (hexPad 4 id.domain) = id.domain := by
    simp only [hcmp]
    constructor
    · intro hall
      have hdom : (BitVec.ofNat 16 id.domain).toNat = id.domain :=
        Nat.mod_eq_of_lt id.domain.isLt
      have hown := (hall ⟨0, 0, 0, 0⟩ (BitVec.ofNat 16 id.domain) (BitVec.ofNat 32 id.bus)).mpr
        ⟨hdom, toNat_ofNat_of_fin (by norm_num) _⟩
      exact hown.1.symm.trans hdom
    · intro hval _ domain busId
      rw [hval]
  rw [← hmatch, ← hshort, FindsBridge, findInterface_eq_search sys hif lspci, hsplit]
  simp only [search_split hbefore hrname, hbuf, Except.ok.injEq]
  constructor
  · rintro ⟨buf', ⟨hs, rfl⟩, hall⟩
    exact ⟨hall, hs⟩
  · rintro ⟨hall, hs⟩
    exact ⟨buf, ⟨hs, rfl⟩, hall⟩

/-- The address found is that of the root bridge with the interface if and only if the domain
    is at most 9 and no name of an interface that is read goes beyond `netname`. -/
theorem findsBridge_iff {sys : SysDevices} {id : BusId} {ifname : CString}
    (h : OnlyInterface sys id ifname) (lspci : CString) :
    FindsBridge sys id ifname lspci ↔
      (id.domain : ℕ) ≤ 9 ∧ ifname.length < NETNAME_SIZE ∧
        ∀ netname, netName netname ∈ sys.readBefore ifname → netname.length < NETNAME_SIZE := by
  obtain ⟨root, hroot, hname, hheld⟩ := h.held
  have hif : NoNul ifname := by
    obtain ⟨e, -, he⟩ := List.mem_map.mp hheld
    exact DirEntry.noNul_ifname he
  rw [le_nine_iff]
  by_cases hdec : ∀ c ∈ hexPad 4 id.domain, isDigitOf 10 c = true
  · rw [findsBridge_of_decimal h hif lspci hdec, eq_true hdec, true_and]
  · refine iff_of_false ?_ fun hcond => hdec hcond.1.1
    rintro ⟨buf, hfound, -⟩
    -- The root directory is skipped, and no other has the interface.
    rw [findInterface_eq_search sys hif lspci] at hfound
    refine search_ne_one (fun r hr hrname => ?_) buf hfound
    obtain ⟨root', hroot', hnumbers, hentry⟩ := mem_reads hr
    rw [hrname] at hentry
    have heq : root' = root := eq_of_count_flatMap h.only hroot' hroot hentry hheld
    rw [heq, numbers?_of_not_decimal hname hdec] at hnumbers
    exact absurd hnumbers (by simp)

/-- An entry of an interface. -/
def DirEntry.net (ifname : CString) (hne : ifname ≠ []) (hnul : NoNul ifname)
    (hword : ifname.all (fun c => !isspace c) = true) : DirEntry where
  name := netName ifname
  noNul := NoNul.append (by decide) hnul
  word := by
    intro ifname' h
    obtain rfl := List.append_cancel_left h
    refine ⟨hne, fun c hc => ?_⟩
    simpa using List.all_eq_true.mp hword c hc

/-- One root bridge, whose only device is the interface `eth0`. -/
def oneInterface (id : BusId) : SysDevices where
  roots := some [{
    name := id.dir
    devices := some [⟨some [.net "eth0".toList (by decide) (by decide) (by decide)]⟩] }]

theorem oneInterface_only (id : BusId) : OnlyInterface (oneInterface id) id "eth0".toList where
  held := ⟨_, List.mem_singleton_self _, rfl, List.mem_singleton_self _⟩
  only := rfl

/-- Four root bridges, with their devices and interfaces, and another directory. -/
def fourBridges : SysDevices where
  roots := some [
    { name := "system".toList, devices := none },
    { name := "pci0000:00".toList
      devices := some [⟨none⟩, ⟨some [.net "eth0".toList (by decide) (by decide) (by decide),
        .net "eth1".toList (by decide) (by decide) (by decide)]⟩] },
    { name := "pci0010:40".toList
      devices := some [⟨some [.net "eth2".toList (by decide) (by decide) (by decide)]⟩] },
    { name := "pci0009:40".toList
      devices := some [⟨some []⟩,
        ⟨some [.net "eth3".toList (by decide) (by decide) (by decide)]⟩] },
    { name := "pci0001:00".toList
      devices := some [⟨some [.net "ethernet0".toList (by decide) (by decide) (by decide)]⟩,
        ⟨some [.net "eth4".toList (by decide) (by decide) (by decide)]⟩] }]

/-- Found below domain `0009`, not below `0010` nor after the name `ethernet0`. -/
theorem findsBridge_iff_fourBridges :
    FindsBridge fourBridges ⟨9, 0x40⟩ "eth3".toList (zeroed LSPCI_SIZE) ∧
      ¬ FindsBridge fourBridges ⟨16, 0x40⟩ "eth2".toList (zeroed LSPCI_SIZE) ∧
      ¬ FindsBridge fourBridges ⟨1, 0⟩ "eth4".toList (zeroed LSPCI_SIZE) := by
  have h9 : OnlyInterface fourBridges ⟨9, 0x40⟩ "eth3".toList :=
    ⟨⟨_, .tail _ (.tail _ (.tail _ (.head _))), rfl, by decide⟩, by decide⟩
  have h16 : OnlyInterface fourBridges ⟨16, 0x40⟩ "eth2".toList :=
    ⟨⟨_, .tail _ (.tail _ (.head _)), rfl, by decide⟩, by decide⟩
  have h1 : OnlyInterface fourBridges ⟨1, 0⟩ "eth4".toList :=
    ⟨⟨_, .tail _ (.tail _ (.tail _ (.tail _ (.head _)))), rfl, by decide⟩, by decide⟩
  have hread : fourBridges.readBefore "eth3".toList =
      ["eth0".toList, "eth1".toList, "eth2".toList].map netName := by decide
  refine ⟨(findsBridge_iff h9 _).mpr ⟨by decide, by decide, ?_⟩, ?_, ?_⟩
  · intro netname hmem
    rw [hread] at hmem
    obtain ⟨ifname, hifname, heq⟩ := List.mem_map.mp hmem
    obtain rfl := List.append_cancel_left heq
    have hshort : ∀ n ∈ ["eth0".toList, "eth1".toList, "eth2".toList], n.length < NETNAME_SIZE := by
      decide
    exact hshort ifname hifname
  · rw [findsBridge_iff h16]
    exact fun h => absurd h.1 (by decide)
  · rw [findsBridge_iff h1]
    exact fun h => absurd (h.2.2 "ethernet0".toList (by decide)) (by decide)

/-- For domain `0010` the address is that of domain `000a`. -/
theorem not_findsBridge_domain16 :
    OnlyInterface (oneInterface ⟨16, 0⟩) ⟨16, 0⟩ "eth0".toList ∧
      ¬ FindsBridge (oneInterface ⟨16, 0⟩) ⟨16, 0⟩ "eth0".toList (zeroed LSPCI_SIZE) := by
  refine ⟨oneInterface_only ⟨16, 0⟩, ?_⟩
  rintro ⟨buf, hfound, hall⟩
  have hbuf : findInterface (oneInterface ⟨16, 0⟩) "eth0".toList (zeroed LSPCI_SIZE) =
      .ok (1, "000a:00:00,0".toList ++ [nul]) := by decide
  rw [hbuf] at hfound
  obtain rfl := (Prod.mk.inj (Except.ok.inj hfound)).2
  have hcmp : pcicmp ⟨0, 0, 0, 0⟩ ("000a:00:00,0".toList ++ [nul]) 16 0 = 1 := by decide
  have hmatch := (hall ⟨0, 0, 0, 0⟩ 16 0).mpr ⟨rfl, rfl⟩
  rw [hcmp] at hmatch
  exact absurd hmatch (by decide)

end Pcitop.Tool
