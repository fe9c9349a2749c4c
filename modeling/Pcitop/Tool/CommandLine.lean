import Pcitop.Common.Getopt
import Pcitop.Tool.Interface
import Pcitop.Tool.Main

/-!
# The command line

The option loop of `main` (`pcitop.c`), over `getopt_long`, and `main` as a whole. A
`Setting` is what an option says, however it is spelled: on its own or in a word with
others, with its argument attached or in the next word, by its letter or by a long name
or an abbreviation of it.

* `parseOptions_iff`: what the loop makes of any command line. The last of several
  settings of an option counts and all else is independent of their order; the first word
  that is no setting ends the program.
* `parseOptions_optionWords`: every state of the options that the loop can leave has a
  command line that leaves it.
-/

namespace Pcitop.Tool

open Pcitop.Common

/-! ## Model -/

/-- The variables that long options set. -/
inductive Flag where
  | verbose | debug
  deriving DecidableEq, Repr

/-- The option string of `main` (line 1017). -/
def optstring : CString := "aA:b:B:C:D:hI:".toList ++ "oP:S:vdVit:c:?".toList

/-- `pcitop_option_list` (lines 160–169). -/
def pcitopOptionList : List (LongOption Flag) :=
  [⟨"help".toList, false, none, '\x01'⟩, ⟨"version".toList, false, none, '\x02'⟩,
    ⟨"timeout".toList, true, none, '\x03'⟩, ⟨"info".toList, false, none, '\x04'⟩,
    ⟨"verbose".toList, false, some .verbose, '\x01'⟩,
    ⟨"debug".toList, false, some .debug, '\x01'⟩]

/-- What `main` passes to `getopt_long`. -/
def mainGetopt (posixlyCorrect : Bool) : Getopt Flag :=
  ⟨optstring, pcitopOptionList, posixlyCorrect⟩

/-- `options` as the command line leaves it. -/
structure CommandLine extends Options where
  optDebug : Bool
  optMatchOr : Bool
  timeout : ℤ
  deriving DecidableEq, Repr

/-- `options` before the loop (lines 1005–1014). -/
def initialOptions : CommandLine where
  optVerbose := false
  optShowInfo := false
  optMatchBus := -1
  optMatchDomain := -1
  optMatchAnd := true
  optMatchCabinet := none
  optMatchBay := none
  optMatchChassis := none
  optMatchSlot := none
  optMatchLspci := none
  nsamples := 0
  optDebug := false
  optMatchOr := false
  timeout := 0

/-- Ways in which the loop ends the program. -/
inductive Stop where
  /-- `usage()` and `exit(0)` -/
  | usage
  /-- the version is printed, and `exit(0)` -/
  | version
  /-- `fatal_error("")` -/
  | fatal
  /-- `optarg` is NULL where a string is expected -/
  | nullOptarg
  | overflow (o : Overflow)
  deriving DecidableEq, Repr

/-- What the loop changes: `options`, and the array `my_lspci`. -/
structure Parse where
  line : CommandLine
  myLspci : CString
  deriving DecidableEq, Repr

/-- A flag set by `getopt_long`. -/
def CommandLine.setFlag (st : CommandLine) : Option (Flag × Char) → CommandLine
  | none => st
  | some (.verbose, v) => { st with optVerbose := v ≠ nul }
  | some (.debug, v) => { st with optDebug := v ≠ nul }

/-- A case of the `switch` that uses `optarg`. -/
def withOptarg (r : Found Flag) (k : CString → Except Stop Parse) : Except Stop Parse :=
  match r.optarg with
  | none => .error .nullOptarg
  | some optarg => k optarg

/-- The conversion of a `long` to an `int`. -/
def toInt (v : ℤ) : ℤ := (BitVec.ofInt 32 v).toInt

/-- A turn of the loop of `main` (lines 1016–1076). A call of `strdup` succeeds. -/
def handleOption (sys : SysDevices) (p : Parse) (r : Found Flag) : Except Stop Parse :=
  let st := p.line.setFlag r.flag
  let next (st : CommandLine) : Except Stop Parse := .ok ⟨st, p.myLspci⟩
  match r.code with
  | '\x00' => next st
  | 'A' => withOptarg r fun optarg => next { st with optMatchChassis := some optarg }
  | 'a' => next { st with optMatchAnd := true, optMatchOr := false }
  | 'v' => next { st with optVerbose := true }
  | 'B' => withOptarg r fun optarg => next { st with optMatchBay := some optarg }
  | 'b' => withOptarg r fun optarg => next { st with optMatchBus := toInt (strtol0 optarg) }
  | 'C' => withOptarg r fun optarg => next { st with optMatchCabinet := some optarg }
  | 'c' => withOptarg r fun optarg => next { st with nsamples := (strtoul10 optarg).toNat }
  | 'D' => withOptarg r fun optarg => next { st with optMatchDomain := toInt (strtol0 optarg) }
  | 'd' => next { st with optDebug := true }
  | 'I' => withOptarg r fun optarg =>
      match findInterface sys optarg p.myLspci with
      | .error o => .error (.overflow o)
      | .ok (ret, myLspci) =>
        if ret = 1 then .ok ⟨{ st with optMatchLspci := some (cstr myLspci) }, myLspci⟩
        else .ok ⟨st, myLspci⟩
  | 'o' => next { st with optMatchOr := true, optMatchAnd := false }
  | 'P' => withOptarg r fun optarg => next { st with optMatchLspci := some optarg }
  | 'S' => withOptarg r fun optarg => next { st with optMatchSlot := some optarg }
  | 'h' => .error .usage
  | '?' => .error .usage
  | '\x01' => .error .usage
  | '\x03' => withOptarg r fun optarg => next { st with timeout := atoi optarg }
  | 't' => withOptarg r fun optarg => next { st with timeout := atoi optarg }
  | '\x04' => next { st with optShowInfo := true }
  | 'i' => next { st with optShowInfo := true }
  | 'V' => .error .version
  | '\x02' => .error .version
  | _ => .error .fatal

/-- The loop of `main` over the words after the name of the program. `myLspci` is what the
    array holds on entry. -/
def parseOptions (sys : SysDevices) (posixlyCorrect : Bool) (argv : List CString)
    (myLspci : CString) : Except Stop CommandLine :=
  (optionLoop (mainGetopt posixlyCorrect) (handleOption sys) ⟨[], argv.map cstr⟩
    ⟨initialOptions, myLspci⟩).map (·.line)

/-- `LBA_DRIVER_NAME`. -/
def LBA_DRIVER_NAME : CString := "hplba".toList

/-- `SLOT_DRIVER_NAMES`. -/
def SLOT_DRIVER_NAMES : List CString := ["acpiphp".toList, "pci_slot".toList]

/-- `drivers_loaded` (lines 221–255). `loaded` tells which names are below `/sys/module`, as
    `driver_loaded` finds out. -/
def driversLoaded (loaded : CString → Bool) : Bool :=
  if !loaded LBA_DRIVER_NAME then false else SLOT_DRIVER_NAMES.any loaded

/-- What the program is run on. -/
structure Host where
  sysDevices : SysDevices
  posixlyCorrect : Bool
  euid : ℕ
  loaded : CString → Bool
  /-- what the array `my_lspci` holds on entry -/
  myLspci : CString
  machine : Machine

/-- Ways in which the program ends before its last statement. -/
inductive Exit where
  | stop (s : Stop)
  | fault (f : Fault)
  deriving DecidableEq, Repr

/-- `main` (lines 998–1116), of the words after the name of the program. -/
def pcitop (host : Host) (argv : List CString) : Except Exit Outcome :=
  match parseOptions host.sysDevices host.posixlyCorrect argv host.myLspci with
  | .error s => .error (.stop s)
  | .ok st =>
    if host.euid ≠ 0 then .error (.fault (.exit 1))
    else if !driversLoaded host.loaded then .error (.fault (.exit 1))
    else
      match main st.toOptions host.machine with
      | .error f => .error (.fault f)
      | .ok outcome => .ok outcome

/-! ## Settings -/

/-- What an option says. -/
inductive Setting where
  | and
  | or
  | verbose
  | debug
  | info
  | chassis (s : CString)
  | bay (s : CString)
  | cabinet (s : CString)
  | slot (s : CString)
  | lspci (s : CString)
  | interface (s : CString)
  | bus (s : CString)
  | domain (s : CString)
  | samples (s : CString)
  | timeout (s : CString)
  deriving DecidableEq, Repr

/-- A setting, or a word that ends the program. An option in error asks for help. -/
inductive Word where
  | set (s : Setting)
  | help
  | version
  deriving DecidableEq, Repr

/-- What a call of `getopt_long` gives for a word, by letters and by long names. -/
inductive Spells : Found Flag → Word → Prop
  | and : Spells ⟨'a', none, none⟩ (.set .and)
  | or : Spells ⟨'o', none, none⟩ (.set .or)
  | verbose : Spells ⟨'v', none, none⟩ (.set .verbose)
  | longVerbose : Spells ⟨nul, none, some (.verbose, '\x01')⟩ (.set .verbose)
  | debug : Spells ⟨'d', none, none⟩ (.set .debug)
  | longDebug : Spells ⟨nul, none, some (.debug, '\x01')⟩ (.set .debug)
  | info : Spells ⟨'i', none, none⟩ (.set .info)
  | longInfo : Spells ⟨'\x04', none, none⟩ (.set .info)
  | chassis (s) : Spells ⟨'A', some s, none⟩ (.set (.chassis s))
  | bay (s) : Spells ⟨'B', some s, none⟩ (.set (.bay s))
  | cabinet (s) : Spells ⟨'C', some s, none⟩ (.set (.cabinet s))
  | slot (s) : Spells ⟨'S', some s, none⟩ (.set (.slot s))
  | lspci (s) : Spells ⟨'P', some s, none⟩ (.set (.lspci s))
  | interface (s) : Spells ⟨'I', some s, none⟩ (.set (.interface s))
  | bus (s) : Spells ⟨'b', some s, none⟩ (.set (.bus s))
  | domain (s) : Spells ⟨'D', some s, none⟩ (.set (.domain s))
  | samples (s) : Spells ⟨'c', some s, none⟩ (.set (.samples s))
  | timeout (s) : Spells ⟨'t', some s, none⟩ (.set (.timeout s))
  | longTimeout (s) : Spells ⟨'\x03', some s, none⟩ (.set (.timeout s))
  | help : Spells ⟨'h', none, none⟩ .help
  | longHelp : Spells ⟨'\x01', none, none⟩ .help
  | error : Spells badOption .help
  | version : Spells ⟨'V', none, none⟩ .version
  | longVersion : Spells ⟨'\x02', none, none⟩ .version

/-- The words of a command line. -/
def Says (posixlyCorrect : Bool) (argv : List CString) (ws : List Word) : Prop :=
  ∃ founds err, Reads (mainGetopt posixlyCorrect) (argv.map cstr) founds err ∧
    List.Forall₂ Spells (calls founds err) ws

/-- The address of the root bridge of an interface, if one is found. -/
def interfaceAddress (sys : SysDevices) (ifname : CString) : Except Overflow (Option CString) :=
  (findInterface sys ifname []).map fun r => if r.1 = 1 then some (cstr r.2) else none

/-- The array that is overrun when the setting is made. -/
def Setting.overflow? (sys : SysDevices) : Setting → Option Overflow
  | .interface ifname =>
    match interfaceAddress sys ifname with
    | .error o => some o
    | .ok _ => none
  | _ => none

/-! ## The last setting counts -/

def Setting.and? : Setting → Option Bool
  | .and => some true
  | .or => some false
  | _ => none

def Setting.bus? : Setting → Option ℤ
  | .bus s => some (toInt (strtol0 s))
  | _ => none

def Setting.domain? : Setting → Option ℤ
  | .domain s => some (toInt (strtol0 s))
  | _ => none

def Setting.cabinet? : Setting → Option CString
  | .cabinet s => some s
  | _ => none

def Setting.bay? : Setting → Option CString
  | .bay s => some s
  | _ => none

def Setting.chassis? : Setting → Option CString
  | .chassis s => some s
  | _ => none

def Setting.slot? : Setting → Option CString
  | .slot s => some s
  | _ => none

/-- An interface stands for the address of its root bridge, and for nothing if it has
    none. -/
def Setting.lspci? (sys : SysDevices) : Setting → Option CString
  | .lspci s => some s
  | .interface ifname =>
    match interfaceAddress sys ifname with
    | .error _ => none
    | .ok address => address
  | _ => none

def Setting.samples? : Setting → Option ℕ
  | .samples s => some (strtoul10 s).toNat
  | _ => none

def Setting.timeout? : Setting → Option ℤ
  | .timeout s => some (atoi s)
  | _ => none

/-- The last of the values that `f` takes on a list. -/
def lastOf {α β : Type} (f : α → Option β) (as : List α) : Option β := (as.filterMap f).getLast?

@[simp] theorem lastOf_nil {α β : Type} (f : α → Option β) : lastOf f [] = none := rfl

theorem lastOf_concat {α β : Type} (f : α → Option β) (as : List α) (a : α) :
    lastOf f (as ++ [a]) = (f a).or (lastOf f as) := by
  unfold lastOf
  rw [List.filterMap_append]
  cases h : f a with
  | none => simp [h]
  | some b => simp [h]

/-- The options after some settings. -/
def settled (sys : SysDevices) (ss : List Setting) : CommandLine where
  optVerbose := ss.any (· = .verbose)
  optShowInfo := ss.any (· = .info)
  optMatchBus := (lastOf Setting.bus? ss).getD (-1)
  optMatchDomain := (lastOf Setting.domain? ss).getD (-1)
  optMatchAnd := (lastOf Setting.and? ss).getD true
  optMatchCabinet := lastOf Setting.cabinet? ss
  optMatchBay := lastOf Setting.bay? ss
  optMatchChassis := lastOf Setting.chassis? ss
  optMatchSlot := lastOf Setting.slot? ss
  optMatchLspci := lastOf (Setting.lspci? sys) ss
  nsamples := (lastOf Setting.samples? ss).getD 0
  optDebug := ss.any (· = .debug)
  optMatchOr := !(lastOf Setting.and? ss).getD true
  timeout := (lastOf Setting.timeout? ss).getD 0

theorem settled_nil (sys : SysDevices) : settled sys [] = initialOptions := rfl

/-! ## A turn of the loop -/

theorem noNul_lspciText (domain bus : BitVec 32) : NoNul (lspciText domain bus) :=
  (noNul_hexPad 4 _).append
    (NoNul.append (s := [':']) (by decide) ((noNul_hexPad 2 _).append (by decide)))

/-- What `find_interface` finds does not depend on what the array held. -/
theorem findInRoots_address (ifname : CString) (roots : List RootDir) :
    (∃ o, ∀ lspci, findInRoots ifname lspci roots = .error o) ∨
      (∃ address, ∀ lspci, ∃ buf, cstr buf = address ∧
        findInRoots ifname lspci roots = .ok (1, buf)) ∨
      ∀ lspci, findInRoots ifname lspci roots = .ok (-1, lspci) := by
  induction roots with
  | nil => exact .inr (.inr fun _ => rfl)
  | cons root roots ih =>
    cases hnum : root.numbers? with
    | none => simpa only [findInRoots_cons, hnum] using ih
    | some numbers =>
      obtain ⟨domain, bus⟩ := numbers
      simp only [findInRoots_cons, hnum]
      cases findInDevices ifname (root.devices.getD []) with
      | error o => exact .inl ⟨o, fun _ => rfl⟩
      | ok found =>
        cases found with
        | false => exact ih
        | true =>
          by_cases hlen : LSPCI_SIZE ≤ (lspciText domain bus).length
          · refine .inl ⟨.lspci, fun lspci => ?_⟩
            have hprint : sprintfLspci domain bus lspci = .error .lspci := if_pos hlen
            simp only [Except.bind, foundOr, hprint]
            rfl
          · refine .inr (.inl ⟨lspciText domain bus, fun lspci => ⟨_,
              cstr_append_nul (noNul_lspciText domain bus)
                (lspci.drop ((lspciText domain bus).length + 1)), ?_⟩⟩)
            have hprint : sprintfLspci domain bus lspci = .ok (lspciText domain bus ++
                nul :: lspci.drop ((lspciText domain bus).length + 1)) := if_neg hlen
            simp only [Except.bind, foundOr, hprint]
            rfl

/-- What `main` makes of a call of `find_interface`. -/
theorem findInterface_address (sys : SysDevices) (ifname lspci : CString) :
    match interfaceAddress sys ifname with
    | .error o => findInterface sys ifname lspci = .error o
    | .ok none => ∃ ret buf, findInterface sys ifname lspci = .ok (ret, buf) ∧ ret ≠ 1
    | .ok (some address) => ∃ buf, findInterface sys ifname lspci = .ok (1, buf) ∧
        cstr buf = address := by
  unfold interfaceAddress findInterface
  cases sys.roots with
  | none => exact ⟨_, _, rfl, by decide⟩
  | some roots =>
    rcases findInRoots_address ifname roots with ⟨o, h⟩ | ⟨address, h⟩ | h
    · simp only [h, Except.map]
    · obtain ⟨buf, hbuf, hfind⟩ := h []
      obtain ⟨buf', hbuf', hfind'⟩ := h lspci
      simp only [hfind, hfind', Except.map, if_pos, hbuf]
      exact ⟨buf', rfl, hbuf'⟩
    · simp only [h, Except.map]
      exact ⟨_, _, rfl, by decide⟩

theorem settled_concat (sys : SysDevices) (ss : List Setting) (s : Setting) :
    settled sys (ss ++ [s]) =
      { optVerbose := if s = .verbose then true else (settled sys ss).optVerbose
        optShowInfo := if s = .info then true else (settled sys ss).optShowInfo
        optMatchBus := s.bus?.getD (settled sys ss).optMatchBus
        optMatchDomain := s.domain?.getD (settled sys ss).optMatchDomain
        optMatchAnd := s.and?.getD (settled sys ss).optMatchAnd
        optMatchCabinet := s.cabinet?.or (settled sys ss).optMatchCabinet
        optMatchBay := s.bay?.or (settled sys ss).optMatchBay
        optMatchChassis := s.chassis?.or (settled sys ss).optMatchChassis
        optMatchSlot := s.slot?.or (settled sys ss).optMatchSlot
        optMatchLspci := (s.lspci? sys).or (settled sys ss).optMatchLspci
        nsamples := s.samples?.getD (settled sys ss).nsamples
        optDebug := if s = .debug then true else (settled sys ss).optDebug
        optMatchOr := (s.and?.map (!·)).getD (settled sys ss).optMatchOr
        timeout := s.timeout?.getD (settled sys ss).timeout } := by
  have hgetD : ∀ {β : Type} (a b : Option β) (d : β), (a.or b).getD d = a.getD (b.getD d) := by
    intro β a b d
    cases a <;> rfl
  have hnot : ∀ (a : Option Bool) (b : Bool), (!a.getD b) = (a.map (!·)).getD (!b) := by
    intro a b
    cases a <;> rfl
  have hany : ∀ t : Setting, (ss ++ [s]).any (· = t) = if s = t then true else ss.any (· = t) := by
    intro t
    split_ifs with h <;> simp [h]
  simp only [settled, lastOf_concat, hgetD, hnot, hany]

/-- A setting that overruns no array is made. -/
theorem handleOption_set {sys : SysDevices} {r : Found Flag} {s : Setting}
    (hr : Spells r (.set s)) (hs : s.overflow? sys = none) (ss : List Setting)
    (myLspci : CString) :
    ∃ myLspci', handleOption sys ⟨settled sys ss, myLspci⟩ r =
      .ok ⟨settled sys (ss ++ [s]), myLspci'⟩ := by
  rw [settled_concat]
  generalize settled sys ss = st
  cases hr with
  | interface ifname =>
    have hfind := findInterface_address sys ifname myLspci
    rw [Setting.overflow?] at hs
    have hlspci : (Setting.interface ifname).lspci? sys = match interfaceAddress sys ifname with
      | .error _ => none
      | .ok address => address := rfl
    rw [hlspci]
    cases haddr : interfaceAddress sys ifname with
    | error o => exact absurd hs (by simp [haddr])
    | ok address =>
      rw [haddr] at hfind
      cases address with
      | none =>
        obtain ⟨ret, buf, hfind, hret⟩ := hfind
        refine ⟨buf, ?_⟩
        simp only [handleOption, withOptarg, hfind, if_neg hret]
        rfl
      | some address =>
        obtain ⟨buf, hfind, hbuf⟩ := hfind
        refine ⟨buf, ?_⟩
        simp only [handleOption, withOptarg, hfind, if_pos, hbuf]
        rfl
  | _ => exact ⟨myLspci, rfl⟩

theorem handleOption_overflow {sys : SysDevices} {r : Found Flag} {s : Setting} {o : Overflow}
    (hr : Spells r (.set s)) (hs : s.overflow? sys = some o) (p : Parse) :
    handleOption sys p r = .error (.overflow o) := by
  cases hr with
  | interface ifname =>
    have hfind := findInterface_address sys ifname p.myLspci
    rw [Setting.overflow?] at hs
    cases haddr : interfaceAddress sys ifname with
    | error o' =>
      rw [haddr] at hfind hs
      obtain rfl : o' = o := Option.some.inj hs
      simp only [handleOption, withOptarg, hfind]
    | ok address => exact absurd hs (by simp [haddr])
  | _ => exact absurd hs (by simp [Setting.overflow?])

/-- What a word that is no setting ends the program with. -/
theorem handleOption_help (sys : SysDevices) {r : Found Flag} (hr : Spells r .help) (p : Parse) :
    handleOption sys p r = .error .usage := by
  cases hr <;> rfl

theorem handleOption_version (sys : SysDevices) {r : Found Flag} (hr : Spells r .version)
    (p : Parse) : handleOption sys p r = .error .version := by
  cases hr <;> rfl

/-! ## The loop -/

/-- What the loop makes of a command line. -/
inductive Means (sys : SysDevices) (posixlyCorrect : Bool) (argv : List CString) :
    Except Stop CommandLine → Prop
  | options {ss : List Setting} (hsaid : Says posixlyCorrect argv (ss.map .set))
      (hfits : ∀ s ∈ ss, s.overflow? sys = none) :
      Means sys posixlyCorrect argv (.ok (settled sys ss))
  | help {ss : List Setting} {ws : List Word}
      (hsaid : Says posixlyCorrect argv (ss.map .set ++ .help :: ws))
      (hfits : ∀ s ∈ ss, s.overflow? sys = none) :
      Means sys posixlyCorrect argv (.error .usage)
  | version {ss : List Setting} {ws : List Word}
      (hsaid : Says posixlyCorrect argv (ss.map .set ++ .version :: ws))
      (hfits : ∀ s ∈ ss, s.overflow? sys = none) :
      Means sys posixlyCorrect argv (.error .version)
  | overflow {ss : List Setting} {s : Setting} {o : Overflow} {ws : List Word}
      (hsaid : Says posixlyCorrect argv (ss.map .set ++ .set s :: ws))
      (hfits : ∀ s ∈ ss, s.overflow? sys = none) (hs : s.overflow? sys = some o) :
      Means sys posixlyCorrect argv (.error (.overflow o))

section

variable {sys : SysDevices} {posixlyCorrect : Bool} {argv : List CString}

theorem foldlM_handleOption_set {founds : List (Found Flag)} {ss : List Setting}
    (h : List.Forall₂ Spells founds (ss.map .set)) (hfits : ∀ s ∈ ss, s.overflow? sys = none)
    (before : List Setting) (myLspci : CString) :
    ∃ myLspci', founds.foldlM (handleOption sys) ⟨settled sys before, myLspci⟩ =
      .ok ⟨settled sys (before ++ ss), myLspci'⟩ := by
  induction ss generalizing founds before myLspci with
  | nil =>
    obtain rfl := List.forall₂_nil_right_iff.mp h
    exact ⟨myLspci, by rw [List.append_nil]; rfl⟩
  | cons s ss ih =>
    obtain ⟨r, rs, hr, hrs, rfl⟩ := List.forall₂_cons_right_iff.mp h
    obtain ⟨buf, hset⟩ := handleOption_set hr (hfits s List.mem_cons_self) before myLspci
    obtain ⟨buf', hrest⟩ := ih hrs (fun s hs => hfits s (List.mem_cons_of_mem _ hs))
      (before ++ [s]) buf
    refine ⟨buf', ?_⟩
    rw [List.foldlM_cons, hset, List.append_assoc] at *
    exact hrest

/-- The loop over what `getopt_long` returns. -/
theorem parseOptions_eq_foldlM {founds : List (Found Flag)} {err : Bool}
    (h : Reads (mainGetopt posixlyCorrect) (argv.map cstr) founds err) (myLspci : CString) :
    parseOptions sys posixlyCorrect argv myLspci =
      ((calls founds err).foldlM (handleOption sys) ⟨settled sys [], myLspci⟩).map (·.line) := by
  have hbad : EndsAtError (handleOption sys) := fun p => ⟨.usage, rfl⟩
  rw [parseOptions, h.optionLoop_eq hbad, settled_nil]

/-- The loop ends at the first word that is no setting. -/
theorem parseOptions_of_stop {ss : List Setting} {w : Word} {ws : List Word} {e : Stop}
    (hsaid : Says posixlyCorrect argv (ss.map .set ++ w :: ws))
    (hfits : ∀ s ∈ ss, s.overflow? sys = none)
    (hstop : ∀ r p, Spells r w → handleOption sys p r = .error e) (myLspci : CString) :
    parseOptions sys posixlyCorrect argv myLspci = .error e := by
  obtain ⟨founds, err, hreads, hspells⟩ := hsaid
  rw [parseOptions_eq_foldlM hreads]
  generalize calls founds err = rs at hspells
  have hbefore := List.forall₂_take_append _ _ _ hspells
  obtain ⟨r, after, hr, -, hafter⟩ :=
    List.forall₂_cons_right_iff.mp (List.forall₂_drop_append _ _ _ hspells)
  obtain ⟨buf, hfold⟩ := foldlM_handleOption_set hbefore hfits [] myLspci
  have herr : (r :: after).foldlM (handleOption sys) ⟨settled sys ([] ++ ss), buf⟩ = .error e := by
    rw [List.foldlM_cons, hstop _ _ hr]
    rfl
  rw [← List.take_append_drop (ss.map Word.set).length rs, List.foldlM_append, hfold, hafter]
  exact congrArg (Except.map _) herr

theorem parseOptions_of_means {res : Except Stop CommandLine}
    (h : Means sys posixlyCorrect argv res) (myLspci : CString) :
    parseOptions sys posixlyCorrect argv myLspci = res := by
  cases h with
  | options hsaid hfits =>
    obtain ⟨founds, err, hreads, hspells⟩ := hsaid
    obtain ⟨buf, hfold⟩ := foldlM_handleOption_set hspells hfits [] myLspci
    rw [parseOptions_eq_foldlM hreads, hfold]
    rfl
  | help hsaid hfits =>
    exact parseOptions_of_stop hsaid hfits (fun _ p hr => handleOption_help sys hr p) myLspci
  | version hsaid hfits =>
    exact parseOptions_of_stop hsaid hfits (fun _ p hr => handleOption_version sys hr p) myLspci
  | overflow hsaid hfits hs =>
    exact parseOptions_of_stop hsaid hfits (fun _ p hr => handleOption_overflow hr hs p) myLspci

end

/-! ## Every command line -/

theorem mem_of_shortArg {φ : Type} {g : Getopt φ} {c : Char} {b : Bool}
    (h : g.shortArg c = some b) : c ∈ g.optstring := by
  unfold Getopt.shortArg at h
  split_ifs at h
  split at h
  · exact absurd h (by simp)
  · rename_i d s hdrop
    have hhead := List.head?_dropWhile_not (fun d : Char => decide (d ≠ c)) g.optstring
    rw [hdrop] at hhead
    obtain rfl : d = c := by simpa using hhead
    exact (List.dropWhile_sublist _).subset (hdrop ▸ List.mem_cons_self)

theorem mem_of_longOption {φ : Type} [DecidableEq φ] {g : Getopt φ} {name : CString}
    {o : LongOption φ} (h : g.longOption name = some o) : o ∈ g.longopts := by
  unfold Getopt.longOption at h
  split at h
  · rename_i o' hfind
    obtain rfl : o' = o := Option.some.inj h
    exact List.mem_of_find?_eq_some hfind
  · split at h
    · exact absurd h (by simp)
    · rename_i o' os hfilter
      split_ifs at h
      obtain rfl : o' = o := Option.some.inj h
      exact List.mem_of_mem_filter (hfilter ▸ List.mem_cons_self)

section

variable {posixlyCorrect : Bool}

theorem optstring_eq : optstring =
    ['a', 'A', ':', 'b', ':', 'B', ':', 'C', ':', 'D', ':', 'h', 'I', ':', 'o', 'P', ':', 'S', ':',
      'v', 'd', 'V', 'i', 't', ':', 'c', ':', '?'] := rfl

/-- The letters of the options, without and with an argument. -/
theorem mem_of_shortArg_main {c : Char} {b : Bool}
    (h : (mainGetopt posixlyCorrect).shortArg c = some b) :
    c ∈ if b then ['A', 'b', 'B', 'C', 'D', 'I', 'P', 'S', 't', 'c']
      else ['a', 'h', 'o', 'v', 'd', 'V', 'i', '?'] := by
  have hmem : c ∈ optstring := mem_of_shortArg h
  rw [optstring_eq] at hmem
  simp only [List.mem_cons, List.not_mem_nil, or_false] at hmem
  rcases hmem with rfl | rfl | rfl | rfl | rfl | rfl | rfl | rfl | rfl | rfl | rfl | rfl | rfl |
    rfl | rfl | rfl | rfl | rfl | rfl | rfl | rfl | rfl | rfl | rfl | rfl | rfl | rfl | rfl <;>
    simp [mainGetopt, optstring_eq, Getopt.shortArg] at h <;> subst h <;> decide

/-- Every option of the program is the spelling of a word. -/
theorem exists_spells_flag {c : Char} (h : (mainGetopt posixlyCorrect).shortArg c = some false) :
    ∃ w, Spells ⟨c, none, none⟩ w := by
  have hmem := mem_of_shortArg_main h
  simp only [if_neg Bool.false_ne_true, List.mem_cons, List.not_mem_nil, or_false] at hmem
  rcases hmem with rfl | rfl | rfl | rfl | rfl | rfl | rfl | rfl
  exacts [⟨_, .and⟩, ⟨_, .help⟩, ⟨_, .or⟩, ⟨_, .verbose⟩, ⟨_, .debug⟩, ⟨_, .version⟩, ⟨_, .info⟩,
    ⟨_, .error⟩]

theorem exists_spells_arg {c : Char} (h : (mainGetopt posixlyCorrect).shortArg c = some true)
    (a : CString) : ∃ w, Spells ⟨c, some a, none⟩ w := by
  have hmem := mem_of_shortArg_main h
  simp only [if_pos, List.mem_cons, List.not_mem_nil, or_false] at hmem
  rcases hmem with rfl | rfl | rfl | rfl | rfl | rfl | rfl | rfl | rfl | rfl
  exacts [⟨_, .chassis a⟩, ⟨_, .bus a⟩, ⟨_, .bay a⟩, ⟨_, .cabinet a⟩, ⟨_, .domain a⟩,
    ⟨_, .interface a⟩, ⟨_, .lspci a⟩, ⟨_, .slot a⟩, ⟨_, .timeout a⟩, ⟨_, .samples a⟩]

theorem exists_spells_long {name : CString} {o : LongOption Flag}
    (h : (mainGetopt posixlyCorrect).longOption name = some o) {optarg : Option CString}
    (harg : optarg.isSome = o.hasArg) : ∃ w, Spells (o.found optarg) w := by
  have hmem : o ∈ pcitopOptionList := mem_of_longOption h
  simp only [pcitopOptionList, List.mem_cons, List.not_mem_nil, or_false] at hmem
  rcases hmem with rfl | rfl | rfl | rfl | rfl | rfl <;> cases optarg <;>
    simp only [Option.isSome_none, Option.isSome_some, reduceCtorEq] at harg
  exacts [⟨_, .longHelp⟩, ⟨_, .longVersion⟩, ⟨_, .longTimeout _⟩, ⟨_, .longInfo⟩,
    ⟨_, .longVerbose⟩, ⟨_, .longDebug⟩]

theorem exists_spells_letters {cs : CString} {args : List CString} {founds : List (Found Flag)}
    {after : Option (List CString)}
    (h : Letters (mainGetopt posixlyCorrect) cs args founds after) :
    ∀ r ∈ founds, ∃ w, Spells r w := by
  induction h with
  | done | missing | unknown => exact fun r hr => absurd hr List.not_mem_nil
  | flag harg h ih =>
    intro r hr
    rcases List.mem_cons.mp hr with rfl | hr
    · exact exists_spells_flag harg
    · exact ih r hr
  | attached args harg hne =>
    intro r hr
    rw [List.mem_singleton.mp hr]
    exact exists_spells_arg harg _
  | separate a args harg =>
    intro r hr
    rw [List.mem_singleton.mp hr]
    exact exists_spells_arg harg _

theorem exists_spells_longWord {text : CString} {args : List CString}
    {founds : List (Found Flag)} {after : Option (List CString)}
    (h : Long (mainGetopt posixlyCorrect) text args founds after) :
    ∀ r ∈ founds, ∃ w, Spells r w := by
  intro r hr
  cases h with
  | flag args hname ho harg =>
    rw [List.mem_singleton.mp hr]
    exact exists_spells_long ho harg.symm
  | attached a args hname ho harg =>
    rw [List.mem_singleton.mp hr]
    exact exists_spells_long ho harg.symm
  | separate a args hname ho harg =>
    rw [List.mem_singleton.mp hr]
    exact exists_spells_long ho harg.symm
  | missing | extra | unknown => exact absurd hr List.not_mem_nil

theorem exists_spells_reads {args : List CString} {founds : List (Found Flag)} {err : Bool}
    (h : Reads (mainGetopt posixlyCorrect) args founds err) : ∀ r ∈ founds, ∃ w, Spells r w := by
  induction h with
  | nil | stop | dashes => exact fun r hr => absurd hr List.not_mem_nil
  | word hp hw h ih => exact ih
  | letters hc hl h ih =>
    intro r hr
    exact (List.mem_append.mp hr).elim (exists_spells_letters hl r) (ih r)
  | badLetters hc hl => exact exists_spells_letters hl
  | long hne hl h ih =>
    intro r hr
    exact (List.mem_append.mp hr).elim (exists_spells_longWord hl r) (ih r)
  | badLong hne hl => exact exists_spells_longWord hl

theorem exists_forall₂ {α β : Type} {R : α → β → Prop} {as : List α} (h : ∀ a ∈ as, ∃ b, R a b) :
    ∃ bs, List.Forall₂ R as bs := by
  induction as with
  | nil => exact ⟨[], .nil⟩
  | cons a as ih =>
    obtain ⟨b, hb⟩ := h a List.mem_cons_self
    obtain ⟨bs, hbs⟩ := ih fun a ha => h a (List.mem_cons_of_mem _ ha)
    exact ⟨b :: bs, .cons hb hbs⟩

/-- Every command line says some words. -/
theorem exists_says (posixlyCorrect : Bool) (argv : List CString) :
    ∃ ws, Says posixlyCorrect argv ws := by
  obtain ⟨founds, err, hreads⟩ := exists_reads (mainGetopt posixlyCorrect) (argv.map cstr)
  have hspells : ∀ r ∈ calls founds err, ∃ w, Spells r w := by
    intro r hr
    unfold calls at hr
    split_ifs at hr
    · rcases List.mem_append.mp hr with hr | hr
      · exact exists_spells_reads hreads r hr
      · rw [List.mem_singleton.mp hr]
        exact ⟨_, .error⟩
    · exact exists_spells_reads hreads r hr
  obtain ⟨ws, hws⟩ := exists_forall₂ hspells
  exact ⟨ws, founds, err, hreads, hws⟩

/-- The settings that are made, and the word that ends them. -/
theorem settings_or_stop (sys : SysDevices) (ws : List Word) :
    (∃ ss : List Setting, ws = ss.map .set ∧ ∀ s ∈ ss, s.overflow? sys = none) ∨
      ∃ (ss : List Setting) (w : Word) (after : List Word), ws = ss.map .set ++ w :: after ∧
        (∀ s ∈ ss, s.overflow? sys = none) ∧ ∀ s, w = .set s → s.overflow? sys ≠ none := by
  induction ws with
  | nil => exact .inl ⟨[], rfl, fun s hs => absurd hs List.not_mem_nil⟩
  | cons w ws ih =>
    by_cases hw : ∃ s, w = .set s ∧ s.overflow? sys = none
    · obtain ⟨s, rfl, hs⟩ := hw
      rcases ih with ⟨ss, rfl, hss⟩ | ⟨ss, w, after, rfl, hss, hstop⟩
      · exact .inl ⟨s :: ss, rfl, List.forall_mem_cons.mpr ⟨hs, hss⟩⟩
      · exact .inr ⟨s :: ss, w, after, rfl, List.forall_mem_cons.mpr ⟨hs, hss⟩, hstop⟩
    · exact .inr ⟨[], w, ws, rfl, fun s hs => absurd hs List.not_mem_nil,
        fun s hs hnone => hw ⟨s, hs, hnone⟩⟩

theorem exists_means (sys : SysDevices) (posixlyCorrect : Bool) (argv : List CString) :
    ∃ res, Means sys posixlyCorrect argv res := by
  obtain ⟨ws, hsaid⟩ := exists_says posixlyCorrect argv
  rcases settings_or_stop sys ws with ⟨ss, rfl, hss⟩ | ⟨ss, w, after, rfl, hss, hstop⟩
  · exact ⟨_, .options hsaid hss⟩
  · cases w with
    | help => exact ⟨_, .help hsaid hss⟩
    | version => exact ⟨_, .version hsaid hss⟩
    | set s =>
      obtain ⟨o, ho⟩ := Option.ne_none_iff_exists'.mp (hstop s rfl)
      exact ⟨_, .overflow hsaid hss ho⟩

end

/-- What the loop returns is what the words mean. -/
theorem means_parseOptions (sys : SysDevices) (posixlyCorrect : Bool) (argv : List CString)
    (myLspci : CString) :
    Means sys posixlyCorrect argv (parseOptions sys posixlyCorrect argv myLspci) := by
  obtain ⟨res, h⟩ := exists_means sys posixlyCorrect argv
  rwa [parseOptions_of_means h myLspci]

/-- **What the option loop makes of a command line.** -/
theorem parseOptions_iff (sys : SysDevices) (posixlyCorrect : Bool) (argv : List CString)
    (myLspci : CString) (res : Except Stop CommandLine) :
    parseOptions sys posixlyCorrect argv myLspci = res ↔ Means sys posixlyCorrect argv res := by
  constructor
  · rintro rfl
    exact means_parseOptions sys posixlyCorrect argv myLspci
  · exact fun h => parseOptions_of_means h myLspci

/-! ## A command line for every state of the options -/

/-- The text in a setting. -/
def Setting.text? : Setting → Option CString
  | .and => none
  | .or => none
  | .verbose => none
  | .debug => none
  | .info => none
  | .chassis s => some s
  | .bay s => some s
  | .cabinet s => some s
  | .slot s => some s
  | .lspci s => some s
  | .interface s => some s
  | .bus s => some s
  | .domain s => some s
  | .samples s => some s
  | .timeout s => some s

/-- The letter of a setting. -/
def Setting.letter : Setting → Char
  | .and => 'a'
  | .or => 'o'
  | .verbose => 'v'
  | .debug => 'd'
  | .info => 'i'
  | .chassis _ => 'A'
  | .bay _ => 'B'
  | .cabinet _ => 'C'
  | .slot _ => 'S'
  | .lspci _ => 'P'
  | .interface _ => 'I'
  | .bus _ => 'b'
  | .domain _ => 'D'
  | .samples _ => 'c'
  | .timeout _ => 't'

/-- A setting on a command line: its letter and, in the next word, its text. -/
def Setting.words (s : Setting) : List CString := ['-', s.letter] :: s.text?.toList

theorem Setting.spells (s : Setting) : Spells ⟨s.letter, s.text?, none⟩ (.set s) := by
  cases s <;> constructor

theorem Setting.letter_ne (s : Setting) : s.letter ≠ '-' := by
  cases s <;> simp only [letter] <;> decide

theorem Setting.shortArg (s : Setting) (posixlyCorrect : Bool) :
    (mainGetopt posixlyCorrect).shortArg s.letter = some s.text?.isSome := by
  cases s <;> simp [mainGetopt, optstring_eq, Getopt.shortArg, letter, text?]

theorem says_nil (posixlyCorrect : Bool) : Says posixlyCorrect [] [] :=
  ⟨[], false, .nil, .nil⟩

/-- One more setting in front. -/
theorem Says.cons {posixlyCorrect : Bool} {argv : List CString} {ws : List Word}
    (h : Says posixlyCorrect argv ws) {s : Setting} (hs : ∀ a ∈ s.text?, NoNul a) :
    Says posixlyCorrect (s.words ++ argv) (.set s :: ws) := by
  obtain ⟨founds, err, hreads, hspells⟩ := h
  refine ⟨⟨s.letter, s.text?, none⟩ :: founds, err, ?_, ?_⟩
  · have harg := s.shortArg posixlyCorrect
    have hletter : cstr ['-', s.letter] = ['-', s.letter] := by cases s <;> rfl
    rw [Setting.words, List.cons_append, List.map_cons, hletter, List.map_append]
    cases ht : s.text? with
    | none =>
      rw [ht] at harg
      exact .letters s.letter_ne (.flag harg (.done _)) hreads
    | some a =>
      rw [ht] at harg
      rw [Option.toList_some, List.map_singleton, cstr_eq_self (hs a ht)]
      exact .letters s.letter_ne (.separate a _ harg) hreads
  · have hcalls : calls (⟨s.letter, s.text?, none⟩ :: founds) err =
        ⟨s.letter, s.text?, none⟩ :: calls founds err := by
      unfold calls
      split_ifs <;> rfl
    rw [hcalls]
    exact .cons s.spells hspells

theorem says_words (posixlyCorrect : Bool) {ss : List Setting}
    (h : ∀ s ∈ ss, ∀ a ∈ s.text?, NoNul a) :
    Says posixlyCorrect (ss.flatMap Setting.words) (ss.map .set) := by
  induction ss with
  | nil => exact says_nil posixlyCorrect
  | cons s ss ih =>
    rw [List.flatMap_cons, List.map_cons]
    exact (ih fun s hs => h s (List.mem_cons_of_mem _ hs)).cons (h s List.mem_cons_self)

/-- The settings for a state of the options. -/
def CommandLine.settings (st : CommandLine) : List Setting :=
  List.flatten [
    [if st.optMatchAnd then .and else .or],
    if st.optVerbose then [.verbose] else [],
    if st.optDebug then [.debug] else [],
    if st.optShowInfo then [.info] else [],
    [.bus (decInt st.optMatchBus), .domain (decInt st.optMatchDomain),
      .samples (dec st.nsamples), .timeout (decInt st.timeout)],
    st.optMatchCabinet.toList.map .cabinet,
    st.optMatchBay.toList.map .bay,
    st.optMatchChassis.toList.map .chassis,
    st.optMatchSlot.toList.map .slot,
    st.optMatchLspci.toList.map .lspci]

/-- What the types of C and the `switch` say of the options. -/
structure CommandLine.Ok (st : CommandLine) : Prop where
  or_eq : st.optMatchOr = !st.optMatchAnd
  bus : -2 ^ 31 ≤ st.optMatchBus ∧ st.optMatchBus < 2 ^ 31
  domain : -2 ^ 31 ≤ st.optMatchDomain ∧ st.optMatchDomain < 2 ^ 31
  timeout : -2 ^ 31 ≤ st.timeout ∧ st.timeout < 2 ^ 31
  nsamples : st.nsamples < 2 ^ 64
  cabinet : ∀ a ∈ st.optMatchCabinet, NoNul a
  bay : ∀ a ∈ st.optMatchBay, NoNul a
  chassis : ∀ a ∈ st.optMatchChassis, NoNul a
  slot : ∀ a ∈ st.optMatchSlot, NoNul a
  lspci : ∀ a ∈ st.optMatchLspci, NoNul a

theorem toInt_eq {v : ℤ} (h : -2 ^ 31 ≤ v) (h' : v < 2 ^ 31) : toInt v = v := by
  rw [toInt, BitVec.toInt_ofInt]
  exact Int.bmod_eq_of_le (by omega) (by omega)

theorem lastOf_append {α β : Type} (f : α → Option β) (as bs : List α) :
    lastOf f (as ++ bs) = (lastOf f bs).or (lastOf f as) := by
  unfold lastOf
  rw [List.filterMap_append, List.getLast?_append]

theorem lastOf_cons {α β : Type} (f : α → Option β) (a : α) (as : List α) :
    lastOf f (a :: as) = (lastOf f as).or (f a) := by
  have hlast := lastOf_append f [a] as
  rwa [← List.nil_append [a], lastOf_concat, lastOf_nil, Option.or_none] at hlast

theorem lastOf_toList {α β γ : Type} (f : α → Option β) (g : γ → α) (o : Option γ) :
    lastOf f (o.toList.map g) = o.bind fun c => f (g c) := by
  cases o with
  | none => rfl
  | some c => exact (lastOf_cons f (g c) []).trans (Option.none_or)

theorem lastOf_flag {α β : Type} (f : α → Option β) (b : Bool) (a : α) :
    lastOf f (if b then [a] else []) = if b then f a else none := by
  cases b with
  | false => rfl
  | true => exact (lastOf_cons f a []).trans (Option.none_or)

/-- The last of the settings for a state, of one kind. -/
theorem lastOf_settings {β : Type} (f : Setting → Option β) (st : CommandLine) :
    lastOf f st.settings =
      (st.optMatchLspci.bind fun a => f (.lspci a)).or
      ((st.optMatchSlot.bind fun a => f (.slot a)).or
      ((st.optMatchChassis.bind fun a => f (.chassis a)).or
      ((st.optMatchBay.bind fun a => f (.bay a)).or
      ((st.optMatchCabinet.bind fun a => f (.cabinet a)).or
      ((f (.timeout (decInt st.timeout))).or
      ((f (.samples (dec st.nsamples))).or
      ((f (.domain (decInt st.optMatchDomain))).or
      ((f (.bus (decInt st.optMatchBus))).or
      ((if st.optShowInfo then f .info else none).or
      ((if st.optDebug then f .debug else none).or
      ((if st.optVerbose then f .verbose else none).or
      (if st.optMatchAnd then f .and else f .or)))))))))))) := by
  simp only [CommandLine.settings, List.flatten_cons, List.flatten_nil, List.append_nil,
    lastOf_append, lastOf_cons, lastOf_nil, lastOf_toList, lastOf_flag, Option.none_or,
    Option.or_assoc, apply_ite f]

theorem mem_settings_flags (st : CommandLine) :
    (Setting.verbose ∈ st.settings ↔ st.optVerbose = true) ∧
      (Setting.debug ∈ st.settings ↔ st.optDebug = true) ∧
      (Setting.info ∈ st.settings ↔ st.optShowInfo = true) := by
  simp only [CommandLine.settings, List.mem_flatten]
  refine ⟨?_, ?_, ?_⟩ <;> cases st.optMatchAnd <;> simp

/-- The settings made for a state lead to it. -/
theorem settled_settings (sys : SysDevices) {st : CommandLine} (h : st.Ok) :
    settled sys st.settings = st := by
  have hbus : toInt (strtol0 (decInt st.optMatchBus)) = st.optMatchBus := by
    obtain ⟨h1, h2⟩ := h.bus
    rw [strtol0_decInt (cstr_eq_self (noNul_decInt st.optMatchBus)) (by omega) (by omega),
      toInt_eq h1 h2]
  have hdomain : toInt (strtol0 (decInt st.optMatchDomain)) = st.optMatchDomain := by
    obtain ⟨h1, h2⟩ := h.domain
    rw [strtol0_decInt (cstr_eq_self (noNul_decInt st.optMatchDomain)) (by omega) (by omega),
      toInt_eq h1 h2]
  have htimeout : atoi (decInt st.timeout) = st.timeout :=
    atoi_decInt (cstr_eq_self (noNul_decInt _)) h.timeout.1 h.timeout.2
  have hsamples : (strtoul10 (dec st.nsamples)).toNat = st.nsamples :=
    strtoul10_dec (cstr_eq_self (noNul_dec _)) h.nsamples
  have hand : (if st.optMatchAnd then some true else some false) = some st.optMatchAnd := by
    cases st.optMatchAnd <;> rfl
  have hany : ∀ s : Setting, st.settings.any (· = s) = decide (s ∈ st.settings) := by
    intro s
    rw [Bool.eq_iff_iff]
    simp
  obtain ⟨hverbose, hdebug, hinfo⟩ := mem_settings_flags st
  have hor := h.or_eq
  simp only [settled, lastOf_settings, hany, hverbose, hdebug, hinfo, Setting.bus?,
    Setting.domain?, Setting.and?, Setting.cabinet?, Setting.bay?, Setting.chassis?,
    Setting.slot?, Setting.lspci?, Setting.samples?, Setting.timeout?, hbus, hdomain, htimeout,
    hsamples, hand, ite_self, Option.or_none, Option.none_or, Option.bind_fun_none,
    Option.bind_fun_some, Option.or_some, Option.getD_none, Option.getD_some, Bool.decide_eq_true,
    ← hor]

/-- The words for a state of the options. -/
def CommandLine.optionWords (st : CommandLine) : List CString := st.settings.flatMap Setting.words

/-- The settings for a state have its texts, and none of them names an interface. -/
theorem of_mem_settings {st : CommandLine} (h : st.Ok) {s : Setting} (hs : s ∈ st.settings) :
    (∀ a ∈ s.text?, NoNul a) ∧ ∀ sys, s.overflow? sys = none := by
  have hnone : ∀ {s : Setting}, s.text? = none →
      (∀ a ∈ s.text?, NoNul a) ∧ ∀ sys, s.overflow? sys = none := by
    intro s hs
    refine ⟨by simp [hs], fun sys => ?_⟩
    cases s <;> first | rfl | exact absurd hs (by simp [Setting.text?])
  have hsome : ∀ {s : Setting} {a : CString}, s.text? = some a → NoNul a →
      (∀ sys, s.overflow? sys = none) →
      (∀ a ∈ s.text?, NoNul a) ∧ ∀ sys, s.overflow? sys = none := by
    intro s a hs ha ho
    refine ⟨fun b hb => ?_, ho⟩
    rw [hs, Option.mem_some] at hb
    exact hb ▸ ha
  simp only [CommandLine.settings, List.flatten_cons, List.flatten_nil, List.append_nil,
    List.mem_append, List.mem_cons, List.mem_map, List.not_mem_nil, or_false,
    List.mem_ite_nil_right, Option.mem_toList] at hs
  rcases hs with rfl | ⟨-, rfl⟩ | ⟨-, rfl⟩ | ⟨-, rfl⟩ | (rfl | rfl | rfl | rfl) | ⟨a, ha, rfl⟩ |
    ⟨a, ha, rfl⟩ | ⟨a, ha, rfl⟩ | ⟨a, ha, rfl⟩ | ⟨a, ha, rfl⟩
  · cases st.optMatchAnd <;> exact hnone rfl
  · exact hnone rfl
  · exact hnone rfl
  · exact hnone rfl
  · exact hsome rfl (noNul_decInt _) fun _ => rfl
  · exact hsome rfl (noNul_decInt _) fun _ => rfl
  · exact hsome rfl (noNul_dec _) fun _ => rfl
  · exact hsome rfl (noNul_decInt _) fun _ => rfl
  · exact hsome rfl (h.cabinet a ha) fun _ => rfl
  · exact hsome rfl (h.bay a ha) fun _ => rfl
  · exact hsome rfl (h.chassis a ha) fun _ => rfl
  · exact hsome rfl (h.slot a ha) fun _ => rfl
  · exact hsome rfl (h.lspci a ha) fun _ => rfl

/-- A command line leads to the state it was made for. -/
theorem parseOptions_optionWords (sys : SysDevices) (posixlyCorrect : Bool) {st : CommandLine}
    (h : st.Ok) (myLspci : CString) :
    parseOptions sys posixlyCorrect st.optionWords myLspci = .ok st := by
  have hsaid : Says posixlyCorrect st.optionWords (st.settings.map .set) :=
    says_words posixlyCorrect fun s hs => (of_mem_settings h hs).1
  have hmeans : Means sys posixlyCorrect st.optionWords (.ok (settled sys st.settings)) :=
    .options hsaid fun s hs => (of_mem_settings h hs).2 sys
  rw [parseOptions_of_means hmeans, settled_settings sys h]

/-! ## The states the loop leaves -/

theorem mem_of_lastOf {α β : Type} {f : α → Option β} {as : List α} {b : β}
    (h : lastOf f as = some b) : ∃ a ∈ as, f a = some b :=
  List.mem_filterMap.mp (List.mem_of_getLast? h)

theorem toInt_bounds (v : ℤ) : -2 ^ 31 ≤ toInt v ∧ toInt v < 2 ^ 31 :=
  ⟨BitVec.le_toInt _, BitVec.toInt_lt⟩

theorem Spells.optarg {r : Found Flag} {s : Setting} (h : Spells r (.set s)) :
    r.optarg = s.text? := by
  cases h <;> rfl

theorem exists_of_mem_right {α β : Type} {R : α → β → Prop} {as : List α} {bs : List β}
    (h : List.Forall₂ R as bs) {b : β} (hb : b ∈ bs) : ∃ a ∈ as, R a b := by
  induction h with
  | nil => exact absurd hb List.not_mem_nil
  | @cons a b' as bs hab h ih =>
    rcases List.mem_cons.mp hb with rfl | hb
    · exact ⟨a, List.mem_cons_self, hab⟩
    · obtain ⟨a', ha', hR⟩ := ih hb
      exact ⟨a', List.mem_cons_of_mem _ ha', hR⟩

/-- The text of a setting on a command line. -/
theorem Says.noNul {posixlyCorrect : Bool} {argv : List CString} {ws : List Word}
    (h : Says posixlyCorrect argv ws) {s : Setting} (hs : .set s ∈ ws) :
    ∀ a ∈ s.text?, NoNul a := by
  obtain ⟨founds, err, hreads, hspells⟩ := h
  obtain ⟨r, hr, hrs⟩ := exists_of_mem_right hspells hs
  intro a ha
  rw [← hrs.optarg] at ha
  have hmem : r ∈ founds := by
    unfold calls at hr
    split_ifs at hr
    · rcases List.mem_append.mp hr with hr | hr
      · exact hr
      · rw [List.mem_singleton.mp hr] at ha
        exact absurd ha (Option.not_mem_none a)
    · exact hr
  obtain ⟨w, hw, hsuffix⟩ := hreads.fromWords r hmem a ha
  obtain ⟨word, -, rfl⟩ := List.mem_map.mp hw
  exact fun hnul => noNul_cstr word (hsuffix.subset hnul)

theorem interfaceAddress_noNul {sys : SysDevices} {ifname address : CString}
    (h : interfaceAddress sys ifname = .ok (some address)) : NoNul address := by
  unfold interfaceAddress at h
  cases hfind : findInterface sys ifname [] with
  | error o => exact absurd h (by simp [hfind, Except.map])
  | ok r =>
    rw [hfind] at h
    have hr : (if r.1 = 1 then some (cstr r.2) else none) = some address := Except.ok.inj h
    split_ifs at hr
    exact Option.some.inj hr ▸ noNul_cstr _

theorem ok_settled (sys : SysDevices) {ss : List Setting} (h : ∀ s ∈ ss, ∀ a ∈ s.text?, NoNul a) :
    (settled sys ss).Ok := by
  have hint : ∀ (f : Setting → Option ℤ) (d : ℤ), (-2 ^ 31 ≤ d ∧ d < 2 ^ 31) →
      (∀ s v, f s = some v → ∃ u, v = toInt u) →
      -2 ^ 31 ≤ (lastOf f ss).getD d ∧ (lastOf f ss).getD d < 2 ^ 31 := by
    intro f d hd hf
    cases hlast : lastOf f ss with
    | none => exact hd
    | some v =>
      obtain ⟨s, -, hs⟩ := mem_of_lastOf hlast
      obtain ⟨u, rfl⟩ := hf s v hs
      exact toInt_bounds u
  have htext : ∀ f : Setting → Option CString,
      (∀ s a, f s = some a → (∀ b ∈ s.text?, NoNul b) → NoNul a) →
      ∀ a ∈ lastOf f ss, NoNul a := by
    intro f hf a ha
    obtain ⟨s, hs, hsa⟩ := mem_of_lastOf ha
    exact hf s a hsa (h s hs)
  refine ⟨rfl, hint _ _ (by decide) ?_, hint _ _ (by decide) ?_, hint _ _ (by decide) ?_, ?_,
    htext _ ?_, htext _ ?_, htext _ ?_, htext _ ?_, htext _ ?_⟩
  · rintro (_ | _) v hv <;> cases hv
    exact ⟨_, rfl⟩
  · rintro (_ | _) v hv <;> cases hv
    exact ⟨_, rfl⟩
  · rintro (_ | _) v hv <;> cases hv
    exact ⟨_, rfl⟩
  · show (lastOf Setting.samples? ss).getD 0 < 2 ^ 64
    cases hlast : lastOf Setting.samples? ss with
    | none => decide
    | some n =>
      obtain ⟨s, -, hs⟩ := mem_of_lastOf hlast
      cases s <;> cases hs
      exact BitVec.isLt _
  · rintro (_ | _) a ha hs <;> cases ha
    exact hs _ rfl
  · rintro (_ | _) a ha hs <;> cases ha
    exact hs _ rfl
  · rintro (_ | _) a ha hs <;> cases ha
    exact hs _ rfl
  · rintro (_ | _) a ha hs <;> cases ha
    exact hs _ rfl
  · intro s a ha hs
    cases s with
    | lspci text =>
      cases ha
      exact hs _ rfl
    | interface ifname =>
      simp only [Setting.lspci?] at ha
      cases haddr : interfaceAddress sys ifname with
      | error o => exact absurd ha (by simp [haddr])
      | ok address =>
        rw [haddr] at ha
        exact interfaceAddress_noNul (haddr.trans (congrArg Except.ok ha))
    | _ => cases ha

/-- **The states that the loop can leave**, whatever the environment. -/
theorem exists_parseOptions_iff (sys : SysDevices) (posixlyCorrect : Bool) (myLspci : CString)
    (st : CommandLine) :
    (∃ argv, parseOptions sys posixlyCorrect argv myLspci = .ok st) ↔ st.Ok := by
  constructor
  · rintro ⟨argv, h⟩
    have hmeans := means_parseOptions sys posixlyCorrect argv myLspci
    rw [h] at hmeans
    obtain ⟨hsaid, hfits⟩ := hmeans
    exact ok_settled sys fun s hs => hsaid.noNul (List.mem_map_of_mem hs)
  · exact fun h => ⟨st.optionWords, parseOptions_optionWords sys posixlyCorrect h myLspci⟩

/-! ## The program -/

/-- The runs that come to their end. -/
theorem pcitop_eq_ok_iff (host : Host) (argv : List CString) (outcome : Outcome) :
    pcitop host argv = .ok outcome ↔
      host.euid = 0 ∧ driversLoaded host.loaded = true ∧
      ∃ ss : List Setting, Says host.posixlyCorrect argv (ss.map .set) ∧
        (∀ s ∈ ss, s.overflow? host.sysDevices = none) ∧
        main (settled host.sysDevices ss).toOptions host.machine = .ok outcome := by
  have hmeans := means_parseOptions host.sysDevices host.posixlyCorrect argv host.myLspci
  constructor
  · intro h
    unfold pcitop at h
    cases hres : parseOptions host.sysDevices host.posixlyCorrect argv host.myLspci with
    | error s => exact absurd h (by simp [hres])
    | ok st =>
      rw [hres] at h hmeans
      obtain ⟨hsaid, hfits⟩ := hmeans
      rename_i ss
      simp only [Bool.not_eq_true'] at h
      split_ifs at h with heuid hloaded
      refine ⟨not_not.mp heuid, by simpa using hloaded, ss, hsaid, hfits, ?_⟩
      cases hmain : main (settled host.sysDevices ss).toOptions host.machine with
      | error f => exact absurd h (by simp [hmain])
      | ok out =>
        rw [hmain] at h
        exact congrArg Except.ok (Except.ok.inj h)
  · rintro ⟨heuid, hloaded, ss, hsaid, hfits, hmain⟩
    have hres := parseOptions_of_means (.options hsaid hfits) host.myLspci
    simp only [pcitop, hres, heuid, hloaded, hmain]
    rfl

end Pcitop.Tool
