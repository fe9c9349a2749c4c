import Pcitop.Common.CString

/-!
# Name tables of `drivers/hplba.h`

The bus modes, bus speeds and utilization states, and the inline functions that
turn them into names and back. The header is compiled into the driver and into
the tool, each with tables of its own, so every function takes the table.

* `nameMatches_iff`: the test of the `X_to_value` functions holds exactly when
  the first line of the string is the name.
* `toValue_eq_find`: `X_to_value` is a search for the first line among the
  names.
-/

namespace Pcitop.Hplba

open Pcitop.Common

/-! ## Enumerations -/

/-- `enum lba_bus_op_modes` (lines 30–38). -/
inductive LbaBusOpModes where
  | agp | pci | pciX | pciXEcc | pciX2Ecc | pcie | unkType
  deriving DecidableEq, Repr

/-- The `int` value of an enumerator. -/
def LbaBusOpModes.code : LbaBusOpModes → ℤ
  | .agp => 0 | .pci => 1 | .pciX => 2 | .pciXEcc => 3 | .pciX2Ecc => 4 | .pcie => 5
  | .unkType => 6

/-- `enum lba_bus_speeds` (lines 71–84). -/
inductive LbaBusSpeeds where
  | mhz66 | mhz100 | mhz133 | mhz266 | x1 | x2 | x4 | x8 | agp1x | agp2x | agp4x | unkSpeed
  deriving DecidableEq, Repr

/-- The `int` value of an enumerator. -/
def LbaBusSpeeds.code : LbaBusSpeeds → ℤ
  | .mhz66 => 0 | .mhz100 => 1 | .mhz133 => 2 | .mhz266 => 3 | .x1 => 4 | .x2 => 5 | .x4 => 6
  | .x8 => 7 | .agp1x => 8 | .agp2x => 9 | .agp4x => 10 | .unkSpeed => 11

/-- `enum lba_util_states` (lines 117–123). -/
inductive LbaUtilStates where
  | init | reset | start | stop | unk
  deriving DecidableEq, Repr

/-- The `int` value of an enumerator. -/
def LbaUtilStates.code : LbaUtilStates → ℤ
  | .init => 0 | .reset => 1 | .start => 2 | .stop => 3 | .unk => 4

/-- The enumerator with a given `int` value, for a `switch` over an `int`. -/
def LbaUtilStates.ofCode (v : ℤ) : Option LbaUtilStates :=
  if v = 0 then some .init else if v = 1 then some .reset else if v = 2 then some .start
  else if v = 3 then some .stop else if v = 4 then some .unk else none

@[simp] theorem LbaUtilStates.ofCode_code (s : LbaUtilStates) : ofCode s.code = some s := by
  cases s <;> rfl

/-! ## Lookups -/

/-- An entry of a name table: `struct bus_op_modes`, `struct bus_speeds` and
    `struct util_states`. -/
structure NameEntry (α : Type) where
  value : α
  name : CString
  deriving DecidableEq, Repr

/-- The loop of the `X_to_str` functions over the entries `0 … unk`. -/
def toStr {α : Type} (code : α → ℤ) (unk : α) (tab : List (NameEntry α)) (v : ℤ) : CString :=
  let tab' := tab.take ((code unk).toNat + 1)
  match tab'.find? fun e => v == code e.value with
  | some e => e.name
  | none => match tab[(code unk).toNat]? with
    | some e => e.name
    | none => []

/-- `strncmp(tab[i].name, name, len) == 0 && (name[len] == '\n' || name[len] == '\0')`
    with `len = strlen(tab[i].name)`. -/
def nameMatches (entry name : CString) : Bool :=
  let len := strlen entry
  strneq entry name len && (charAt name len == '\n' || charAt name len == nul)

/-- The loop of the `X_to_value` functions over the entries `0 … unk`. -/
def toValue {α : Type} (code : α → ℤ) (unk : α) (tab : List (NameEntry α)) (name : CString) : α :=
  let tab' := tab.take ((code unk).toNat + 1)
  match tab'.find? fun e => nameMatches e.name name with
  | some e => e.value
  | none => unk

/-- `hplba_bus_op_mode_to_str` (lines 45–55). -/
def hplbaBusOpModeToStr (busOpModesTab : List (NameEntry LbaBusOpModes)) (mode : ℤ) : CString :=
  toStr LbaBusOpModes.code .unkType busOpModesTab mode

/-- `hplba_bus_op_mode_to_value` (lines 57–69). -/
def hplbaBusOpModeToValue (busOpModesTab : List (NameEntry LbaBusOpModes)) (name : CString) :
    LbaBusOpModes :=
  toValue LbaBusOpModes.code .unkType busOpModesTab name

/-- `hplba_bus_speed_to_str` (lines 91–101). -/
def hplbaBusSpeedToStr (busSpeedsTab : List (NameEntry LbaBusSpeeds)) (speed : ℤ) : CString :=
  toStr LbaBusSpeeds.code .unkSpeed busSpeedsTab speed

/-- `hplba_bus_speed_to_value` (lines 103–115). -/
def hplbaBusSpeedToValue (busSpeedsTab : List (NameEntry LbaBusSpeeds)) (name : CString) :
    LbaBusSpeeds :=
  toValue LbaBusSpeeds.code .unkSpeed busSpeedsTab name

/-- `hplba_util_state_to_str` (lines 130–140). -/
def hplbaUtilStateToStr (utilStatesTab : List (NameEntry LbaUtilStates)) (state : ℤ) : CString :=
  toStr LbaUtilStates.code .unk utilStatesTab state

/-- `hplba_util_state_to_value` (lines 142–154). -/
def hplbaUtilStateToValue (utilStatesTab : List (NameEntry LbaUtilStates)) (name : CString) :
    LbaUtilStates :=
  toValue LbaUtilStates.code .unk utilStatesTab name

/-! ## The test on a name -/

/-- The first line of a string, without its newline. -/
def firstLine (s : CString) : CString := (cstr s).takeWhile (· ≠ '\n')

/-- The names a table may hold: of one line, and terminated. -/
def OneLine (s : CString) : Prop := NoNul s ∧ '\n' ∉ s

instance (s : CString) : Decidable (OneLine s) := inferInstanceAs (Decidable (_ ∧ _))

theorem takeWhile_append_eq_left_iff {p : Char → Bool} {n : CString} (hn : ∀ c ∈ n, p c = true)
    (t : CString) : (n ++ t).takeWhile p = n ↔ ∀ c ∈ t.head?, p c = false := by
  rw [List.takeWhile_append_of_pos hn]
  cases t with
  | nil => simp
  | cons c t => simp [List.takeWhile_cons]

theorem firstLine_eq_iff {n : CString} (hn : OneLine n) (s : CString) :
    firstLine s = n ↔ ∃ t, cstr s = n ++ t ∧ ∀ c ∈ t.head?, c = '\n' := by
  have hp : ∀ c ∈ n, decide (c ≠ '\n') = true := by
    intro c hc
    have : c ≠ '\n' := fun e => hn.2 (e ▸ hc)
    simpa using this
  constructor
  · intro h
    obtain ⟨t, ht⟩ := (h ▸ List.takeWhile_prefix _ : n <+: cstr s)
    refine ⟨t, ht.symm, ?_⟩
    rw [firstLine, ← ht, takeWhile_append_eq_left_iff hp] at h
    simpa using h
  · rintro ⟨t, ht, hhead⟩
    rw [firstLine, ht, takeWhile_append_eq_left_iff hp]
    simpa using hhead

/-- The test of the `X_to_value` functions compares the first line. -/
theorem nameMatches_iff {n : CString} (hn : OneLine n) (s : CString) :
    nameMatches n s = true ↔ firstLine s = n := by
  have hc : cstr n = n := cstr_eq_self hn.1
  rw [firstLine_eq_iff hn]
  simp only [nameMatches, strlen, Bool.and_eq_true, Bool.or_eq_true, beq_iff_eq, strneq_iff, hc,
    List.take_length]
  constructor
  · rintro ⟨hpre, hend⟩
    obtain ⟨t, ht⟩ : n <+: cstr s := hpre ▸ List.take_prefix _ _
    refine ⟨t, ht.symm, ?_⟩
    intro c hct
    obtain ⟨t, rfl⟩ : ∃ t', t = c :: t' := by
      cases t with
      | nil => simp at hct
      | cons d t => exact ⟨t, by rw [Option.mem_some.mp hct]⟩
    have hat : charAt s n.length = c := by rw [charAt, ← ht]; simp
    have hnn : c ≠ nul := by
      rintro rfl
      exact noNul_cstr s (by rw [← ht]; simp)
    rw [hat] at hend
    exact hend.resolve_right hnn
  · rintro ⟨t, ht, hhead⟩
    refine ⟨by rw [ht, List.take_left' rfl], ?_⟩
    cases t with
    | nil => right; simp [charAt, ht]
    | cons c t =>
      left
      have := hhead c rfl
      simp [charAt, ht, this]

/-- `X_to_value` searches the names of the table for the first line. -/
theorem toValue_eq_find {α : Type} {code : α → ℤ} {unk : α} {tab : List (NameEntry α)}
    (hlen : tab.length ≤ (code unk).toNat + 1) (htab : ∀ e ∈ tab, OneLine e.name) (s : CString) :
    toValue code unk tab s =
      ((tab.find? fun e => decide (firstLine s = e.name)).map (·.value)).getD unk := by
  have hfind : tab.find? (fun e => nameMatches e.name s) =
      tab.find? fun e => decide (firstLine s = e.name) := by
    apply List.find?_congr
    intro e he
    rw [Bool.eq_iff_iff, nameMatches_iff (htab e he), decide_eq_true_iff]
  simp only [toValue, List.take_of_length_le hlen, hfind]
  cases tab.find? fun e => decide (firstLine s = e.name) <;> rfl

end Pcitop.Hplba
