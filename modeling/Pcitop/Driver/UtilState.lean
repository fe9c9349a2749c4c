import Pcitop.Driver.Chips

/-!
# The utilization state machine of the driver

`set_util_state` (`hplba_drv.c`) checks a requested transition, assigns
`util_state` and runs the operation of the new state; `utilization_store`
(`hplba_sysfs.c`) feeds it the commands written to the `utilization` attribute,
and `utilization_show` prints the counters.

The legal transitions are a ladder: INIT, RESET, START and STOP stand on rungs 1
to 4 and each may follow any state from the rung below it upwards
(`utilTransition_neg_iff`).

* `setUtilState_of_neg`, `setUtilState_of_legal`: what a request does.
* `utilizationStore_of_bad`, `utilizationStore_of_command`: what a write does.
-/

namespace Pcitop.Driver

open Pcitop.Common Pcitop.Hplba

/-- `EINVAL` of `<errno.h>`. -/
def EINVAL : ℤ := 22

/-- `util_states_tab` of the driver (`hplba_drv.c`, lines 77–83). -/
def utilStatesTab : List (NameEntry LbaUtilStates) :=
  [⟨.init, "init".toList⟩, ⟨.reset, "reset".toList⟩, ⟨.start, "start".toList⟩,
    ⟨.stop, "stop".toList⟩, ⟨.unk, "unknown".toList⟩]

/-- `struct lba` (`hplba.h`, lines 244–257), as far as the utilization commands
    use it: the device behind `phys_addr` and `util_state`, which `lba_probe`
    sets to UNK and only `set_util_state` changes. -/
structure Lba (σ : Type) where
  utilState : LbaUtilStates
  device : σ
  deriving DecidableEq

variable {σ : Type}

/-- The first `switch` of `set_util_state` (`hplba_drv.c`, lines 111–163): the
    value of `ret` after it. The `default` of the inner switches stands for
    values that `util_state` does not take. -/
def utilTransition (newState : ℤ) (currState : LbaUtilStates) : ℤ :=
  match LbaUtilStates.ofCode newState with
  | some .init =>
    match currState with
    | .unk | .init | .reset | .start | .stop => 0
  | some .reset =>
    match currState with
    | .init | .reset | .start | .stop => 0
    | .unk => -EINVAL
  | some .start =>
    match currState with
    | .unk | .init => -EINVAL
    | .reset | .start | .stop => 0
  | some .stop =>
    match currState with
    | .unk | .init | .reset => -EINVAL
    | .start | .stop => 0
  | some .unk | none => -EINVAL

/-- `set_util_state` (`hplba_drv.c`, lines 106–196). `util_state` is assigned
    before the operation runs, and keeps the new value when that fails. -/
def setUtilState (ops : LbaUtilOps σ) (lba : Lba σ) (newState : ℤ) : ℤ × Lba σ :=
  let ret := utilTransition newState lba.utilState
  if ret < 0 then (ret, lba)
  else
    match LbaUtilStates.ofCode newState with
    | some .unk => (-EINVAL, { lba with utilState := .unk })
    | some .init => ((ops.utilInit lba.device).1, ⟨.init, (ops.utilInit lba.device).2⟩)
    | some .reset => ((ops.utilReset lba.device).1, ⟨.reset, (ops.utilReset lba.device).2⟩)
    | some .start => ((ops.utilStart lba.device).1, ⟨.start, (ops.utilStart lba.device).2⟩)
    | some .stop => ((ops.utilStop lba.device).1, ⟨.stop, (ops.utilStop lba.device).2⟩)
    | none => (-EINVAL, lba)

/-- `utilization_store` (`hplba_sysfs.c`, lines 204–220) of the `count` bytes in
    `buf`. -/
def utilizationStore (ops : LbaUtilOps σ) (lba : Lba σ) (buf : CString) : ℤ × Lba σ :=
  let state := hplbaUtilStateToValue utilStatesTab buf
  if state = .unk then (-EINVAL, lba)
  else
    let r := setUtilState ops lba state.code
    if r.1 < 0 then r else ((buf.length : ℤ), r.2)

/-- The text `utilization_show` prints (`hplba_sysfs.c`, lines 194–202):
    `"%lu,%lu\n"` of the timer and the counter. -/
def utilizationShow (counters : BitVec 64 × BitVec 64) : CString :=
  dec counters.1.toNat ++ ',' :: dec counters.2.toNat ++ ['\n']

/-! ## The ladder of states -/

/-- The rung a state stands on. -/
def rank : LbaUtilStates → ℕ
  | .unk => 0 | .init => 1 | .reset => 2 | .start => 3 | .stop => 4

theorem rank_injective {s t : LbaUtilStates} (h : rank s = rank t) : s = t := by
  cases s <;> cases t <;> simp_all [rank]

/-- A transition is refused exactly when it climbs more than one rung, or does not
    lead to one of the four operations. -/
theorem utilTransition_neg_iff (s curr : LbaUtilStates) :
    utilTransition s.code curr < 0 ↔ s = .unk ∨ rank curr + 1 < rank s := by
  cases s <;> cases curr <;> decide

/-- The operation of a state. -/
def LbaUtilOps.op (ops : LbaUtilOps σ) : LbaUtilStates → σ → ℤ × σ
  | .init => ops.utilInit
  | .reset => ops.utilReset
  | .start => ops.utilStart
  | .stop => ops.utilStop
  | .unk => fun device => (-EINVAL, device)

theorem setUtilState_of_neg (ops : LbaUtilOps σ) (lba : Lba σ) {newState : ℤ}
    (h : utilTransition newState lba.utilState < 0) :
    setUtilState ops lba newState = (utilTransition newState lba.utilState, lba) := by
  simp [setUtilState, h]

/-- A legal request runs the operation of the new state. -/
theorem setUtilState_of_legal (ops : LbaUtilOps σ) (lba : Lba σ) {s : LbaUtilStates}
    (h : ¬ utilTransition s.code lba.utilState < 0) :
    setUtilState ops lba s.code = ((ops.op s lba.device).1, ⟨s, (ops.op s lba.device).2⟩) := by
  rw [setUtilState, if_neg h, LbaUtilStates.ofCode_code]
  cases s <;> rfl

/-! ## Commands -/

/-- The commands of the `utilization` attribute. -/
def commands : List CString :=
  ["init".toList, "reset".toList, "start".toList, "stop".toList]

theorem oneLine_utilStatesTab : ∀ e ∈ utilStatesTab, OneLine e.name := by decide

theorem hplbaUtilStateToValue_eq (buf : CString) :
    hplbaUtilStateToValue utilStatesTab buf =
      ((utilStatesTab.find? fun e => decide (firstLine buf = e.name)).map (·.value)).getD .unk :=
  toValue_eq_find (by decide) oneLine_utilStatesTab buf

/-- The name of a state in the driver's table. -/
def stateName (s : LbaUtilStates) : CString := hplbaUtilStateToStr utilStatesTab s.code

/-- A command is recognized by its first line. -/
theorem toValue_eq_iff {s : LbaUtilStates} (hs : s ≠ .unk) (buf : CString) :
    hplbaUtilStateToValue utilStatesTab buf = s ↔ firstLine buf = stateName s := by
  rw [hplbaUtilStateToValue_eq]
  generalize firstLine buf = line
  constructor
  · intro h
    cases hf : utilStatesTab.find? (fun e => decide (line = e.name)) with
    | none => simp [hf] at h; exact absurd h.symm hs
    | some e =>
      have hline : line = e.name := by simpa using List.find?_some hf
      have hmem : e ∈ utilStatesTab := List.mem_of_find?_eq_some hf
      simp only [hf, Option.map_some, Option.getD_some] at h
      subst h
      rw [hline]
      revert hs
      clear hf hline
      revert e
      decide
  · rintro rfl
    cases s <;> rfl

/-- Anything but the four commands has no state. -/
theorem toValue_eq_unk_iff (buf : CString) :
    hplbaUtilStateToValue utilStatesTab buf = .unk ↔ firstLine buf ∉ commands := by
  have h0 := toValue_eq_iff (s := .init) (by decide) buf
  have h1 := toValue_eq_iff (s := .reset) (by decide) buf
  have h2 := toValue_eq_iff (s := .start) (by decide) buf
  have h3 := toValue_eq_iff (s := .stop) (by decide) buf
  have hnames : commands = [stateName .init, stateName .reset, stateName .start,
    stateName .stop] := by decide
  rw [hnames]
  simp only [List.mem_cons, List.not_mem_nil, or_false, ← h0, ← h1, ← h2, ← h3]
  generalize hplbaUtilStateToValue utilStatesTab buf = v
  cases v <;> simp

/-! ## What a write does -/

/-- A write that is no command, or whose transition is refused, fails and changes
    nothing. -/
theorem utilizationStore_of_bad (ops : LbaUtilOps σ) (lba : Lba σ) {buf : CString}
    (h : firstLine buf ∉ commands ∨
      utilTransition (hplbaUtilStateToValue utilStatesTab buf).code lba.utilState < 0) :
    (utilizationStore ops lba buf).1 < 0 ∧ (utilizationStore ops lba buf).2 = lba := by
  rcases h with h | h
  · have hunk := (toValue_eq_unk_iff buf).mpr h
    simp [utilizationStore, hunk, EINVAL]
  · by_cases hunk : hplbaUtilStateToValue utilStatesTab buf = .unk
    · simp [utilizationStore, hunk, EINVAL]
    · simp [utilizationStore, hunk, setUtilState_of_neg ops lba h, h]

/-- A write of a legal command runs its operation. -/
theorem utilizationStore_of_command (ops : LbaUtilOps σ) (lba : Lba σ) {buf : CString}
    {s : LbaUtilStates} (hs : s ≠ .unk) (hbuf : firstLine buf = stateName s)
    (hlegal : ¬ utilTransition s.code lba.utilState < 0)
    (hret : ¬ (ops.op s lba.device).1 < 0) :
    utilizationStore ops lba buf = ((buf.length : ℤ), ⟨s, (ops.op s lba.device).2⟩) := by
  have hv := (toValue_eq_iff hs buf).mpr hbuf
  simp [utilizationStore, hv, hs, setUtilState_of_legal ops lba hlegal, hret]

/-- A write either fails and changes nothing, or runs the operation of a command
    that the current state allows. -/
theorem utilizationStore_cases (ops : LbaUtilOps σ) (lba : Lba σ) (buf : CString) :
    (utilizationStore ops lba buf).2 = lba ∨
      ∃ s, s ≠ .unk ∧ rank s ≤ rank lba.utilState + 1 ∧
        (utilizationStore ops lba buf).2 = ⟨s, (ops.op s lba.device).2⟩ := by
  by_cases hunk : hplbaUtilStateToValue utilStatesTab buf = .unk
  · exact .inl (by simp [utilizationStore, hunk])
  · by_cases hneg : utilTransition (hplbaUtilStateToValue utilStatesTab buf).code lba.utilState < 0
    · exact .inl (utilizationStore_of_bad ops lba (.inr hneg)).2
    · refine .inr ⟨_, hunk, ?_, ?_⟩
      · rw [utilTransition_neg_iff] at hneg
        omega
      · simp only [utilizationStore, if_neg hunk, setUtilState_of_legal ops lba hneg]
        split_ifs <;> rfl

end Pcitop.Driver
