import Pcitop.Tool.LbaInfo

/-!
# The list after failing allocations

`init_lba` links an LBA into the list before it fills in the fields, and every failure
leaves it by the same label. A page `attrib` that is not there leaves an LBA on the list
without bus mode and speed that is not counted; a name that is not there makes it return
NULL, which `init_lbas` passes on.

* `MadeBy.ready_iff`: the LBA of an entry has all that the rest of the program uses if and
  only if its page was there.
* `listsLbas_iff`: so it is for the list.
-/

namespace Pcitop.Tool

open Pcitop.Common

/-- What the rest of the program takes from an LBA without a test for NULL. -/
structure Ready (lba : LbaInfo) : Prop where
  ops : lba.ops = true
  busType : lba.busType ≠ none
  busSpeed : lba.busSpeed ≠ none

/-- What `init_lbas` is meant to leave behind, and that it calls `find_lba_location_info`
    with no NULL. -/
def ListsLbas (ps : PageSize) (bridges : List SysfsRootBridge) (dir : Option (List LbaEntry))
    (sysInfo : IntegritySysInfo) : Prop :=
  match initLbas ps bridges dir ⟨[], 0, sysInfo⟩ with
  | .ok (_, st) => st.numLba = st.hostLbaList.length ∧ ∀ lba ∈ st.hostLbaList, Ready lba
  | .error fault => fault ≠ .nullLba

/-- The entries of a directory that `init_lbas` deals with, none if there is no directory. -/
def dirEntries (dir : Option (List LbaEntry)) : List LbaEntry := lbaEntries (dir.getD [])

variable {ps : PageSize} {bridges : List SysfsRootBridge}

/-! ## One entry -/

/-- The location of an LBA has nothing to do with its attributes. -/
theorem findLbaLocationInfo_attributes (bridges : List SysfsRootBridge)
    (mem : ℕ → SysInfoMemory) (lba : LbaInfo) (sysInfo : IntegritySysInfo) :
    let lba' := (findLbaLocationInfo bridges mem lba sysInfo).2.1
    lba'.ops = lba.ops ∧ lba'.busType = lba.busType ∧ lba'.busSpeed = lba.busSpeed := by
  unfold findLbaLocationInfo
  cases getSysfsRootBridge bridges lba.name with
  | none => exact ⟨rfl, rfl, rfl⟩
  | some bridge => exact ⟨rfl, rfl, rfl⟩

/-- The LBA of an entry has its bus mode and speed if and only if the page was there. -/
theorem initLba_ready {e : LbaEntry} (h : e.Fits) (ps : PageSize) (numLba : ℕ) :
    ∃ lba, initLba ps e numLba = .ok (some lba, numLba + if e.memory.attrib then 1 else 0) ∧
      (Ready lba ↔ e.memory.attrib = true) := by
  unfold initLba
  rw [h.1, h.2]
  cases e.memory.attrib with
  | true =>
    refine ⟨_, rfl, iff_of_true ⟨rfl, ?_, ?_⟩ rfl⟩
    · exact Option.some_ne_none _
    · exact Option.some_ne_none _
  | false => exact ⟨_, rfl, iff_of_false (fun hready => hready.busType rfl) Bool.false_ne_true⟩

theorem MadeBy.ready_iff {e : LbaEntry} {lba : LbaInfo} (h : MadeBy ps bridges e lba) :
    Ready lba ↔ e.memory.attrib = true := by
  obtain ⟨numLba, numLba', lba₀, sysInfo, hinit, rfl⟩ := h
  obtain ⟨lba, hlba, hready⟩ := initLba_ready (fits_of_initLba hinit) ps numLba
  obtain ⟨rfl, -⟩ := by simpa using hlba.symm.trans hinit
  obtain ⟨hops, htype, hspeed⟩ :=
    findLbaLocationInfo_attributes bridges e.memory.sysInfo lba sysInfo
  rw [← hready]
  constructor
  · rintro ⟨h1, h2, h3⟩
    exact ⟨hops ▸ h1, htype ▸ h2, hspeed ▸ h3⟩
  · rintro ⟨h1, h2, h3⟩
    exact ⟨hops.trans h1, htype ▸ h2, hspeed ▸ h3⟩

/-! ## The list -/

/-- NULL is passed on for the sake of a name. -/
theorem exists_of_addLbas_nullLba {es : List LbaEntry} {st : LbaState}
    (h : addLbas ps bridges es st = .error .nullLba) :
    ∃ e ∈ lbaEntries es, e.memory.lbaName = false := by
  induction es generalizing st with
  | nil => exact absurd h (by simp [addLbas])
  | cons e es ih =>
    cases hdots : e.isDots with
    | true =>
      rw [addLbas, if_pos hdots] at h
      rw [lbaEntries_cons, if_pos hdots]
      exact ih h
    | false =>
      rw [lbaEntries_cons, if_neg (Bool.eq_false_iff.mp hdots)]
      by_cases hfits : e.Fits
      · obtain ⟨lba, sysInfo, -, hstep⟩ := addLbas_cons es st hdots hfits
        rw [hstep] at h
        obtain ⟨e', hmem, hname⟩ := ih h
        exact ⟨e', List.mem_cons_of_mem _ hmem, hname⟩
      · refine ⟨e, List.mem_cons_self, ?_⟩
        by_contra hname
        rw [Bool.not_eq_false] at hname
        have hnew : e.memory.newLba = false := by
          rw [← Bool.not_eq_true]
          exact fun hnew => hfits ⟨hname, hnew⟩
        have hinit : initLba ps e st.numLba = .error (.exit 1) := by
          unfold initLba
          rw [hname, hnew]
          rfl
        rw [addLbas, if_neg (Bool.eq_false_iff.mp hdots), hinit] at h
        exact absurd h (by simp)

/-- With memory for the LBAs the program does not end in `init_lbas`. -/
theorem initLbas_ok {es : List LbaEntry} (h : ∀ e ∈ lbaEntries es, e.Fits) (st : LbaState) :
    ∃ st', initLbas ps bridges (some es) st = .ok (0, st') := by
  obtain ⟨lbas, sysInfo, hrun, -⟩ := addLbas_of_fits h st
  rw [initLbas, hrun]
  exact ⟨_, rfl⟩

theorem initLbas_ne_error {es : List LbaEntry} (h : ∀ e ∈ lbaEntries es, e.Fits) (st : LbaState)
    (fault : Fault) : initLbas ps bridges (some es) st ≠ .error fault := by
  obtain ⟨st', hst⟩ := @initLbas_ok ps bridges es h st
  rw [hst]
  simp

/-- The list of a directory whose entries all have memory for an LBA. -/
theorem listsLbas_of_fits {es : List LbaEntry} (h : ∀ e ∈ lbaEntries es, e.Fits)
    (sysInfo : IntegritySysInfo) :
    ListsLbas ps bridges (some es) sysInfo ↔ ∀ e ∈ lbaEntries es, e.memory.attrib = true := by
  obtain ⟨lbas, sysInfo', hrun, hmade⟩ := addLbas_madeBy h ⟨[], 0, sysInfo⟩
  have hinit : initLbas ps bridges (some es) ⟨[], 0, sysInfo⟩ =
      .ok (0, ⟨lbas, 0 + (lbaEntries es).countP (·.memory.attrib), sysInfo'⟩) := by
    rw [initLbas, hrun]
    rfl
  have hlen : (lbaEntries es).length = lbas.length := hmade.length_eq
  unfold ListsLbas
  rw [hinit]
  show 0 + (lbaEntries es).countP (·.memory.attrib) = lbas.length ∧ (∀ lba ∈ lbas, Ready lba) ↔ _
  rw [Nat.zero_add, ← hlen, List.countP_eq_length]
  constructor
  · exact fun h => h.1
  · intro hattrib
    refine ⟨hattrib, fun lba hmem => ?_⟩
    obtain ⟨i, hi, rfl⟩ := List.getElem_of_mem hmem
    have hi' : i < (lbaEntries es).length := hlen ▸ hi
    exact (hmade.get hi' hi).ready_iff.mpr (hattrib _ (List.getElem_mem hi'))

/-- Unless `init_lba` ends the program, the list and its length are in order, every LBA of
    it is complete, and no NULL is passed on, if and only if every entry has memory for its
    name and for the page of its attributes. -/
theorem listsLbas_iff (ps : PageSize) (bridges : List SysfsRootBridge)
    (dir : Option (List LbaEntry)) (sysInfo : IntegritySysInfo)
    (hend : initLbas ps bridges dir ⟨[], 0, sysInfo⟩ ≠ .error (.exit 1)) :
    ListsLbas ps bridges dir sysInfo ↔
      ∀ e ∈ dirEntries dir, e.memory.lbaName = true ∧ e.memory.attrib = true := by
  cases dir with
  | none =>
    refine iff_of_true ⟨rfl, fun lba hmem => ?_⟩ fun e hmem => ?_
    · exact absurd hmem List.not_mem_nil
    · exact absurd hmem List.not_mem_nil
  | some es =>
    show _ ↔ ∀ e ∈ lbaEntries es, _
    by_cases hfits : ∀ e ∈ lbaEntries es, e.Fits
    · rw [listsLbas_of_fits hfits]
      constructor
      · exact fun h e hmem => ⟨(hfits e hmem).1, h e hmem⟩
      · exact fun h e hmem => (h e hmem).2
    · -- The program ends in the loop, so by an access to NULL.
      have hnull : addLbas ps bridges es ⟨[], 0, sysInfo⟩ = .error .nullLba := by
        rcases addLbas_of_not_fits hfits ⟨[], 0, sysInfo⟩ with hrun | hrun
        · exact hrun
        · exact absurd (by rw [initLbas, hrun]; rfl) hend
      have hlists : ¬ ListsLbas ps bridges (some es) sysInfo := by
        unfold ListsLbas
        rw [initLbas, hnull]
        exact fun h => h rfl
      refine iff_of_false hlists fun h => ?_
      obtain ⟨e, hmem, hname⟩ := exists_of_addLbas_nullLba hnull
      rw [(h e hmem).1] at hname
      exact absurd hname (by decide)

/-- The entry `0000:00:00.0`, without attributes. -/
def plainEntry (memory : LbaMemory) : LbaEntry where
  dName := "0000:00:00.0".toList
  memory := memory
  pciId := ⟨0, 0, 0, 0⟩
  busMode := .noOpen
  busSpeed := .noOpen
  functionId := .noOpen
  revision := .noOpen
  ropes := .noOpen

theorem lbaEntries_plainEntry (memory : LbaMemory) :
    lbaEntries [plainEntry memory] = [plainEntry memory] := by
  have hdots : (plainEntry memory).isDots = false := by
    show (streq "0000:00:00.0".toList ".".toList || streq "0000:00:00.0".toList "..".toList) = false
    decide
  rw [lbaEntries_cons, hdots]
  rfl

theorem fits_plainEntry {memory : LbaMemory} (hname : memory.lbaName = true)
    (hnew : memory.newLba = true) : ∀ e ∈ lbaEntries [plainEntry memory], e.Fits := by
  rw [lbaEntries_plainEntry]
  intro e he
  rw [List.mem_singleton.mp he]
  exact ⟨hname, hnew⟩

/-- A directory with `.`, `..` and three LBAs, of which the last has or lacks the page. -/
def threeEntries (attrib : Bool) : List LbaEntry :=
  let memory : LbaMemory := ⟨true, true, true, fun _ => ⟨true, true, true⟩⟩
  [{ plainEntry memory with dName := ".".toList },
    plainEntry memory,
    { plainEntry memory with
      dName := "0000:10:00.0".toList, busMode := .data "0\n".toList, ropes := .data "2\n".toList },
    { plainEntry memory with dName := "..".toList },
    { plainEntry { memory with attrib := attrib } with dName := "0001:20:00.0".toList }]

theorem fits_threeEntries (attrib : Bool) : ∀ e ∈ lbaEntries (threeEntries attrib), e.Fits := by
  have hall : ∀ e ∈ threeEntries attrib, e.Fits := by
    simp only [threeEntries, List.forall_mem_cons, List.not_mem_nil, false_implies, implies_true,
      and_true]
    exact ⟨⟨rfl, rfl⟩, ⟨rfl, rfl⟩, ⟨rfl, rfl⟩, ⟨rfl, rfl⟩, rfl, rfl⟩
  exact fun e he => hall e (List.mem_of_mem_filter he)

theorem listsLbas_iff_threeEntries :
    ListsLbas ⟨4096, le_rfl⟩ [] (some (threeEntries true)) integrityInitSysInfo ∧
      ¬ ListsLbas ⟨4096, le_rfl⟩ [] (some (threeEntries false)) integrityInitSysInfo := by
  have hend : ∀ attrib, initLbas ⟨4096, le_rfl⟩ [] (some (threeEntries attrib))
      ⟨[], 0, integrityInitSysInfo⟩ ≠ .error (.exit 1) :=
    fun attrib => initLbas_ne_error (fits_threeEntries attrib) _ _
  constructor
  · refine (listsLbas_iff ⟨4096, le_rfl⟩ [] _ _ (hend true)).mpr ?_
    show ∀ e ∈ lbaEntries (threeEntries true), _
    have hall : ∀ e ∈ threeEntries true, e.memory.lbaName = true ∧ e.memory.attrib = true := by
      decide
    exact fun e he => hall e (List.mem_of_mem_filter he)
  · rw [listsLbas_iff ⟨4096, le_rfl⟩ [] _ _ (hend false)]
    show ¬ ∀ e ∈ lbaEntries (threeEntries false), _
    intro h
    have hlast : ∃ e ∈ threeEntries false, e.isDots = false ∧ e.memory.attrib = false :=
      ⟨_, .tail _ (.tail _ (.tail _ (.tail _ (.head _)))), by decide, rfl⟩
    obtain ⟨e, he, hdots, hattrib⟩ := hlast
    have hnone := (h e (List.mem_filter.mpr ⟨he, by rw [hdots]; rfl⟩)).2
    rw [hattrib] at hnone
    exact absurd hnone (by decide)

/-- An entry without the page is on the list and not counted. -/
theorem not_listsLbas_noAttrib :
    initLbas ⟨4096, le_rfl⟩ []
        (some [plainEntry ⟨true, true, false, fun _ => ⟨true, true, true⟩⟩])
        ⟨[], 0, integrityInitSysInfo⟩ ≠ .error (.exit 1) ∧
      ¬ ListsLbas ⟨4096, le_rfl⟩ []
        (some [plainEntry ⟨true, true, false, fun _ => ⟨true, true, true⟩⟩])
        integrityInitSysInfo := by
  refine ⟨initLbas_ne_error (fits_plainEntry rfl rfl) _ _, ?_⟩
  rw [listsLbas_of_fits (fits_plainEntry rfl rfl), lbaEntries_plainEntry]
  intro h
  exact absurd (h _ (List.mem_singleton_self _)) (by decide)

end Pcitop.Tool
