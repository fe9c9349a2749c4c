import Pcitop.Tool.LbaInfo

/-!
# Commands and counters of an LBA

The operations of `hplba_ops` (`pcitop.c`): four commands written to the
`utilization` attribute of an LBA, and `hplba_collect`, which reads the counters
back from it.

* `hplbaCollect_of_counters`, `hplbaCollect_of_none`: what a reading does.
* `collectReports_iff`: the return value tells whether the counters were stored exactly
  when there is a buffer.
* `collectReports_run_iff`: so it does in a run of calls that all get theirs from the first.
-/

namespace Pcitop.Tool

open Pcitop.Common

/-- The strings written by `hplba_init`, `hplba_reset`, `hplba_start` and
    `hplba_stop` (lines 258–276). -/
def hplbaInit : CString := writeAttribute "init".toList
def hplbaReset : CString := writeAttribute "reset".toList
def hplbaStart : CString := writeAttribute "start".toList
def hplbaStop : CString := writeAttribute "stop".toList

/-- What a call of `hplba_collect` meets: whether its static buffer is there, from
    an earlier call or from `malloc`, and the attribute. -/
structure Reading where
  buffer : Bool
  file : FileRead
  deriving DecidableEq, Repr

/-- `"%lu,%lu"`. -/
def utilizationFmt : List Directive := [.conv .lu, .lit ',', .conv .lu]

/-- The items scanned from the attribute (lines 296–298). -/
def scanUtilization (ps : PageSize) (file : FileRead) : List Value :=
  sscanf utilizationFmt (readLbaAttribute ps file (zeroed ps))

/-- `hplba_collect` (lines 278–308): the return value, and the LBA after it.
    Without a buffer it returns 0 like after a successful scan. -/
def hplbaCollect (ps : PageSize) (r : Reading) (lba : LbaInfo) : ℤ × LbaInfo :=
  if !r.buffer then (0, lba)
  else
    match scanUtilization ps r.file with
    | [.ulong timer, .ulong counter] => (0, { lba with timer := timer, counter := counter })
    | _ => (1, lba)

/-- The counters a call takes from the attribute, if any. -/
def Reading.counters (ps : PageSize) (r : Reading) : Option (BitVec 64 × BitVec 64) :=
  if !r.buffer then none
  else
    match scanUtilization ps r.file with
    | [.ulong timer, .ulong counter] => some (timer, counter)
    | _ => none

/-- A call that takes counters stores them. -/
theorem hplbaCollect_of_counters {ps : PageSize} {r : Reading} {timer counter : BitVec 64}
    (h : r.counters ps = some (timer, counter)) (lba : LbaInfo) :
    hplbaCollect ps r lba = (0, { lba with timer := timer, counter := counter }) := by
  unfold Reading.counters at h
  unfold hplbaCollect
  split_ifs at h ⊢ with hbuf
  split at h
  · obtain ⟨rfl, rfl⟩ := Prod.mk.inj (Option.some.inj h)
    rfl
  · simp at h

/-- A call that takes none leaves the LBA as it was. -/
theorem hplbaCollect_of_none {ps : PageSize} {r : Reading} (h : r.counters ps = none)
    (lba : LbaInfo) : (hplbaCollect ps r lba).2 = lba := by
  unfold Reading.counters at h
  unfold hplbaCollect
  split_ifs at h ⊢ with hbuf
  · rfl
  · split at h
    · simp at h
    · rfl

/-! ## The return value -/

/-- The return value of a call tells whether it has stored the two numbers it read, and a
    call that fails stores nothing. -/
structure CollectReports (ps : PageSize) (r : Reading) (lba : LbaInfo) : Prop where
  zero_iff : (hplbaCollect ps r lba).1 = 0 ↔ ∃ timer counter,
    r.counters ps = some (timer, counter) ∧ (hplbaCollect ps r lba).2.timer = timer ∧
      (hplbaCollect ps r lba).2.counter = counter
  kept : (hplbaCollect ps r lba).1 ≠ 0 → (hplbaCollect ps r lba).2.timer = lba.timer ∧
    (hplbaCollect ps r lba).2.counter = lba.counter

/-- The return value of a call with a buffer. -/
theorem hplbaCollect_fst {ps : PageSize} {r : Reading} (hbuf : r.buffer = true) (lba : LbaInfo) :
    (hplbaCollect ps r lba).1 = 0 ↔ r.counters ps ≠ none := by
  unfold Reading.counters hplbaCollect
  rw [hbuf, if_neg (by decide), if_neg (by decide)]
  split <;> simp

theorem collectReports_of_buffer {ps : PageSize} {r : Reading} (hbuf : r.buffer = true)
    (lba : LbaInfo) : CollectReports ps r lba := by
  have hret := @hplbaCollect_fst ps r hbuf lba
  obtain hnone | ⟨⟨timer, counter⟩, hsome⟩ := Option.eq_none_or_eq_some (r.counters ps)
  · have hkept := hplbaCollect_of_none hnone lba
    refine ⟨?_, fun _ => by rw [hkept]; exact ⟨rfl, rfl⟩⟩
    rw [hret, hnone]
    simp
  · have hstored := hplbaCollect_of_counters hsome lba
    refine ⟨iff_of_true (by rw [hstored]) ⟨timer, counter, hsome, by rw [hstored], by rw [hstored]⟩,
      fun h => ?_⟩
    rw [hstored] at h
    exact absurd rfl h

/-- Without a buffer a call returns 0 and stores nothing. -/
theorem not_collectReports_of_noBuffer {ps : PageSize} {r : Reading} (hbuf : r.buffer = false)
    (lba : LbaInfo) : ¬ CollectReports ps r lba := by
  intro h
  have hret : (hplbaCollect ps r lba).1 = 0 := by
    rw [hplbaCollect, hbuf]
    rfl
  obtain ⟨timer, counter, hread, -, -⟩ := h.zero_iff.mp hret
  rw [Reading.counters, hbuf] at hread
  exact absurd hread (by simp)

/-- A call of `hplba_collect`: whether its static buffer is there when it begins, and
    whether `malloc` succeeds if it is not. -/
structure CollectCall where
  allocated : Bool
  malloc : Bool
  file : FileRead

/-- What the call meets once it has asked for the buffer. -/
def CollectCall.reading (call : CollectCall) : Reading :=
  ⟨call.allocated || call.malloc, call.file⟩

/-- A call reports what it has done if and only if it gets its buffer. -/
theorem collectReports_iff (ps : PageSize) (call : CollectCall) (lba : LbaInfo) :
    CollectReports ps call.reading lba ↔ call.allocated = true ∨ call.malloc = true := by
  rw [← Bool.or_eq_true]
  constructor
  · intro h
    by_contra hbuf
    exact not_collectReports_of_noBuffer (Bool.not_eq_true _ ▸ hbuf) lba h
  · intro hbuf
    exact collectReports_of_buffer hbuf lba

/-- Without memory, a call returns 0 and leaves the counters as they were. -/
theorem not_collectReports_noBuffer :
    ¬ CollectReports ⟨4096, le_rfl⟩ (CollectCall.mk false false (.data "8,2\n".toList)).reading
      (registeredLba "0000:00:00.0".toList) :=
  not_collectReports_of_noBuffer rfl _

/-- The calls of a run, each with the buffer that those before it have left. -/
def collectCalls : Bool → List (Bool × FileRead) → List CollectCall
  | _, [] => []
  | allocated, (malloc, file) :: rest =>
    ⟨allocated, malloc, file⟩ :: collectCalls (allocated || malloc) rest

/-- Once there is a buffer it stays. -/
theorem allocated_of_mem {rest : List (Bool × FileRead)} {call : CollectCall}
    (h : call ∈ collectCalls true rest) : call.allocated = true := by
  induction rest with
  | nil => exact absurd h (List.not_mem_nil)
  | cons r rest ih =>
    rcases List.mem_cons.mp h with rfl | h
    · rfl
    · exact ih h

/-- In a run of calls every one reports what it has done if and only if the first gets the
    buffer. -/
theorem collectReports_run_iff (ps : PageSize) (malloc : Bool) (file : FileRead)
    (rest : List (Bool × FileRead)) (lba : LbaInfo) :
    (∀ call ∈ collectCalls false ((malloc, file) :: rest),
      CollectReports ps call.reading lba) ↔ malloc = true := by
  constructor
  · intro h
    have hfirst : CollectReports ps (CollectCall.mk false malloc file).reading lba :=
      h _ List.mem_cons_self
    cases malloc with
    | true => rfl
    | false =>
      exact absurd hfirst (not_collectReports_of_noBuffer rfl lba)
  · rintro rfl call hmem
    apply collectReports_of_buffer
    rcases List.mem_cons.mp hmem with rfl | hmem
    · rfl
    · rw [CollectCall.reading, allocated_of_mem hmem]
      rfl

end Pcitop.Tool
