import Pcitop.Tool.Integrity

/-!
# The cabinets, bays and chassis seen

`integrity_update_sys_info` has the same block three times, for the cabinet, the bay and
the chassis of a slot: search a list for the number, and else count it and put it at the
end. A block without memory ends the call, and what the blocks before it did stays.

* `Grows`, `update_grows`: what a call does to each of the three lists.
* `sysInfo_collects`: the lists after any sequence of calls, and what repeating a failed
  call does.
-/

namespace Pcitop.Tool

/-- The three parts of a location. -/
inductive Location where
  | cabinet | bay | chassis
  deriving DecidableEq, Repr

/-- The number of an LBA, and the counter and the list that are kept of them. -/
def Location.number : Location → IntegrityLbaInfo → ℤ
  | .cabinet, lbaInfo => lbaInfo.cabinet
  | .bay, lbaInfo => lbaInfo.bay
  | .chassis, lbaInfo => lbaInfo.chassis

def Location.num : Location → IntegritySysInfo → ℤ
  | .cabinet, sysInfo => sysInfo.numCabinets
  | .bay, sysInfo => sysInfo.numBays
  | .chassis, sysInfo => sysInfo.numChassis

def Location.list : Location → IntegritySysInfo → List ℤ
  | .cabinet, sysInfo => sysInfo.cabinetList
  | .bay, sysInfo => sysInfo.bayList
  | .chassis, sysInfo => sysInfo.chassisList

/-! ## One call -/

/-- A counter and its list, before and after a block for a number: nothing new, or the
    number is new and comes at the end. -/
def Grows (number num : ℤ) (list : List ℤ) (num' : ℤ) (list' : List ℤ) : Prop :=
  num' = num ∧ list' = list ∨ number ∉ list ∧ num' = num + 1 ∧ list' = list ++ [number]

theorem Grows.refl (number num : ℤ) (list : List ℤ) : Grows number num list num list :=
  .inl ⟨rfl, rfl⟩

theorem addNumber_some {calloc : Bool} {number num num' : ℤ} {list list' : List ℤ}
    (h : addNumber calloc number num list = some (num', list')) :
    Grows number num list num' list' ∧ number ∈ list' := by
  unfold addNumber at h
  split_ifs at h with hmem hc
  · obtain ⟨rfl, rfl⟩ := Prod.mk.inj (Option.some.inj h)
    exact ⟨.refl _ _ _, hmem⟩
  · obtain ⟨rfl, rfl⟩ := Prod.mk.inj (Option.some.inj h)
    exact ⟨.inr ⟨hmem, rfl, rfl⟩, by simp⟩

/-- A block with memory. -/
def addWithMemory (number num : ℤ) (list : List ℤ) : ℤ × List ℤ :=
  if number ∈ list then (num, list) else (num + 1, list ++ [number])

theorem addNumber_true (number num : ℤ) (list : List ℤ) :
    addNumber true number num list = some (addWithMemory number num list) := by
  unfold addNumber addWithMemory
  by_cases h : number ∈ list
  · rw [if_pos h, if_pos h]
  · rw [if_neg h, if_neg h, if_pos rfl]

/-- It does the same to a list that an earlier one has dealt with. -/
theorem addWithMemory_again {calloc : Bool} {number num num' : ℤ} {list list' : List ℤ}
    (h : addNumber calloc number num list = some (num', list')) :
    addWithMemory number num' list' = addWithMemory number num list := by
  have hmem := (addNumber_some h).2
  unfold addNumber at h
  unfold addWithMemory
  rw [if_pos hmem]
  split_ifs at h ⊢
  · exact (Option.some.inj h).symm
  · exact (Option.some.inj h).symm

section Call

variable (mem : SysInfoMemory) (lbaInfo : IntegrityLbaInfo) (sysInfo : IntegritySysInfo)

/-- Each of the three lists grows by the number of the LBA, or stays; after a call that
    returns 0 it has the number. -/
theorem update_grows (l : Location) :
    Grows (l.number lbaInfo) (l.num sysInfo) (l.list sysInfo)
        (l.num (integrityUpdateSysInfo mem lbaInfo sysInfo).2)
        (l.list (integrityUpdateSysInfo mem lbaInfo sysInfo).2) ∧
      ((integrityUpdateSysInfo mem lbaInfo sysInfo).1 = 0 →
        l.number lbaInfo ∈ l.list (integrityUpdateSysInfo mem lbaInfo sysInfo).2) := by
  have hfail : -ENOMEM ≠ 0 := by decide
  unfold integrityUpdateSysInfo
  cases hcab : addNumber mem.cabinet lbaInfo.cabinet sysInfo.numCabinets sysInfo.cabinetList with
  | none => exact ⟨.refl _ _ _, fun h => absurd h hfail⟩
  | some cab =>
    have hcab := addNumber_some hcab
    simp only
    cases hbay : addNumber mem.bay lbaInfo.bay sysInfo.numBays sysInfo.bayList with
    | none =>
      refine ⟨?_, fun h => absurd h hfail⟩
      cases l with
      | cabinet => exact hcab.1
      | bay => exact .refl _ _ _
      | chassis => exact .refl _ _ _
    | some bay =>
      have hbay := addNumber_some hbay
      simp only
      cases hchassis : addNumber mem.chassis lbaInfo.chassis sysInfo.numChassis
          sysInfo.chassisList with
      | none =>
        refine ⟨?_, fun h => absurd h hfail⟩
        cases l with
        | cabinet => exact hcab.1
        | bay => exact hbay.1
        | chassis => exact .refl _ _ _
      | some chassis =>
        have hchassis := addNumber_some hchassis
        cases l with
        | cabinet => exact ⟨hcab.1, fun _ => hcab.2⟩
        | bay => exact ⟨hbay.1, fun _ => hbay.2⟩
        | chassis => exact ⟨hchassis.1, fun _ => hchassis.2⟩

theorem update_with_memory :
    integrityUpdateSysInfo ⟨true, true, true⟩ lbaInfo sysInfo =
      let cabinets := addWithMemory lbaInfo.cabinet sysInfo.numCabinets sysInfo.cabinetList
      let bays := addWithMemory lbaInfo.bay sysInfo.numBays sysInfo.bayList
      let chassis := addWithMemory lbaInfo.chassis sysInfo.numChassis sysInfo.chassisList
      (0, ⟨cabinets.1, cabinets.2, bays.1, bays.2, chassis.1, chassis.2⟩) := by
  simp only [integrityUpdateSysInfo, addNumber_true]

/-- Repeating a call with memory does what the call would have done with memory. -/
theorem update_again :
    integrityUpdateSysInfo ⟨true, true, true⟩ lbaInfo
        (integrityUpdateSysInfo mem lbaInfo sysInfo).2 =
      integrityUpdateSysInfo ⟨true, true, true⟩ lbaInfo sysInfo := by
  rw [integrityUpdateSysInfo.eq_def mem]
  cases hcab : addNumber mem.cabinet lbaInfo.cabinet sysInfo.numCabinets sysInfo.cabinetList with
  | none => rfl
  | some cab =>
    have hcab := addWithMemory_again hcab
    simp only
    cases hbay : addNumber mem.bay lbaInfo.bay sysInfo.numBays sysInfo.bayList with
    | none => simp only [update_with_memory, hcab]
    | some bay =>
      have hbay := addWithMemory_again hbay
      simp only
      cases hchassis : addNumber mem.chassis lbaInfo.chassis sysInfo.numChassis
          sysInfo.chassisList with
      | none => simp only [update_with_memory, hcab, hbay]
      | some chassis =>
        have hchassis := addWithMemory_again hchassis
        simp only [update_with_memory, hcab, hbay, hchassis]

end Call

/-! ## Any sequence of calls -/

/-- A call of `integrity_update_sys_info`, with the allocations that succeed in it. -/
structure SysInfoCall where
  mem : SysInfoMemory
  lbaInfo : IntegrityLbaInfo

/-- What the call returns and leaves. -/
def SysInfoCall.run (c : SysInfoCall) (sysInfo : IntegritySysInfo) : ℤ × IntegritySysInfo :=
  integrityUpdateSysInfo c.mem c.lbaInfo sysInfo

/-- `sys_info` after some calls. -/
def afterCalls (calls : List SysInfoCall) (sysInfo : IntegritySysInfo) : IntegritySysInfo :=
  calls.foldl (fun sysInfo c => (c.run sysInfo).2) sysInfo

theorem afterCalls_append (earlier later : List SysInfoCall) (sysInfo : IntegritySysInfo) :
    afterCalls (earlier ++ later) sysInfo = afterCalls later (afterCalls earlier sysInfo) :=
  List.foldl_append

/-- A list only ever grows at its end. -/
theorem list_prefix_afterCalls (l : Location) (calls : List SysInfoCall)
    (sysInfo : IntegritySysInfo) : l.list sysInfo <+: l.list (afterCalls calls sysInfo) := by
  induction calls generalizing sysInfo with
  | nil => exact List.prefix_rfl
  | cons c calls ih =>
    refine List.IsPrefix.trans ?_ (ih (c.run sysInfo).2)
    rcases (update_grows c.mem c.lbaInfo sysInfo l).1 with ⟨-, hl⟩ | ⟨-, -, hl⟩
    · rw [SysInfoCall.run, hl]
    · rw [SysInfoCall.run, hl]
      exact List.prefix_append _ _

/-- What holds of a counter and its list after some calls. -/
structure Collects (l : Location) (calls : List SysInfoCall) (sysInfo : IntegritySysInfo) :
    Prop where
  num : l.num sysInfo = (l.list sysInfo).length
  nodup : (l.list sysInfo).Nodup
  sublist : (l.list sysInfo).Sublist (calls.map fun c => l.number c.lbaInfo)

theorem Collects.snoc {l : Location} {calls : List SysInfoCall} {sysInfo : IntegritySysInfo}
    (h : Collects l calls sysInfo) (c : SysInfoCall) :
    Collects l (calls ++ [c]) (c.run sysInfo).2 := by
  rcases (update_grows c.mem c.lbaInfo sysInfo l).1 with ⟨hn, hl⟩ | ⟨hnew, hn, hl⟩
  · refine ⟨?_, ?_, ?_⟩
    · rw [SysInfoCall.run, hn, hl, h.num]
    · rw [SysInfoCall.run, hl]
      exact h.nodup
    · rw [SysInfoCall.run, hl, List.map_append]
      exact h.sublist.trans (List.sublist_append_left _ _)
  · refine ⟨?_, ?_, ?_⟩
    · rw [SysInfoCall.run, hn, hl, h.num, List.length_append, List.length_singleton]
      push_cast
      rfl
    · rw [SysInfoCall.run, hl]
      rw [← List.concat_eq_append]
      exact h.nodup.concat hnew
    · rw [SysInfoCall.run, hl, List.map_append]
      exact h.sublist.append (List.Sublist.refl _)

theorem collects_afterCalls (l : Location) (calls : List SysInfoCall) :
    Collects l calls (afterCalls calls integrityInitSysInfo) := by
  induction calls using List.reverseRecOn with
  | nil => cases l <;> exact ⟨rfl, List.nodup_nil, List.Sublist.refl _⟩
  | append_singleton calls c ih =>
    rw [afterCalls_append]
    exact ih.snoc c

/-- After any calls a counter is the length of its list, which holds numbers passed, each
    once and in the order in which they were first put there, and those of every call that
    returned 0; and a call that failed, repeated with memory, does what it would have done
    with memory in the first place. -/
theorem sysInfo_collects (l : Location) (calls : List SysInfoCall) :
    Collects l calls (afterCalls calls integrityInitSysInfo) ∧
      (∀ earlier later, calls = earlier ++ later →
        l.list (afterCalls earlier integrityInitSysInfo) <+:
          l.list (afterCalls calls integrityInitSysInfo)) ∧
      (∀ (earlier : List SysInfoCall) (c : SysInfoCall) (later : List SysInfoCall),
        calls = earlier ++ c :: later →
        (c.run (afterCalls earlier integrityInitSysInfo)).1 = 0 →
          l.number c.lbaInfo ∈ l.list (afterCalls calls integrityInitSysInfo)) ∧
      ∀ c : SysInfoCall, (c.run (afterCalls calls integrityInitSysInfo)).1 = -ENOMEM →
        integrityUpdateSysInfo ⟨true, true, true⟩ c.lbaInfo
            (c.run (afterCalls calls integrityInitSysInfo)).2 =
          integrityUpdateSysInfo ⟨true, true, true⟩ c.lbaInfo
            (afterCalls calls integrityInitSysInfo) := by
  refine ⟨collects_afterCalls l calls, ?_, ?_, fun c _ => update_again _ _ _⟩
  · rintro earlier later rfl
    rw [afterCalls_append]
    exact list_prefix_afterCalls l later _
  · rintro earlier c later rfl hret
    rw [afterCalls_append]
    exact (list_prefix_afterCalls l later _).subset ((update_grows _ _ _ l).2 hret)

end Pcitop.Tool
