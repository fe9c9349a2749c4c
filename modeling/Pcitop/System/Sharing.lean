import Pcitop.Common.Merge
import Pcitop.System.Session

/-!
# Several runs at once

Any number of runs of the tool measure at the same time, on one driver. Their accesses
arrive in any order that keeps that of each run. There is no lock: what the driver keeps
for an LBA is the state that was commanded last, by whichever run.

* `inOrder_iff_no_races`: every access of every run is in order if and only if no two
  neighbouring accesses to an LBA race.
* `disjoint_runs`: runs that display different LBAs do not disturb each other.
* `init_reset_accepted`: what no other run can have refused.
-/

namespace Pcitop.System

open Pcitop.Common Pcitop.Hplba Pcitop.Driver Pcitop.Tool

/-! ## Accesses by their rungs -/

/-- The state an access is for: the one it commands, or the STOP that a reading needs. -/
def stateOf : Event → LbaUtilStates
  | .write _ bytes => hplbaUtilStateToValue Driver.utilStatesTab bytes
  | .collect _ _ => .stop

/-- The lowest rung from which an access is in order. -/
def needs : Event → ℕ
  | .write _ bytes => rank (hplbaUtilStateToValue Driver.utilStatesTab bytes) - 1
  | .collect _ _ => rank .stop

/-- The rung that an access leaves. -/
def leaves (e : Event) : ℕ := rank (stateOf e)

/-- Two accesses that follow each other race if the second is not in order after the
    first: a START, a STOP or a reading after an INIT, a STOP or a reading after a RESET, or
    a reading after a START. -/
def Races (e e' : Event) : Prop := leaves e < needs e'

instance (e e' : Event) : Decidable (Races e e') :=
  inferInstanceAs (Decidable (leaves e < needs e'))

/-- A command is accepted from the rung below it upwards. -/
theorem store_iff (chip : Chip) (lba : Lba (Regs 64)) {bytes : CString}
    (h : hplbaUtilStateToValue Driver.utilStatesTab bytes ≠ .unk) :
    (utilizationStore chip.utilOps lba bytes).1 = bytes.length ↔
      rank (hplbaUtilStateToValue Driver.utilStatesTab bytes) ≤ rank lba.utilState + 1 := by
  constructor
  · intro hok
    by_contra hrank
    have hneg : utilTransition (hplbaUtilStateToValue Driver.utilStatesTab bytes).code
        lba.utilState < 0 := by
      rw [utilTransition_neg_iff]
      omega
    have hret := (utilizationStore_of_bad chip.utilOps lba (.inr hneg)).1
    omega
  · exact fun hrank => (store_command chip lba bytes h ((toValue_eq_iff h bytes).mp rfl) hrank).1

theorem levels_access (chip : Chip) :
    Levels (InOrder chip) (access chip) (fun e => stateOf e ≠ .unk)
      (fun lba => rank lba.utilState) needs leaves where
  ok_iff := by
    intro lba e he
    cases e with
    | write name bytes =>
      refine (store_iff chip lba he).trans ?_
      simp only [needs]
      omega
    | collect name reads =>
      show lba.utilState = .stop ↔ rank .stop ≤ rank lba.utilState
      cases lba.utilState <;> decide
  level_step := by
    intro lba e he hok
    cases e with
    | write name bytes =>
      have hrank := (store_iff chip lba he).mp hok
      exact congrArg rank
        (store_command chip lba bytes he ((toValue_eq_iff he bytes).mp rfl) hrank).2
    | collect name reads => exact congrArg rank (show lba.utilState = .stop from hok)

/-- The accesses of a run are for states, and the first of them is in order anywhere. -/
theorem stateOf_lbaAccesses {env : Env} {name : CString} {is : List ℕ} {e : Event}
    (h : e ∈ lbaAccesses env name is) : stateOf e ≠ .unk := by
  simp only [lbaAccesses, sampleAccesses, List.mem_cons, List.mem_flatMap, List.not_mem_nil,
    or_false] at h
  rcases h with rfl | rfl | ⟨i, -, rfl | rfl | rfl⟩ <;> simp only [stateOf] <;> decide

/-- Neighbours of one run do not race. -/
theorem isChain_lbaAccesses (env : Env) (name : CString) (is : List ℕ) :
    (lbaAccesses env name is).IsChain fun e e' => ¬ Races e e' := by
  have hok := (allOk_session .apollo env name is ⟨.unk, fun _ => 0⟩).1
  rw [allOk_iff_isChain (levels_access .apollo) fun e => stateOf_lbaAccesses] at hok
  exact hok.2.imp fun e e' h => not_lt.mpr h

/-! ## Runs -/

/-- A run of `measure_utilization` over LBAs of distinct names. -/
structure Measured where
  mem : MeasureMemory
  pageSize : PageSize
  env : Env
  nsamples : ℕ
  numLbaDisplay : ℕ
  lbas : List LbaInfo
  run : Run
  measured : measureUtilization mem pageSize env nsamples numLbaDisplay lbas = .ok run
  nodup : (lbas.map (·.name)).Nodup

/-- The names of the LBAs that a run displays. -/
def Measured.names (m : Measured) : List CString :=
  (m.lbas.filter fun lba => lba.display ≠ 0).map (·.name)

theorem Measured.mem_names_iff (m : Measured) {lba : LbaInfo} (hmem : lba ∈ m.lbas) :
    lba.name ∈ m.names ↔ lba.display ≠ 0 := by
  simp only [Measured.names, List.mem_map, List.mem_filter, decide_eq_true_eq]
  constructor
  · rintro ⟨x, ⟨hx, hd⟩, hname⟩
    rwa [← List.inj_on_of_nodup_map m.nodup hx hmem hname]
  · exact fun hd => ⟨lba, ⟨hmem, hd⟩, rfl⟩

/-- The accesses of a run to the LBA of a name. -/
theorem Measured.filter_events (m : Measured) (name : CString) :
    (m.run.events.filter fun e => e.name = name) =
      if name ∈ m.names then
        lbaAccesses m.env name (List.range (m.env.samples m.nsamples 0)) else [] := by
  have hspec := measureUtilization_eq m.measured
  by_cases hname : name ∈ m.lbas.map (·.name)
  · obtain ⟨lba, hmem, rfl⟩ := List.mem_map.mp hname
    rw [System.filter_events hspec m.nodup hmem]
    exact if_congr (m.mem_names_iff hmem).symm rfl rfl
  · rw [filter_events_of_not_mem hspec hname, if_neg]
    intro hmem
    obtain ⟨lba, hlba, rfl⟩ := List.mem_map.mp hmem
    exact hname (List.mem_map_of_mem (List.mem_of_mem_filter hlba))

/-! ## Arrivals -/

section

variable {κ : Type}

/-- The accesses of some runs as they arrive, those of each run in its own order. -/
def Interleaves [DecidableEq κ] (runs : κ → Measured) (arrivals : List (κ × Event)) : Prop :=
  ∀ p, part p arrivals = (runs p).run.events

/-- The arrivals at the LBA of a name. -/
def arrivalsAt (name : CString) (arrivals : List (κ × Event)) : List (κ × Event) :=
  arrivals.filter fun a => a.2.name = name

/-- Every access is in order when it arrives. -/
def AllInOrder (chips : CString → Chip) (d₀ : CString → Lba (Regs 64))
    (arrivals : List (κ × Event)) : Prop :=
  ∀ before a after, arrivals = before ++ a :: after →
    InOrder (chips a.2.name) (driverAfter chips d₀ (before.map Prod.snd) a.2.name) a.2

theorem map_arrivalsAt (name : CString) (arrivals : List (κ × Event)) :
    (arrivalsAt name arrivals).map Prod.snd =
      (arrivals.map Prod.snd).filter fun e => e.name = name := by
  rw [arrivalsAt, List.filter_map]
  rfl

theorem part_arrivalsAt [DecidableEq κ] (p : κ) (name : CString) (arrivals : List (κ × Event)) :
    part p (arrivalsAt name arrivals) = (part p arrivals).filter fun e => e.name = name := by
  rw [part, arrivalsAt, List.filter_comm, part, List.filter_map]
  rfl

variable {runs : κ → Measured} {arrivals : List (κ × Event)} {chips : CString → Chip}
  {d₀ : CString → Lba (Regs 64)}

theorem allInOrder_iff_allOk :
    AllInOrder chips d₀ arrivals ↔ ∀ name, AllOk (InOrder (chips name)) (access (chips name))
      (d₀ name) ((arrivalsAt name arrivals).map Prod.snd) := by
  simp only [map_arrivalsAt]
  constructor
  · intro h name
    refine @forall_index_of_ok _ _ _ _ Event.name (fun q => access (chips q))
      (fun q => InOrder (chips q)) d₀ _ ?_ name
    intro before e after hes
    obtain ⟨before', rest, rfl, rfl, hrest⟩ := List.map_eq_append_iff.mp hes
    obtain ⟨a, after', rfl, rfl, rfl⟩ := List.map_eq_cons_iff.mp hrest
    exact h before' a after' rfl
  · rintro h before a after rfl
    have hes : (before ++ a :: after).map Prod.snd =
        before.map Prod.snd ++ a.2 :: after.map Prod.snd := by
      rw [List.map_append, List.map_cons]
    exact ok_of_forall_index h hes

variable [DecidableEq κ]

/-- The arrivals at an LBA are accesses of the runs that display it. -/
theorem Interleaves.part_arrivalsAt (h : Interleaves runs arrivals) (p : κ) (name : CString) :
    part p (arrivalsAt name arrivals) = if name ∈ (runs p).names then
      lbaAccesses (runs p).env name (List.range ((runs p).env.samples (runs p).nsamples 0))
      else [] := by
  rw [System.part_arrivalsAt, h p, (runs p).filter_events]

/-- What arrives at an LBA is an access of a run that displays it. -/
theorem Interleaves.mem_arrivalsAt (h : Interleaves runs arrivals) {name : CString}
    {a : κ × Event} (ha : a ∈ arrivalsAt name arrivals) :
    name ∈ (runs a.1).names ∧ stateOf a.2 ≠ .unk := by
  have hpart : a.2 ∈ part a.1 (arrivalsAt name arrivals) := mem_part.mpr ha
  rw [h.part_arrivalsAt] at hpart
  split_ifs at hpart with hname
  · exact ⟨hname, stateOf_lbaAccesses hpart⟩
  · exact absurd hpart List.not_mem_nil

/-- **Runs that share LBAs.** However their accesses are interleaved, all of them are in
    order if and only if no two neighbouring accesses of different runs to an LBA race. -/
theorem inOrder_iff_no_races (h : Interleaves runs arrivals) (chips : CString → Chip)
    (d₀ : CString → Lba (Regs 64)) :
    AllInOrder chips d₀ arrivals ↔
      ∀ name before a b after, arrivalsAt name arrivals = before ++ a :: b :: after →
        a.1 ≠ b.1 → ¬ Races a.2 b.2 := by
  rw [allInOrder_iff_allOk]
  refine forall_congr' fun name => ?_
  have hstate : ∀ e ∈ (arrivalsAt name arrivals).map Prod.snd, stateOf e ≠ .unk := by
    intro e he
    obtain ⟨a, ha, rfl⟩ := List.mem_map.mp he
    exact (h.mem_arrivalsAt ha).2
  have hparts : ∀ p, (part p (arrivalsAt name arrivals)).IsChain fun e e' => ¬ Races e e' := by
    intro p
    rw [h.part_arrivalsAt]
    split_ifs
    · exact isChain_lbaAccesses _ _ _
    · exact .nil
  have hhead : ∀ e ∈ ((arrivalsAt name arrivals).map Prod.snd).head?,
      needs e ≤ rank (d₀ name).utilState := by
    cases harr : arrivalsAt name arrivals with
    | nil => simp
    | cons a as =>
      -- The first to arrive is the first access of its run, an INIT.
      have hpart := h.part_arrivalsAt a.1 name
      rw [harr, part_cons, if_pos rfl] at hpart
      split_ifs at hpart
      · have hinit : a.2 = .write name hplbaInit := (List.cons.inj hpart).1
        have hneeds : needs (.write name hplbaInit) = 0 := by
          simp only [needs]
          decide
        simp [hinit, hneeds]
  have hraces : (fun e e' => needs e' ≤ leaves e) = fun e e' => ¬ Races e e' := by
    funext e e'
    exact propext not_lt.symm
  rw [allOk_iff_isChain (levels_access (chips name)) hstate, and_iff_right hhead, hraces,
    isChain_iff_of_parts hparts]

/-! ## Runs on different LBAs -/

/-- No LBA is displayed by two runs. -/
def DisjointRuns (runs : κ → Measured) : Prop :=
  ∀ p q, p ≠ q → ∀ name ∈ (runs p).names, name ∉ (runs q).names

/-- Then the accesses that arrive at an LBA are those of the run that displays it. -/
theorem Interleaves.map_arrivalsAt_of_disjoint (h : Interleaves runs arrivals)
    (hdisj : DisjointRuns runs) {p : κ} {name : CString} (hp : name ∈ (runs p).names) :
    (arrivalsAt name arrivals).map Prod.snd =
      (runs p).run.events.filter fun e => e.name = name := by
  have hall : (arrivalsAt name arrivals).filter (fun a => a.1 = p) = arrivalsAt name arrivals := by
    refine List.filter_eq_self.mpr fun a ha => decide_eq_true ?_
    by_contra hne
    exact hdisj a.1 p hne name (h.mem_arrivalsAt ha).1 hp
  rw [← h p, ← System.part_arrivalsAt, part, hall]

/-- **Runs on different LBAs do not disturb each other.** All their accesses are in order,
    and every LBA ends as if its run had been alone. -/
theorem disjoint_runs (h : Interleaves runs arrivals) (hdisj : DisjointRuns runs)
    (chips : CString → Chip) (d₀ : CString → Lba (Regs 64)) :
    AllInOrder chips d₀ arrivals ∧
      ∀ p, ∀ name ∈ (runs p).names,
        driverAfter chips d₀ (arrivals.map Prod.snd) name =
          driverAfter chips d₀ (runs p).run.events name := by
  constructor
  · rw [allInOrder_iff_allOk]
    intro name
    by_cases hname : ∃ p, name ∈ (runs p).names
    · obtain ⟨p, hp⟩ := hname
      rw [h.map_arrivalsAt_of_disjoint hdisj hp, (runs p).filter_events, if_pos hp]
      exact (allOk_session _ _ _ _ _).1
    · have hnil : arrivalsAt name arrivals = [] := by
        refine List.eq_nil_iff_forall_not_mem.mpr fun a ha => ?_
        exact hname ⟨a.1, (h.mem_arrivalsAt ha).1⟩
      rw [hnil]
      exact trivial
  · intro p name hp
    simp only [driverAfter, deliverAll_apply]
    rw [← map_arrivalsAt, h.map_arrivalsAt_of_disjoint hdisj hp]

/-! ## What cannot be refused -/

theorem rank_pos_access (chip : Chip) (e : Event) {lba : Lba (Regs 64)}
    (h : 0 < rank lba.utilState) : 0 < rank (access chip e lba).utilState := by
  cases e with
  | write name bytes =>
    rcases utilizationStore_cases chip.utilOps lba bytes with heq | ⟨s, hs, -, heq⟩
    · show 0 < rank (utilizationStore chip.utilOps lba bytes).2.utilState
      rwa [heq]
    · show 0 < rank (utilizationStore chip.utilOps lba bytes).2.utilState
      rw [heq]
      cases s <;> first | exact absurd rfl hs | exact Nat.succ_pos _
  | collect name reads => exact h

theorem rank_pos_runAll (chip : Chip) (es : List Event) {lba : Lba (Regs 64)}
    (h : 0 < rank lba.utilState) : 0 < rank (runAll (access chip) lba es).utilState := by
  induction es generalizing lba with
  | nil => exact h
  | cons e es ih => exact ih (rank_pos_access chip e h)

/-- After an INIT an LBA is above the ground. -/
theorem rank_pos_of_init (chip : Chip) {name : CString} {es : List Event}
    (h : .write name hplbaInit ∈ es) (lba : Lba (Regs 64)) :
    0 < rank (runAll (access chip) lba es).utilState := by
  obtain ⟨before, after, rfl⟩ := List.append_of_mem h
  have hstate : (access chip (.write name hplbaInit)
      (runAll (access chip) lba before)).utilState = .init :=
    (store_command chip _ hplbaInit (s := .init) (by decide) (by decide) (Nat.le_add_left 1 _)).2
  have hrun : runAll (access chip) lba (before ++ .write name hplbaInit :: after) =
      runAll (access chip) (access chip (.write name hplbaInit)
        (runAll (access chip) lba before)) after := by
    simp only [runAll, List.foldl_append, List.foldl_cons]
  rw [hrun]
  exact rank_pos_runAll chip after (by rw [hstate]; decide)

/-- **No INIT and no RESET of a run is refused**, in whatever order the accesses arrive. -/
theorem init_reset_accepted (h : Interleaves runs arrivals) (chips : CString → Chip)
    (d₀ : CString → Lba (Regs 64)) {before after : List (κ × Event)} {p : κ}
    {name bytes : CString} (harr : arrivals = before ++ (p, .write name bytes) :: after)
    (hbytes : bytes = hplbaInit ∨ bytes = hplbaReset) :
    (utilizationStore (chips name).utilOps
      (driverAfter chips d₀ (before.map Prod.snd) name) bytes).1 = bytes.length := by
  have hinit : hplbaUtilStateToValue Driver.utilStatesTab hplbaInit = .init := by decide
  have hreset : hplbaUtilStateToValue Driver.utilStatesTab hplbaReset = .reset := by decide
  rcases hbytes with rfl | rfl
  · rw [store_iff _ _ (by rw [hinit]; decide), hinit]
    exact Nat.le_add_left 1 _
  · rw [store_iff _ _ (by rw [hreset]; decide), hreset]
    -- The INIT of the same run has arrived before.
    have hat : arrivalsAt name arrivals = arrivalsAt name before ++
        (p, .write name hplbaReset) :: arrivalsAt name after := by
      rw [harr, arrivalsAt, List.filter_append, List.filter_cons_of_pos (by simp [Event.name])]
      rfl
    have hpart := h.part_arrivalsAt p name
    rw [hat, part_append, part_cons, if_pos rfl] at hpart
    have hmem : .write name hplbaInit ∈ part p (arrivalsAt name before) := by
      split_ifs at hpart
      · cases hbefore : part p (arrivalsAt name before) with
        | nil =>
          rw [hbefore, List.nil_append] at hpart
          exact absurd (Event.write.inj (List.cons.inj hpart).1).2 (by decide)
        | cons e es =>
          rw [hbefore] at hpart
          rw [show e = .write name hplbaInit from (List.cons.inj hpart).1]
          exact List.mem_cons_self
      · exact absurd hpart (by simp)
    have hmem : .write name hplbaInit ∈ (before.map Prod.snd).filter fun e => e.name = name := by
      rw [← map_arrivalsAt]
      exact List.mem_map_of_mem (f := Prod.snd) (mem_part.mp hmem)
    have hpos := rank_pos_of_init (chips name) hmem (d₀ name)
    rw [driverAfter, deliverAll_apply]
    exact Nat.succ_le_succ hpos

end

/-! ## Two runs -/

/-- The LBA `lba0` under another name. -/
def lbaNamed (name : CString) : LbaInfo := { lba0 with name := name }

/-- The accesses of a run that takes one sample of an LBA. -/
def oneSample (name : CString) : List Event :=
  [.write name hplbaInit, .write name hplbaReset, .write name hplbaStart, .write name hplbaStop,
    .collect name true]

/-- There is such a run. -/
theorem exists_oneSample (name : CString) :
    ∃ m : Measured, m.names = [name] ∧ m.run.events = oneSample name := by
  have hok : ∃ run, measureUtilization ⟨true, true⟩ ⟨4096, le_rfl⟩ steadyEnv 1 1
      [lbaNamed name] = .ok run := by
    refine measureUtilization_ok 1 1 (fun lba hmem _ => ?_) fun lba hmem _ => ?_ <;>
      rw [List.mem_singleton.mp hmem] <;> rfl
  obtain ⟨run, hrun⟩ := hok
  exact ⟨⟨_, _, _, _, _, _, run, hrun, List.nodup_singleton _⟩, rfl,
    (measureUtilization_eq hrun).events⟩

/-- Two runs of one LBA: between RESET and START of the first comes the INIT of the second. -/
def racing : List (Bool × Event) :=
  ((oneSample lba0.name).take 2).map (false, ·) ++ [(true, .write lba0.name hplbaInit)] ++
    ((oneSample lba0.name).drop 2).map (false, ·) ++ ((oneSample lba0.name).drop 1).map (true, ·)

theorem not_inOrder_racing :
    ∃ runs : Bool → Measured, Interleaves runs racing ∧
      ∀ chips d₀, ¬ AllInOrder chips d₀ racing := by
  obtain ⟨m, -, hevents⟩ := exists_oneSample lba0.name
  have hinter : Interleaves (fun _ => m) racing := by
    intro p
    show part p racing = m.run.events
    rw [hevents]
    cases p <;> rfl
  refine ⟨fun _ => m, hinter, fun chips d₀ hall => ?_⟩
  rw [inOrder_iff_no_races hinter] at hall
  exact hall lba0.name (((oneSample lba0.name).take 2).map (false, ·))
    (true, .write lba0.name hplbaInit) (false, .write lba0.name hplbaStart)
    (((oneSample lba0.name).drop 3).map (false, ·) ++
      ((oneSample lba0.name).drop 1).map (true, ·)) rfl (by decide) (by decide)

/-- In these the RESET of the second run is accepted all the same. -/
theorem init_reset_accepted_racing :
    (utilizationStore Chip.apollo.utilOps
      (driverAfter (fun _ => .apollo) (fun _ => ⟨.unk, fun _ => 0⟩)
        ((racing.take 6).map Prod.snd) lba0.name) hplbaReset).1 = hplbaReset.length := by
  obtain ⟨m, -, hevents⟩ := exists_oneSample lba0.name
  have hinter : Interleaves (fun _ => m) racing := by
    intro p
    show part p racing = m.run.events
    rw [hevents]
    cases p <;> rfl
  exact init_reset_accepted hinter (fun _ => .apollo) (fun _ => ⟨.unk, fun _ => 0⟩)
    (show racing = racing.take 6 ++ (true, .write lba0.name hplbaReset) :: racing.drop 7 from rfl)
    (.inr rfl)

/-- Two runs of different LBAs, access by access. -/
def alternating : List (Bool × Event) :=
  ((oneSample "0000:00:00.0".toList).zip (oneSample "0000:10:00.0".toList)).flatMap
    fun e => [(false, e.1), (true, e.2)]

theorem disjoint_runs_alternating :
    AllInOrder (fun _ => .apollo) (fun _ => ⟨.unk, fun _ => 0⟩) alternating := by
  obtain ⟨m, hnames, hevents⟩ := exists_oneSample "0000:00:00.0".toList
  obtain ⟨m', hnames', hevents'⟩ := exists_oneSample "0000:10:00.0".toList
  have hinter : Interleaves (fun p : Bool => if p then m' else m) alternating := by
    intro p
    cases p
    · exact hevents.symm
    · exact hevents'.symm
  have hdisj : DisjointRuns fun p : Bool => if p then m' else m := by
    intro p q hne name hp hq
    cases p <;> cases q <;> simp_all
  exact (disjoint_runs hinter hdisj (fun _ => .apollo) fun _ => ⟨.unk, fun _ => 0⟩).1

end Pcitop.System
