import Pcitop.Common.Family
import Pcitop.Driver.UtilState

/-!
# Failing operations

An operation of `lba_util_ops` may return any `int`, and `set_util_state` hands it on. As
`util_state` is assigned before the operation runs, a request that fails in its operation
has changed the state all the same.

* `atomic_iff`: the requests that leave the state alone when they fail.
* `changes_iff`: the runs of requests in which `util_state` names the operation that
  succeeded last.
-/

namespace Pcitop.Driver

open Pcitop.Common Pcitop.Hplba

variable {σ : Type} (ops : LbaUtilOps σ)

/-- An LBA after a request. -/
def request (newState : ℤ) (lba : Lba σ) : Lba σ := (setUtilState ops lba newState).2

/-- A request that fails leaves `util_state` alone. -/
def Atomic (lba : Lba σ) (newState : ℤ) : Prop :=
  (setUtilState ops lba newState).1 < 0 → (request ops newState lba).utilState = lba.utilState

/-- The operation of a legal request does not fail, unless the request is for the state
    there is. -/
def Steady (lba : Lba σ) (newState : ℤ) : Prop :=
  ∀ s, LbaUtilStates.ofCode newState = some s → ¬ utilTransition newState lba.utilState < 0 →
    (ops.op s lba.device).1 < 0 → s = lba.utilState

/-- The state after a request, if it is that of the operation that succeeded last. -/
def succeeded (lba : Lba σ) (newState : ℤ) (last : LbaUtilStates) : LbaUtilStates :=
  if 0 ≤ (setUtilState ops lba newState).1 then (LbaUtilStates.ofCode newState).getD last else last

/-- The operation that succeeded last in a run of requests, `last` if none did. -/
def lastSucceeded : Lba σ → LbaUtilStates → List ℤ → LbaUtilStates
  | _, last, [] => last
  | lba, last, newState :: rest =>
    lastSucceeded (request ops newState lba) (succeeded ops lba newState last) rest

/-- Over a run of requests, those that fail leave `util_state` alone, and it names the
    operation that succeeded last in every state on the way. -/
structure Changes (lba : Lba σ) (reqs : List ℤ) : Prop where
  atomic : AllOk (Atomic ops) (request ops) lba reqs
  named : ∀ before after, reqs = before ++ after →
    (runAll (request ops) lba before).utilState = lastSucceeded ops lba lba.utilState before

variable {ops}

/-! ## One request -/

theorem code_of_ofCode {v : ℤ} {s : LbaUtilStates} (h : LbaUtilStates.ofCode v = some s) :
    v = s.code := by
  unfold LbaUtilStates.ofCode at h
  split_ifs at h <;> (obtain rfl := Option.some.inj h; assumption)

/-- A request is refused, or is for one of the states and runs its operation. -/
theorem setUtilState_cases (ops : LbaUtilOps σ) (lba : Lba σ) (newState : ℤ) :
    (utilTransition newState lba.utilState < 0 ∧
      setUtilState ops lba newState = (utilTransition newState lba.utilState, lba)) ∨
    ∃ s, LbaUtilStates.ofCode newState = some s ∧
      ¬ utilTransition newState lba.utilState < 0 ∧
      setUtilState ops lba newState =
        ((ops.op s lba.device).1, ⟨s, (ops.op s lba.device).2⟩) := by
  by_cases hneg : utilTransition newState lba.utilState < 0
  · exact .inl ⟨hneg, setUtilState_of_neg ops lba hneg⟩
  · right
    obtain hnone | ⟨s, hs⟩ := Option.eq_none_or_eq_some (LbaUtilStates.ofCode newState)
    · have hret : utilTransition newState lba.utilState = -EINVAL := by
        unfold utilTransition
        rw [hnone]
      rw [hret] at hneg
      exact absurd (by decide) hneg
    · obtain rfl := code_of_ofCode hs
      exact ⟨s, hs, hneg, setUtilState_of_legal ops lba hneg⟩

/-- A request leaves the state alone when it fails if and only if it is refused, or its
    operation does not fail, or it is for the state there is. -/
theorem atomic_iff (lba : Lba σ) (newState : ℤ) :
    Atomic ops lba newState ↔ Steady ops lba newState := by
  unfold Atomic Steady request
  obtain ⟨hneg, heq⟩ | ⟨s, hs, hlegal, heq⟩ := setUtilState_cases ops lba newState
  · rw [heq]
    exact iff_of_true (fun _ => rfl) fun _ _ hlegal => absurd hneg hlegal
  · rw [heq]
    constructor
    · intro h s' hs' _ hfail
      obtain rfl := Option.some.inj (hs.symm.trans hs')
      exact h hfail
    · intro h hfail
      exact h s hs hlegal hfail

/-- After such a request the state is that of the operation that succeeded last. -/
theorem Steady.utilState_request {lba : Lba σ} {newState : ℤ} (h : Steady ops lba newState) :
    (request ops newState lba).utilState = succeeded ops lba newState lba.utilState := by
  unfold request succeeded
  obtain ⟨hneg, heq⟩ | ⟨s, hs, hlegal, heq⟩ := setUtilState_cases ops lba newState
  · rw [heq, if_neg (not_le.mpr hneg)]
  · rw [heq, hs]
    by_cases hret : 0 ≤ (ops.op s lba.device).1
    · rw [if_pos hret]
      rfl
    · rw [if_neg hret]
      exact h s hs hlegal (not_le.mp hret)

/-! ## Runs -/

theorem allOk_atomic_iff (lba : Lba σ) (reqs : List ℤ) :
    AllOk (Atomic ops) (request ops) lba reqs ↔ AllOk (Steady ops) (request ops) lba reqs := by
  induction reqs generalizing lba with
  | nil => rfl
  | cons newState rest ih => exact and_congr (atomic_iff lba newState) (ih _)

/-- The state at the end of a run. -/
theorem utilState_runAll {lba : Lba σ} {reqs : List ℤ}
    (h : AllOk (Steady ops) (request ops) lba reqs) :
    (runAll (request ops) lba reqs).utilState = lastSucceeded ops lba lba.utilState reqs := by
  induction reqs generalizing lba with
  | nil => rfl
  | cons newState rest ih =>
    obtain ⟨hsteady, hrest⟩ := h
    rw [lastSucceeded, ← hsteady.utilState_request]
    exact ih hrest

/-- In a run of requests a failure leaves `util_state` alone and it names the operation that
    succeeded last, if and only if every operation that a legal request runs succeeds or is
    that of the state there is. -/
theorem changes_iff (ops : LbaUtilOps σ) (lba : Lba σ) (reqs : List ℤ) :
    Changes ops lba reqs ↔ AllOk (Steady ops) (request ops) lba reqs := by
  constructor
  · intro h
    exact (allOk_atomic_iff lba reqs).mp h.atomic
  · intro h
    refine ⟨(allOk_atomic_iff lba reqs).mpr h, ?_⟩
    rintro before after rfl
    exact utilState_runAll (allOk_append.mp h).1

/-- A device on which every operation fails. -/
def brokenOps : LbaUtilOps Unit :=
  ⟨fun d => (-5, d), fun d => (-5, d), fun d => (-5, d), fun d => (-5, d)⟩

/-- INIT fails on it, and is the state afterwards. -/
theorem not_changes_broken : ¬ Changes brokenOps ⟨.unk, ()⟩ [LbaUtilStates.init.code] := by
  intro h
  have hstate : (request brokenOps LbaUtilStates.init.code ⟨.unk, ()⟩).utilState = .unk :=
    h.atomic.1 (by decide)
  revert hstate
  decide

end Pcitop.Driver
