import Mathlib

/-!
# A signal that can be blocked

A program takes steps, and a signal may arrive before any of them. It is caught at once,
or, while it is blocked, when it is unblocked again. A schedule says before which steps it
arrives.

* `Caught.run_keep`, `Held.run_keep`: steps that leave the mask as it is.
* `Caught.block`, `Held.unblock`: what is caught lags behind what has arrived only
  between the two.
-/

namespace Pcitop.Common

/-- What a step does to the mask. -/
inductive MaskStep where
  | keep
  | block
  | unblock
  deriving DecidableEq, Repr

/-- The signal as the program has it. -/
structure Delivery where
  blocked : Bool
  pending : Bool
  /-- The handler has run. -/
  caught : Bool
  deriving DecidableEq, Repr

/-- Some signal has arrived before the step `t` or earlier ones. -/
def arrivedBy (arrives : ℕ → Bool) (t : ℕ) : Bool := (List.range t).any arrives

theorem arrivedBy_succ (arrives : ℕ → Bool) (t : ℕ) :
    arrivedBy arrives (t + 1) = (arrivedBy arrives t || arrives t) := by
  rw [arrivedBy, List.range_succ, List.any_append]
  simp [arrivedBy]

theorem arrivedBy_eq_true_iff {arrives : ℕ → Bool} {t : ℕ} :
    arrivedBy arrives t = true ↔ ∃ i < t, arrives i = true := by
  simp [arrivedBy]

namespace Delivery

/-- A signal arrives. -/
def arrive (d : Delivery) : Delivery :=
  if d.blocked then { d with pending := true } else { d with caught := true }

/-- The signal before the step `t`. -/
def poll (arrives : ℕ → Bool) (t : ℕ) (d : Delivery) : Delivery :=
  if arrives t then d.arrive else d

/-- A step. -/
def exec (d : Delivery) : MaskStep → Delivery
  | .keep => d
  | .block => { d with blocked := true }
  | .unblock => ⟨false, false, d.caught || d.pending⟩

/-- Some steps, the first of which is the step `t`. -/
def run (arrives : ℕ → Bool) : ℕ → List MaskStep → Delivery → Delivery
  | _, [], d => d
  | t, m :: ms, d => run arrives (t + 1) ms ((d.poll arrives t).exec m)

variable {arrives : ℕ → Bool} {b t : ℕ} {d : Delivery}

theorem run_append (ms ms' : List MaskStep) :
    run arrives t (ms ++ ms') d = run arrives (t + ms.length) ms' (run arrives t ms d) := by
  induction ms generalizing t d with
  | nil => rfl
  | cons m ms ih =>
    rw [List.cons_append, run, ih, run, List.length_cons, Nat.add_assoc, Nat.add_comm 1]

/-- Before the step `t` all that has arrived is caught. -/
structure Caught (arrives : ℕ → Bool) (t : ℕ) (d : Delivery) : Prop where
  blocked : d.blocked = false
  pending : d.pending = false
  caught : d.caught = arrivedBy arrives t

/-- What arrived before the step `b` is caught and what arrived later is held back. -/
structure Held (arrives : ℕ → Bool) (b t : ℕ) (d : Delivery) : Prop where
  blocked : d.blocked = true
  caught : d.caught = arrivedBy arrives b
  pending : (d.caught || d.pending) = arrivedBy arrives t

theorem Caught.eq (h : Caught arrives t d) : d = ⟨false, false, arrivedBy arrives t⟩ := by
  obtain ⟨blocked, pending, caught⟩ := d
  obtain ⟨rfl, rfl, rfl⟩ := h
  rfl

theorem Caught.poll (h : Caught arrives t d) : Caught arrives (t + 1) (d.poll arrives t) := by
  unfold Delivery.poll arrive
  split_ifs with ha hb
  · exact absurd hb (by simp [h.blocked])
  · exact ⟨h.blocked, h.pending, by rw [arrivedBy_succ, ha, Bool.or_true]⟩
  · refine ⟨h.blocked, h.pending, ?_⟩
    rw [arrivedBy_succ, Bool.eq_false_of_not_eq_true ha, Bool.or_false, h.caught]

theorem Held.poll (h : Held arrives b t d) : Held arrives b (t + 1) (d.poll arrives t) := by
  unfold Delivery.poll arrive
  split_ifs with ha hb
  · exact ⟨h.blocked, h.caught, by rw [arrivedBy_succ, ha, Bool.or_true, Bool.or_true]⟩
  · exact absurd h.blocked hb
  · refine ⟨h.blocked, h.caught, ?_⟩
    rw [arrivedBy_succ, Bool.eq_false_of_not_eq_true ha, Bool.or_false, h.pending]

theorem Caught.run_keep (h : Caught arrives t d) {ms : List MaskStep} (hms : ∀ m ∈ ms, m = .keep) :
    Caught arrives (t + ms.length) (run arrives t ms d) := by
  induction ms generalizing t d with
  | nil => exact h
  | cons m ms ih =>
    obtain rfl := hms m List.mem_cons_self
    have ih := ih h.poll fun m hm => hms m (List.mem_cons_of_mem _ hm)
    rwa [Nat.add_assoc, Nat.add_comm 1] at ih

theorem Held.run_keep (h : Held arrives b t d) {ms : List MaskStep} (hms : ∀ m ∈ ms, m = .keep) :
    Held arrives b (t + ms.length) (run arrives t ms d) := by
  induction ms generalizing t d with
  | nil => exact h
  | cons m ms ih =>
    obtain rfl := hms m List.mem_cons_self
    have ih := ih h.poll fun m hm => hms m (List.mem_cons_of_mem _ hm)
    rwa [Nat.add_assoc, Nat.add_comm 1] at ih

theorem Caught.block (h : Caught arrives t d) :
    Held arrives (t + 1) (t + 1) (run arrives t [.block] d) := by
  refine ⟨rfl, h.poll.caught, ?_⟩
  show ((d.poll arrives t).caught || (d.poll arrives t).pending) = _
  rw [h.poll.pending, Bool.or_false]
  exact h.poll.caught

theorem Caught.unblock (h : Caught arrives t d) :
    Caught arrives (t + 1) (run arrives t [.unblock] d) := by
  refine ⟨rfl, rfl, ?_⟩
  show ((d.poll arrives t).caught || (d.poll arrives t).pending) = _
  rw [h.poll.pending, Bool.or_false]
  exact h.poll.caught

theorem Held.unblock (h : Held arrives b t d) :
    Caught arrives (t + 1) (run arrives t [.unblock] d) :=
  ⟨rfl, rfl, h.poll.pending⟩

end Delivery

end Pcitop.Common
