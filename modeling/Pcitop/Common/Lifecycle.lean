import Pcitop.Common.Family

/-!
# Registering and unregistering

A program registers objects with its host and unregisters them again. What it did is a
list of calls, and an object is registered after them if the last call for it says so.

* `orderly_iff`: no object is unregistered that is not registered, one call at a time.
* `orderly_map`, `registered_map`: a program that registers the objects of one list and
  then unregisters those of another.
* `foldlM_inv`: an invariant of a loop that may break off.
-/

namespace Pcitop.Common

/-- A call to the host. -/
inductive Registration (α : Type) where
  | register (a : α)
  | unregister (a : α)
  deriving DecidableEq, Repr

section Registration

variable {α : Type}

/-- The registered objects after one more call. -/
def Registration.step : Registration α → Set α → Set α
  | .register a, s => insert a s
  | .unregister a, s => s \ {a}

/-- An object that is unregistered is one of the registered ones. -/
def Registration.Ok (s : Set α) : Registration α → Prop
  | .register _ => True
  | .unregister a => a ∈ s

/-- The objects that are registered after some calls. -/
def registered (calls : List (Registration α)) : Set α := runAll Registration.step ∅ calls

/-- No object is unregistered that is not registered at that moment. -/
def Orderly (calls : List (Registration α)) : Prop :=
  ∀ before a after, calls = before ++ .unregister a :: after → a ∈ registered before

theorem orderly_iff {calls : List (Registration α)} :
    Orderly calls ↔ AllOk Registration.Ok Registration.step ∅ calls := by
  constructor
  · intro h
    apply AllOk.of_forall
    intro before call after heq
    cases call with
    | register a => trivial
    | unregister a => exact h before a after heq
  · rintro h before a after rfl
    exact h.of_append

/-! ## Lists of calls -/

theorem runAll_register (s : Set α) (as : List α) :
    runAll Registration.step s (as.map .register) = s ∪ {a | a ∈ as} := by
  induction as generalizing s with
  | nil => simp [runAll]
  | cons a as ih =>
    show runAll Registration.step (insert a s) (as.map .register) = _
    rw [ih]
    ext b
    simp only [Set.mem_union, Set.mem_insert_iff, Set.mem_ofPred_eq, List.mem_cons]
    tauto

theorem runAll_unregister (s : Set α) (as : List α) :
    runAll Registration.step s (as.map .unregister) = s \ {a | a ∈ as} := by
  induction as generalizing s with
  | nil => simp [runAll]
  | cons a as ih =>
    show runAll Registration.step (s \ {a}) (as.map .unregister) = _
    rw [ih]
    ext b
    simp only [Set.mem_sdiff, Set.mem_singleton_iff, Set.mem_ofPred_eq, List.mem_cons]
    tauto

theorem allOk_register (s : Set α) (as : List α) :
    AllOk Registration.Ok Registration.step s (as.map .register) := by
  induction as generalizing s with
  | nil => trivial
  | cons a as ih => exact ⟨trivial, ih _⟩

/-- Objects are unregistered one after the other if they are registered and none comes
    twice. -/
theorem allOk_unregister_iff (s : Set α) (as : List α) :
    AllOk Registration.Ok Registration.step s (as.map .unregister) ↔
      as.Nodup ∧ ∀ a ∈ as, a ∈ s := by
  induction as generalizing s with
  | nil => simp [AllOk]
  | cons a as ih =>
    show a ∈ s ∧ AllOk Registration.Ok Registration.step (s \ {a}) (as.map .unregister) ↔ _
    rw [ih, List.nodup_cons, List.forall_mem_cons]
    constructor
    · rintro ⟨ha, hnodup, hmem⟩
      refine ⟨⟨fun h => (hmem a h).2 rfl, hnodup⟩, ha, fun b hb => (hmem b hb).1⟩
    · rintro ⟨⟨hnot, hnodup⟩, ha, hmem⟩
      exact ⟨ha, hnodup, fun b hb => ⟨hmem b hb, fun heq => hnot (heq ▸ hb)⟩⟩

/-- What is registered after the objects `as` and without the objects `bs`. -/
theorem registered_map (as bs : List α) :
    registered (as.map .register ++ bs.map .unregister) = {a | a ∈ as ∧ a ∉ bs} := by
  rw [registered, runAll, List.foldl_append]
  show runAll Registration.step (runAll Registration.step ∅ (as.map .register))
    (bs.map .unregister) = _
  rw [runAll_register, runAll_unregister, Set.empty_union]
  rfl

theorem registered_register (as : List α) : registered (as.map .register) = {a | a ∈ as} := by
  rw [registered, runAll_register, Set.empty_union]

/-- After the objects `as` those in `bs` can be unregistered. -/
theorem orderly_map {as bs : List α} :
    Orderly (as.map Registration.register ++ bs.map Registration.unregister) ↔
      bs.Nodup ∧ ∀ b ∈ bs, b ∈ as := by
  rw [orderly_iff, allOk_append, runAll_register, allOk_unregister_iff, Set.empty_union]
  exact and_iff_right (allOk_register _ as)

theorem orderly_register (as : List α) : Orderly (as.map Registration.register) :=
  orderly_iff.mpr (allOk_register _ as)

/-- Each of `bs` is unregistered once. -/
theorem count_unregister [DecidableEq α] {bs : List α} (hnodup : bs.Nodup) {b : α}
    (hb : b ∈ bs) : (bs.map Registration.unregister).count (.unregister b) = 1 := by
  rw [List.count_map_of_injective bs Registration.unregister fun a b h =>
    Registration.unregister.inj h]
  exact List.count_eq_one_of_mem hnodup hb

end Registration

/-! ## Loops that break off -/

section Loop

variable {σ ε : Type} {step : σ → ε → Except σ σ}

/-- The state in which a loop ends or breaks off. -/
def final : Except σ σ → σ
  | .ok s => s
  | .error s => s

/-- What every step preserves holds where the loop ends or breaks off. -/
theorem foldlM_inv {P : σ → Prop} (h : ∀ s e, P s → P (final (step s e))) (es : List ε) {s : σ}
    (hs : P s) : P (final (es.foldlM step s)) := by
  induction es generalizing s with
  | nil => exact hs
  | cons e es ih =>
    have hstep := h s e hs
    rw [List.foldlM_cons]
    cases he : step s e with
    | error s' =>
      rw [he] at hstep
      exact hstep
    | ok s' =>
      rw [he] at hstep
      exact ih hstep

end Loop

/-- A loop in a loop visits one list. -/
theorem foldlM_flatMap {m : Type → Type} [Monad m] [LawfulMonad m] {α β γ : Type}
    (f : γ → β → m γ) (g : α → List β) (as : List α) (c : γ) :
    (as.flatMap g).foldlM f c = as.foldlM (fun c a => (g a).foldlM f c) c := by
  induction as generalizing c with
  | nil => rfl
  | cons a as ih =>
    rw [List.flatMap_cons, List.foldlM_append, List.foldlM_cons]
    congr 1
    funext c'
    exact ih c'

end Pcitop.Common
