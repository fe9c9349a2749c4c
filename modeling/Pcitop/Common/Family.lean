import Mathlib

/-!
# Families of state machines

A family has one state for every index, and every event moves the state of the one
index it is addressed to. What happens at an index depends only on the events
addressed to it.

* `deliverAll_apply`: the state of an index after a list of events.
* `AllOk.of_append`: an event of a list that is in order at every step was in order
  when it arrived.
* `ok_of_forall_index`, `forall_index_of_ok`: to have every event in order, look at one index
  at a time.
-/

namespace Pcitop.Common

/-! ## One machine -/

section Machine

variable {σ ε : Type} (ok : σ → ε → Prop) (step : ε → σ → σ)

/-- The state after a list of events. -/
def runAll (s : σ) (es : List ε) : σ := es.foldl (fun s e => step e s) s

/-- Every event of a list is in order in the state in which it arrives. -/
def AllOk : σ → List ε → Prop
  | _, [] => True
  | s, e :: es => ok s e ∧ AllOk (step e s) es

variable {ok step}

theorem allOk_append {s : σ} {es es' : List ε} :
    AllOk ok step s (es ++ es') ↔
      AllOk ok step s es ∧ AllOk ok step (runAll step s es) es' := by
  induction es generalizing s with
  | nil => simp [AllOk, runAll]
  | cons e es ih =>
    simp only [List.cons_append, AllOk, ih, and_assoc]
    rfl

theorem AllOk.of_append {s : σ} {before after : List ε} {e : ε}
    (h : AllOk ok step s (before ++ e :: after)) : ok (runAll step s before) e :=
  (allOk_append.mp h).2.1

/-- Every event is in order if each one is after those before it. -/
theorem AllOk.of_forall {s : σ} {es : List ε}
    (h : ∀ before e after, es = before ++ e :: after → ok (runAll step s before) e) :
    AllOk ok step s es := by
  induction es generalizing s with
  | nil => trivial
  | cons e es ih =>
    refine ⟨h [] e es rfl, ih ?_⟩
    rintro before e' after rfl
    exact h (e :: before) e' after rfl

end Machine

/-! ## A family -/

section Family

variable {κ σ ε : Type} [DecidableEq κ] (target : ε → κ) (step : κ → ε → σ → σ)

/-- The states after a list of events. -/
def deliverAll (d : κ → σ) (es : List ε) : κ → σ :=
  es.foldl (fun d e => Function.update d (target e) (step (target e) e (d (target e)))) d

variable {target step}

/-- An index sees the events addressed to it. -/
theorem deliverAll_apply (d : κ → σ) (es : List ε) (q : κ) :
    deliverAll target step d es q = runAll (step q) (d q) (es.filter fun e => target e = q) := by
  induction es generalizing d with
  | nil => rfl
  | cons e es ih =>
    rw [deliverAll, List.foldl_cons, ← deliverAll, ih, List.filter_cons]
    by_cases hq : target e = q
    · subst hq
      simp [runAll]
    · rw [Function.update_of_ne (Ne.symm hq), if_neg (by simpa using hq)]

/-- If the events addressed to each index are in order there, every event of the
    list is in order when it arrives. -/
theorem ok_of_forall_index {ok : κ → σ → ε → Prop} {d : κ → σ} {es : List ε}
    (h : ∀ q, AllOk (ok q) (step q) (d q) (es.filter fun e => target e = q))
    {before after : List ε} {e : ε} (hes : es = before ++ e :: after) :
    ok (target e) (deliverAll target step d before (target e)) e := by
  have hq := h (target e)
  rw [hes, List.filter_append, List.filter_cons, if_pos (by simp)] at hq
  rw [deliverAll_apply]
  exact hq.of_append

/-- If every event of a list is in order when it arrives, so are those addressed to each
    index, there. -/
theorem forall_index_of_ok {ok : κ → σ → ε → Prop} {d : κ → σ} {es : List ε}
    (h : ∀ before e after, es = before ++ e :: after →
      ok (target e) (deliverAll target step d before (target e)) e) (q : κ) :
    AllOk (ok q) (step q) (d q) (es.filter fun e => target e = q) := by
  induction es generalizing d with
  | nil => trivial
  | cons e es ih =>
    have hrest : ∀ before e' after, es = before ++ e' :: after → ok (target e') (deliverAll target
        step (Function.update d (target e) (step (target e) e (d (target e)))) before (target e'))
        e' := by
      rintro before e' after rfl
      exact h (e :: before) e' after rfl
    have hes := ih hrest
    by_cases hq : target e = q
    · subst hq
      rw [Function.update_self] at hes
      rw [List.filter_cons_of_pos (by simp)]
      exact ⟨h [] e es rfl, hes⟩
    · rw [Function.update_of_ne (Ne.symm hq)] at hes
      rwa [List.filter_cons_of_neg (by simpa using hq)]

end Family

end Pcitop.Common
