import Mathlib

/-!
# Ladders

Commands stand on rungs, and a command may be given when it stands at most one
rung above the command given last, the ground being rung 0. Going down is
always allowed. The command on rung 1 can therefore always be given, and a
command on a higher rung only after every rung below it has been climbed.

* `Climbs.exists_rung`: every rung up to the current one was reached, and no
  command below it was given since.
* `Climbs.preceded`: when a command is given, the rung below it was reached and
  not left downwards since.
-/

namespace Pcitop.Common

variable {α : Type} (rank : α → ℕ)

/-- The rung of the last command of a history, or the ground. -/
def rung (h : List α) : ℕ := (h.getLast?.map rank).getD 0

@[simp] theorem rung_nil : rung rank [] = 0 := rfl

@[simp] theorem rung_append_singleton (h : List α) (c : α) : rung rank (h ++ [c]) = rank c := by
  simp [rung]

/-- Histories in which every command was allowed when it was given. -/
inductive Climbs : List α → Prop where
  | nil : Climbs []
  | snoc {h : List α} {c : α} : Climbs h → rank c ≤ rung rank h + 1 → Climbs (h ++ [c])

variable {rank}

theorem climbs_append_singleton {h : List α} {c : α} :
    Climbs rank (h ++ [c]) ↔ Climbs rank h ∧ rank c ≤ rung rank h + 1 := by
  constructor
  · intro hc
    generalize hl : h ++ [c] = l at hc
    cases hc with
    | nil => simp at hl
    | snoc hh hr =>
      obtain ⟨rfl, rfl⟩ := List.append_inj' hl rfl |>.imp id List.singleton_inj.mp
      exact ⟨hh, hr⟩
  · rintro ⟨hh, hr⟩
    exact .snoc hh hr

theorem Climbs.of_append {h t : List α} (hc : Climbs rank (h ++ t)) : Climbs rank h := by
  induction t using List.reverseRecOn with
  | nil => simpa using hc
  | append_singleton t c ih =>
    rw [← List.append_assoc, climbs_append_singleton] at hc
    exact ih hc.1

/-- Every rung up to the current one was reached by a command, and no command
    below that rung was given since. -/
theorem Climbs.exists_rung {h : List α} (hc : Climbs rank h) {q : ℕ} (h1 : 1 ≤ q)
    (hq : q ≤ rung rank h) :
    ∃ a c b, h = a ++ c :: b ∧ rank c = q ∧ ∀ x ∈ b, q ≤ rank x := by
  induction hc with
  | nil => simp at hq; omega
  | @snoc h c hh hr ih =>
    rw [rung_append_singleton] at hq
    rcases Nat.eq_or_lt_of_le hq with rfl | hlt
    · exact ⟨h, c, [], rfl, rfl, by simp⟩
    · obtain ⟨a, d, b, rfl, hd, hb⟩ := ih (by omega)
      refine ⟨a, d, b ++ [c], by simp, hd, ?_⟩
      intro x hx
      rcases List.mem_append.mp hx with hx | hx
      · exact hb x hx
      · rw [List.mem_singleton.mp hx]; omega

/-- When a command above rung 1 is given, the rung below it was reached and not
    left downwards since. -/
theorem Climbs.preceded {h t : List α} {c : α} (hc : Climbs rank (h ++ c :: t))
    (h2 : 2 ≤ rank c) :
    ∃ a d b, h = a ++ d :: b ∧ rank d = rank c - 1 ∧ ∀ x ∈ b, rank c - 1 ≤ rank x := by
  have hpre : Climbs rank (h ++ [c]) := Climbs.of_append (t := t) (by simpa using hc)
  obtain ⟨hh, hr⟩ := climbs_append_singleton.mp hpre
  exact hh.exists_rung (by omega) (by omega)

end Pcitop.Common
