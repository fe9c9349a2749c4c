import Pcitop.Common.Family

/-!
# Merged lists of events

Several parties send events to one machine, each its own in its own order. What arrives is
a list of events with their senders, whose part of one sender is what that one sent.

* `allOk_iff_isChain`: for events that need a level and leave one, whether a list is in
  order is a matter of neighbours.
* `isChain_iff_of_parts`: if every sender keeps to a relation between neighbours, what is
  left to look at are neighbours of different senders.
-/

namespace Pcitop.Common

/-! ## Levels -/

/-- The events of `P` are in order from the level they need on, and leave a level of their
    own. -/
structure Levels {σ ε : Type} (ok : σ → ε → Prop) (step : ε → σ → σ) (P : ε → Prop)
    (level : σ → ℕ) (needs leaves : ε → ℕ) : Prop where
  ok_iff : ∀ {s e}, P e → (ok s e ↔ needs e ≤ level s)
  level_step : ∀ {s e}, P e → ok s e → level (step e s) = leaves e

section Levels

variable {σ ε : Type} {ok : σ → ε → Prop} {step : ε → σ → σ} {P : ε → Prop} {level : σ → ℕ}
  {needs leaves : ε → ℕ}

theorem allOk_iff_isChain (h : Levels ok step P level needs leaves) {s : σ} {es : List ε}
    (hP : ∀ e ∈ es, P e) :
    AllOk ok step s es ↔
      (∀ e ∈ es.head?, needs e ≤ level s) ∧ es.IsChain fun e e' => needs e' ≤ leaves e := by
  induction es generalizing s with
  | nil => simp [AllOk]
  | cons e es ih =>
    obtain ⟨he, hes⟩ := List.forall_mem_cons.mp hP
    have hhead : (∀ e' ∈ (e :: es).head?, needs e' ≤ level s) ↔ ok s e := by
      rw [h.ok_iff he]
      simp
    rw [AllOk, ih hes, hhead, List.isChain_cons]
    refine and_congr_right fun hok => ?_
    rw [h.level_step he hok]

end Levels

/-! ## Parts -/

section Parts

variable {κ ε : Type} [DecidableEq κ]

/-- What one sender sent. -/
def part (p : κ) (arrivals : List (κ × ε)) : List ε :=
  (arrivals.filter fun a => a.1 = p).map Prod.snd

theorem part_append (p : κ) (as bs : List (κ × ε)) :
    part p (as ++ bs) = part p as ++ part p bs := by
  rw [part, List.filter_append, List.map_append]
  rfl

theorem part_cons (p : κ) (a : κ × ε) (as : List (κ × ε)) :
    part p (a :: as) = if a.1 = p then a.2 :: part p as else part p as := by
  rw [part, List.filter_cons]
  simp only [decide_eq_true_eq]
  split_ifs <;> rfl

theorem mem_part {p : κ} {e : ε} {arrivals : List (κ × ε)} :
    e ∈ part p arrivals ↔ (p, e) ∈ arrivals := by
  simp only [part, List.mem_map, List.mem_filter, decide_eq_true_eq]
  constructor
  · rintro ⟨a, ⟨ha, rfl⟩, rfl⟩
    exact ha
  · exact fun h => ⟨(p, e), ⟨h, rfl⟩, rfl⟩

/-- Neighbours of one sender are neighbours in what it sent. -/
theorem isChain_iff_of_parts {R : ε → ε → Prop} {arrivals : List (κ × ε)}
    (h : ∀ p, (part p arrivals).IsChain R) :
    (arrivals.map Prod.snd).IsChain R ↔
      ∀ before a b after, arrivals = before ++ a :: b :: after → a.1 ≠ b.1 → R a.2 b.2 := by
  rw [List.isChain_map, List.isChain_iff_forall_rel_of_append_cons_cons]
  constructor
  · exact fun hR before a b after harr _ => hR harr
  · intro hR a b before after harr
    by_cases hab : a.1 = b.1
    · have hpart := h a.1
      rw [harr, part_append, part_cons, part_cons, if_pos rfl, if_pos hab.symm] at hpart
      exact (List.isChain_append_cons_cons.mp hpart).2.1
    · exact hR before a b after harr hab

end Parts

end Pcitop.Common
