import Mathlib

/-!
# Doubly linked rings

Nodes point to a next and a previous node. A ring is a cycle of distinct nodes in which the
two links agree, and a linked list is the ring of a head and its items.

* `Ring.rotate`: any node of a ring may be taken for its head.
* `Ring.insert`, `Ring.remove`: what has to be linked for one node more or less.
* `Sound.lt_card`: a walk along links that agree ends before it is out of nodes.
* `Ring.sound`, `Sound.ring`: it is a ring when it comes back.
* `Rings.update`: rings that share no node, one of which is changed.
-/

namespace Pcitop.Common

/-- The links of the nodes at the addresses `ν`. -/
structure Links (ν : Type) where
  next : ν → ν
  prev : ν → ν

namespace Links

variable {ν : Type}

/-! ## Assignments -/

section Assign

variable [DecidableEq ν]

/-- `a->next = b`. -/
def setNext (s : Links ν) (a b : ν) : Links ν := { s with next := Function.update s.next a b }

/-- `a->prev = b`. -/
def setPrev (s : Links ν) (a b : ν) : Links ν := { s with prev := Function.update s.prev a b }

@[simp] theorem next_setNext (s : Links ν) (a b x : ν) :
    (s.setNext a b).next x = if x = a then b else s.next x :=
  Function.update_apply s.next a b x

@[simp] theorem prev_setNext (s : Links ν) (a b x : ν) : (s.setNext a b).prev x = s.prev x := rfl

@[simp] theorem next_setPrev (s : Links ν) (a b x : ν) : (s.setPrev a b).next x = s.next x := rfl

@[simp] theorem prev_setPrev (s : Links ν) (a b x : ν) :
    (s.setPrev a b).prev x = if x = a then b else s.prev x :=
  Function.update_apply s.prev a b x

end Assign

/-! ## One ring -/

section Ring

variable {s s' : Links ν} {h n : ν} {ns xs ys : List ν}

/-- Two nodes point to each other. -/
def Linked (s : Links ν) (a b : ν) : Prop := s.next a = b ∧ s.prev b = a

/-- The ring of a head and its items, in order. -/
structure Ring (s : Links ν) (h : ν) (ns : List ν) : Prop where
  chain : Cycle.Chain s.Linked ((h :: ns : List ν) : Cycle ν)
  nodup : (h :: ns).Nodup

theorem Ring.isChain (hr : s.Ring h ns) : (h :: (ns ++ [h])).IsChain s.Linked :=
  (Cycle.chain_coe_cons _ _ _).mp hr.chain

theorem Ring.of_isChain (hc : (h :: (ns ++ [h])).IsChain s.Linked) (hnodup : (h :: ns).Nodup) :
    s.Ring h ns :=
  ⟨(Cycle.chain_coe_cons _ _ _).mpr hc, hnodup⟩

/-- Links that are not looked at make no difference to a chain. -/
theorem isChain_congr {l : List ν} (hc : l.IsChain s.Linked)
    (hnext : ∀ x ∈ l.dropLast, s'.next x = s.next x)
    (hprev : ∀ y ∈ l.tail, s'.prev y = s.prev y) : l.IsChain s'.Linked := by
  induction l with
  | nil => exact .nil
  | cons a l ih =>
    cases l with
    | nil => exact .singleton a
    | cons b l =>
      rw [List.isChain_cons_cons] at hc ⊢
      obtain ⟨⟨hab, hba⟩, hc⟩ := hc
      refine ⟨⟨?_, ?_⟩, ih hc (fun x hx => hnext x ?_) fun y hy => hprev y ?_⟩
      · rw [hnext a (by simp), hab]
      · rw [hprev b (by simp), hba]
      · rw [List.dropLast_cons_cons]
        exact List.mem_cons_of_mem _ hx
      · exact List.mem_cons_of_mem _ hy

theorem Ring.congr (hr : s.Ring h ns)
    (hsame : ∀ x ∈ h :: ns, s'.next x = s.next x ∧ s'.prev x = s.prev x) : s'.Ring h ns := by
  refine .of_isChain (isChain_congr hr.isChain ?_ ?_) hr.nodup
  · intro x hx
    rw [← List.cons_append, List.dropLast_concat] at hx
    exact (hsame x hx).1
  · intro y hy
    rw [List.tail_cons, List.mem_append, List.mem_singleton] at hy
    exact (hsame y (List.mem_cons.mpr hy.symm)).2

/-- Any node of a ring may be taken for its head. -/
theorem Ring.rotate (hr : s.Ring h (xs ++ n :: ys)) : s.Ring n (ys ++ h :: xs) := by
  have hrot : (h :: (xs ++ n :: ys)) ~r (n :: (ys ++ h :: xs)) := by
    rw [← List.cons_append, ← List.cons_append]
    exact List.isRotated_append
  refine ⟨?_, hrot.nodup_iff.mp hr.nodup⟩
  rw [← Cycle.coe_eq_coe.mpr hrot]
  exact hr.chain

theorem Ring.linked_head (hr : s.Ring h (n :: ns)) : s.Linked h n :=
  (List.isChain_cons_cons.mp hr.isChain).1

theorem Ring.linked_last (hr : s.Ring h (ns ++ [n])) : s.Linked n h := by
  have hrot : s.Ring n (h :: ns) := hr.rotate
  exact hrot.linked_head

/-- A head alone points to itself. -/
theorem ring_nil_iff : s.Ring h [] ↔ s.Linked h h := by
  constructor
  · exact fun hr => (List.isChain_cons_cons.mp hr.isChain).1
  · exact fun hl => .of_isChain (List.isChain_cons_cons.mpr ⟨hl, .singleton h⟩)
      (List.nodup_singleton h)

theorem Ring.next_eq_self_iff (hr : s.Ring h ns) : s.next h = h ↔ ns = [] := by
  cases ns with
  | nil => exact ⟨fun _ => rfl, fun _ => (ring_nil_iff.mp hr).1⟩
  | cons n ns =>
    rw [hr.linked_head.1]
    refine ⟨fun heq => ?_, fun heq => absurd heq (by simp)⟩
    exact absurd hr.nodup (by simp [heq])

theorem Ring.next_mem (hr : s.Ring h ns) : s.next h ∈ h :: ns := by
  cases ns with
  | nil => exact List.mem_singleton.mpr (ring_nil_iff.mp hr).1
  | cons n ns =>
    rw [hr.linked_head.1]
    simp

theorem Ring.prev_mem (hr : s.Ring h ns) : s.prev h ∈ h :: ns := by
  obtain rfl | ⟨init, a, rfl⟩ := List.eq_nil_or_concat' ns
  · exact List.mem_singleton.mpr (ring_nil_iff.mp hr).2
  · rw [hr.linked_last.2]
    simp

/-- The node after an item is the next item, or the head. -/
theorem Ring.next_item (hr : s.Ring h (xs ++ n :: ys)) :
    some (s.next n) = (ys ++ [h]).head? := by
  cases ys with
  | nil => exact congrArg some hr.linked_last.1
  | cons y ys =>
    have hrot : s.Ring n (y :: (ys ++ h :: xs)) := hr.rotate
    exact congrArg some hrot.linked_head.1

/-- A node linked in behind the head. -/
theorem Ring.insert (hr : s.Ring h ns) (hn : n ∉ h :: ns) (h₁ : s'.Linked h n)
    (h₂ : s'.Linked n (s.next h))
    (hnext : ∀ x, x ≠ h → x ≠ n → s'.next x = s.next x)
    (hprev : ∀ x, x ≠ s.next h → x ≠ n → s'.prev x = s.prev x) : s'.Ring h (n :: ns) := by
  obtain ⟨b, t, ht⟩ : ∃ b t, ns ++ [h] = b :: t := List.exists_cons_of_ne_nil (by simp)
  have hc := hr.isChain
  rw [ht, List.isChain_cons_cons] at hc
  obtain ⟨⟨hb, -⟩, hc⟩ := hc
  -- Every node is pointed from once and pointed to once.
  have hnodup : (b :: t).Nodup := by
    rw [← ht]
    exact (List.perm_append_singleton h ns).nodup_iff.mpr hr.nodup
  have hmem : ∀ x, x ∈ b :: t ↔ x ∈ h :: ns := by
    intro x
    rw [← ht]
    exact (List.perm_append_singleton h ns).mem_iff
  have hdrop : (b :: t).dropLast = ns := by rw [← ht, List.dropLast_concat]
  have hh : h ∉ ns := (List.nodup_cons.mp hr.nodup).1
  refine .of_isChain ?_ ?_
  · rw [List.cons_append, ht, List.isChain_cons_cons, List.isChain_cons_cons]
    refine ⟨h₁, hb ▸ h₂, isChain_congr hc ?_ ?_⟩
    · intro x hx
      rw [hdrop] at hx
      refine hnext x (fun heq => hh (heq ▸ hx)) fun heq => hn ?_
      exact heq ▸ List.mem_cons_of_mem _ hx
    · intro y hy
      rw [List.tail_cons] at hy
      refine hprev y (fun heq => ?_) fun heq => hn ?_
      · rw [hb] at heq
        exact (List.nodup_cons.mp hnodup).1 (heq ▸ hy)
      · exact heq ▸ (hmem y).mp (List.mem_cons_of_mem _ hy)
  · refine (List.Perm.swap h n ns).nodup_iff.mp (List.nodup_cons.mpr ⟨hn, hr.nodup⟩)

/-- The head taken out, when its neighbours are linked instead. -/
theorem Ring.remove {b : ν} (hr : s.Ring n (b :: ns)) (hl : s'.Linked (s.prev n) b)
    (hnext : ∀ x, x ≠ s.prev n → x ≠ n → s'.next x = s.next x)
    (hprev : ∀ x, x ≠ b → x ≠ n → s'.prev x = s.prev x) : s'.Ring b ns := by
  obtain ⟨init, a, ha⟩ : ∃ init a, b :: ns = init ++ [a] := by
    obtain heq | ⟨init, a, heq⟩ := List.eq_nil_or_concat (b :: ns)
    · exact absurd heq (by simp)
    · exact ⟨init, a, by rw [heq, List.concat_eq_append]⟩
  have hpa : s.prev n = a := (ha ▸ hr : s.Ring n (init ++ [a])).linked_last.2
  obtain ⟨hn, hnodup⟩ := List.nodup_cons.mp hr.nodup
  have hc : (b :: ns).IsChain s.Linked := by
    have hc := hr.isChain
    rw [List.cons_append, List.isChain_cons_cons, ← List.cons_append] at hc
    exact (List.isChain_append.mp hc.2).1
  have hc' : (b :: ns).IsChain s'.Linked := by
    refine isChain_congr hc ?_ ?_
    · intro x hx
      rw [ha, List.dropLast_concat] at hx
      have hxs : x ∈ b :: ns := ha ▸ List.mem_append_left _ hx
      refine hnext x (fun heq => ?_) fun heq => hn (heq ▸ hxs)
      rw [ha] at hnodup
      exact (List.nodup_append.mp hnodup).2.2 x hx a (List.mem_singleton_self a) (heq.trans hpa)
    · intro y hy
      rw [List.tail_cons] at hy
      refine hprev y (fun heq => ?_) fun heq => hn (heq ▸ List.mem_cons_of_mem _ hy)
      exact (List.nodup_cons.mp hnodup).1 (heq ▸ hy)
  refine .of_isChain ?_ hnodup
  rw [← List.cons_append, List.isChain_append]
  refine ⟨hc', .singleton b, ?_⟩
  intro x hx y hy
  rw [ha, List.getLast?_concat, Option.mem_some_iff] at hx
  rw [List.head?_cons, Option.mem_some_iff] at hy
  rw [← hx, ← hy, ← hpa]
  exact hl

end Ring

/-! ## Following the links -/

section Walk

variable {s : Links ν} {h : ν} {k : ℕ}

/-- On the first `k` steps from a node the links agree and do not come back to it. -/
def Sound (s : Links ν) (h : ν) (k : ℕ) : Prop :=
  ∀ i < k, s.next^[i + 1] h ≠ h ∧ s.prev (s.next^[i + 1] h) = s.next^[i] h

theorem Sound.succ (hs : s.Sound h k) (hne : s.next^[k + 1] h ≠ h)
    (hprev : s.prev (s.next^[k + 1] h) = s.next^[k] h) : s.Sound h (k + 1) := by
  intro i hi
  rcases Nat.lt_succ_iff_lt_or_eq.mp hi with hi | rfl
  · exact hs i hi
  · exact ⟨hne, hprev⟩

/-- Such a walk meets no node twice. -/
theorem Sound.iterate_ne (hs : s.Sound h k) {i j : ℕ} (hij : i < j) (hj : j ≤ k) :
    s.next^[i] h ≠ s.next^[j] h := by
  obtain ⟨j, rfl⟩ := Nat.exists_eq_add_one_of_ne_zero (Nat.ne_of_gt (Nat.zero_lt_of_lt hij))
  induction i generalizing j with
  | zero => exact (hs j (by omega)).1.symm
  | succ i ih =>
    intro heq
    obtain ⟨j, rfl⟩ := Nat.exists_eq_add_one_of_ne_zero (show j ≠ 0 by omega)
    refine ih j (by omega) (by omega) ?_
    rw [← (hs i (by omega)).2, ← (hs (j + 1) (by omega)).2, heq]

/-- The nodes of a walk. -/
def nodes (s : Links ν) (h : ν) (k : ℕ) : List ν :=
  (List.range k).map fun i => s.next^[i + 1] h

theorem cons_nodes (s : Links ν) (h : ν) (k : ℕ) :
    h :: s.nodes h k = (List.range (k + 1)).map fun i => s.next^[i] h := by
  rw [List.range_succ_eq_map, List.map_cons, List.map_map]
  rfl

theorem Sound.nodup (hs : s.Sound h k) : (h :: s.nodes h k).Nodup := by
  rw [cons_nodes]
  refine List.Nodup.map_on ?_ List.nodup_range
  intro i hi j hj heq
  rw [List.mem_range] at hi hj
  rcases Nat.lt_trichotomy i j with hij | hij | hij
  · exact absurd heq (hs.iterate_ne hij (by omega))
  · exact hij
  · exact absurd heq.symm (hs.iterate_ne hij (by omega))

/-- So it is shorter than there are nodes. -/
theorem Sound.lt_card [Fintype ν] (hs : s.Sound h k) : k < Fintype.card ν := by
  have hle := hs.nodup.length_le_card
  rw [cons_nodes, List.length_map, List.length_range] at hle
  exact hle

/-- It comes back or meets a link that does not agree. -/
theorem exists_end [Fintype ν] (s : Links ν) (h : ν) :
    ∃ m, s.Sound h m ∧ (s.next^[m + 1] h = h ∨ s.prev (s.next^[m + 1] h) ≠ s.next^[m] h) := by
  by_contra hno
  push Not at hno
  have hall : ∀ k, s.Sound h k := by
    intro k
    induction k with
    | zero => exact fun i hi => absurd hi (Nat.not_lt_zero i)
    | succ k ih => exact ih.succ (hno k ih).1 (hno k ih).2
  exact absurd (hall (Fintype.card ν)).lt_card (lt_irrefl _)

theorem Sound.isChain (hs : s.Sound h k) : (h :: s.nodes h k).IsChain s.Linked := by
  rw [cons_nodes, List.isChain_map, List.isChain_range]
  intro i hi
  exact ⟨(Function.iterate_succ_apply' s.next i h).symm, (hs i (by omega)).2⟩

/-- The steps from the head of a ring. -/
theorem Ring.iterate_next {ns : List ν} (hr : s.Ring h ns) {i : ℕ}
    (hi : i < (h :: (ns ++ [h])).length) : s.next^[i] h = (h :: (ns ++ [h]))[i] := by
  induction i with
  | zero => rfl
  | succ i ih =>
    rw [Function.iterate_succ_apply', ih (by omega)]
    exact (hr.isChain.getElem i hi).1

variable [DecidableEq ν]

/-- The walk around a ring, whatever the `prev` of its head. -/
theorem Ring.sound {ns : List ν} {v : ν} (hr : (s.setPrev h v).Ring h ns) :
    s.Sound h ns.length ∧ s.next^[ns.length + 1] h = h := by
  have hiter : ∀ {i} (hi : i < (h :: (ns ++ [h])).length), s.next^[i] h = (h :: (ns ++ [h]))[i] :=
    fun hi => hr.iterate_next hi
  refine ⟨fun i hi => ?_, ?_⟩
  · have hlt : i + 1 < (h :: (ns ++ [h])).length := by simp; omega
    have hitem : (h :: (ns ++ [h]))[i + 1] = ns[i] := by simp [List.getElem_append_left hi]
    have hne : s.next^[i + 1] h ≠ h := by
      rw [hiter hlt, hitem]
      exact fun heq => (List.nodup_cons.mp hr.nodup).1 (heq ▸ List.getElem_mem hi)
    have hprev := (hr.isChain.getElem i hlt).2
    rw [← hiter hlt, ← hiter (by omega), prev_setPrev, if_neg hne] at hprev
    exact ⟨hne, hprev⟩
  · rw [hiter (by simp)]
    simp

/-- A walk that comes back is a ring, but for the `prev` of its head. -/
theorem Sound.ring (hs : s.Sound h k) (hback : s.next^[k + 1] h = h) :
    (s.setPrev h (s.next^[k] h)).Ring h (s.nodes h k) := by
  have hlast : (h :: s.nodes h k).getLast? = some (s.next^[k] h) := by
    rw [cons_nodes, List.range_succ, List.map_append, List.map_singleton, List.getLast?_concat]
  refine .of_isChain ?_ hs.nodup
  rw [← List.cons_append, List.isChain_append]
  refine ⟨isChain_congr hs.isChain (fun x _ => rfl) fun y hy => ?_, .singleton h, ?_⟩
  · have hne : y ≠ h := fun heq => (List.nodup_cons.mp hs.nodup).1 (heq ▸ hy)
    rw [prev_setPrev, if_neg hne]
  · intro x hx y hy
    rw [hlast, Option.mem_some_iff] at hx
    rw [List.head?_cons, Option.mem_some_iff] at hy
    subst hx hy
    refine ⟨?_, by simp⟩
    rw [next_setPrev, ← Function.iterate_succ_apply' s.next, hback]

end Walk

/-! ## Rings side by side -/

section Rings

variable {s s' : Links ν} {w : ν → Option (List ν)} {h : ν} {ns : List ν}

/-- The rings of some heads with their items. No node is in two of them. -/
structure Rings (s : Links ν) (w : ν → Option (List ν)) : Prop where
  ring : ∀ {h ns}, w h = some ns → s.Ring h ns
  disjoint : ∀ {h h' ns ns' x}, w h = some ns → w h' = some ns' → x ∈ h :: ns → x ∈ h' :: ns' →
    h = h'

theorem rings_none (s : Links ν) : s.Rings fun _ => none :=
  ⟨fun hw => absurd hw (by simp), fun hw => absurd hw (by simp)⟩

/-- One ring is changed, within its own nodes and such as were in no ring, and nothing is
    written in the others. -/
theorem Rings.update [DecidableEq ν] (hr : s.Rings w) (hring : s'.Ring h ns)
    (hown : ∀ x ∈ h :: ns, ∀ h' ns', w h' = some ns' → x ∈ h' :: ns' → h' = h)
    (hframe : ∀ h' ns', w h' = some ns' → h' ≠ h → ∀ x ∈ h' :: ns',
      s'.next x = s.next x ∧ s'.prev x = s.prev x) :
    s'.Rings (Function.update w h (some ns)) := by
  constructor
  · intro h' ns' hw
    by_cases hh : h' = h
    · rw [hh, Function.update_self, Option.some.injEq] at hw
      rw [hh, ← hw]
      exact hring
    · rw [Function.update_of_ne hh] at hw
      exact (hr.ring hw).congr (hframe h' ns' hw hh)
  · intro h₁ h₂ ns₁ ns₂ x hw₁ hw₂ hx₁ hx₂
    by_cases hh₁ : h₁ = h
    · by_cases hh₂ : h₂ = h
      · rw [hh₁, hh₂]
      · rw [hh₁, Function.update_self, Option.some.injEq] at hw₁
        rw [Function.update_of_ne hh₂] at hw₂
        rw [hh₁, ← hw₁] at hx₁
        rw [hh₁, hown x hx₁ h₂ ns₂ hw₂ hx₂]
    · rw [Function.update_of_ne hh₁] at hw₁
      by_cases hh₂ : h₂ = h
      · rw [hh₂, Function.update_self, Option.some.injEq] at hw₂
        rw [hh₂, ← hw₂] at hx₂
        rw [hh₂, hown x hx₂ h₁ ns₁ hw₁ hx₁]
      · rw [Function.update_of_ne hh₂] at hw₂
        exact hr.disjoint hw₁ hw₂ hx₁ hx₂

end Rings

end Links

end Pcitop.Common
