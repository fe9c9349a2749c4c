import Pcitop.Common.CString
import Pcitop.Common.Lifecycle
import Pcitop.Common.Ring

/-!
# The linked lists

Model of `src/list.h` and `src/list.c`, compiled without `CCAN_LIST_DEBUG`. A
`struct list_node *` is an address, a `struct list_head *` that of its node, and the
heap holds the two pointers of every node. The loops are given the number of tests of
their condition they may take.

* `runAll_refines`: any calls of the operations, on any number of lists, do to the
  pointers what they do to lists.
* `listForEach_eq`, `listForEachSafe_eq`: the loops visit every item once, in order,
  the second also when its body deletes the items.
* `listCheck_spec`: `list_check` returns on every heap, and what it overlooks is the
  `prev` of the head of a list with items.
-/

namespace Pcitop.Tool

open Pcitop.Common

variable {ν : Type} [DecidableEq ν]

/-! ## `list.h` -/

/-- `list_head_init` (lines 99–102). -/
def listHeadInit (s : Links ν) (h : ν) : Links ν := (s.setPrev h h).setNext h h

/-- `list_add` (lines 131–138). -/
def listAdd (s : Links ν) (h n : ν) : Links ν :=
  let s := s.setNext n (s.next h)
  let s := s.setPrev n h
  let s := s.setPrev (s.next h) n
  s.setNext h n

/-- `list_add_tail` (lines 150–157). -/
def listAddTail (s : Links ν) (h n : ν) : Links ν :=
  let s := s.setNext n h
  let s := s.setPrev n (s.prev h)
  let s := s.setNext (s.prev h) n
  s.setPrev h n

/-- `list_del` (lines 167–176). -/
def listDel (s : Links ν) (n : ν) : Links ν :=
  let s := s.setPrev (s.next n) (s.prev n)
  s.setNext (s.prev n) (s.next n)

/-- `list_empty`, `list_is_last` and `list_is_first` (lines 187–225). -/
def listEmpty (s : Links ν) (h : ν) : Bool := s.next h = h
def listIsLast (s : Links ν) (h n : ν) : Bool := s.next n = h
def listIsFirst (s : Links ν) (h n : ν) : Bool := s.prev n = h

/-- `_list_top` (lines 255–261), `none` being NULL. -/
def listTop (s : Links ν) (h : ν) : Option ν := if listEmpty s h then none else some (s.next h)

section Loops

variable {σ : Type} (links : σ → Links ν) (h : ν) (body : ν → σ → Except σ σ)

/-- `list_for_each` (lines 277–280) from the item `i` on. The body breaks the loop off
    with `.error`. -/
def listForEachFrom : ℕ → ν → σ → Option σ
  | 0, _, _ => none
  | fuel + 1, i, st =>
    if i = h then some st
    else
      match body i st with
      | .error st => some st
      | .ok st => listForEachFrom fuel ((links st).next i) st

def listForEach (fuel : ℕ) (st : σ) : Option σ :=
  listForEachFrom links h body fuel ((links st).next h) st

/-- `list_for_each_safe` (lines 300–304) from the item `i` on. -/
def listForEachSafeFrom : ℕ → ν → ν → σ → Option σ
  | 0, _, _, _ => none
  | fuel + 1, i, nxt, st =>
    if i = h then some st
    else
      match body i st with
      | .error st => some st
      | .ok st => listForEachSafeFrom fuel nxt ((links st).next nxt) st

def listForEachSafe (fuel : ℕ) (st : σ) : Option σ :=
  let i := (links st).next h
  listForEachSafeFrom links h body fuel i ((links st).next i) st

end Loops

/-! ## `list.c` -/

/-- The arguments of the messages `prev corrupt in empty …` and `prev corrupt in node …`
    before `abort`. -/
inductive ListCorrupt (ν : Type) where
  | empty (abortstr : CString) (h : ν)
  | node (abortstr : CString) (n : ν) (count : ℕ) (h : ν)
  deriving DecidableEq, Repr

/-- `if (!abortstr) return NULL; fprintf(stderr, …); abort();`. -/
def corrupt (abortstr : Option CString) (report : CString → ListCorrupt ν) :
    Except (ListCorrupt ν) (Option ν) :=
  match abortstr with
  | none => .ok none
  | some str => .error (report str)

/-- The loop of `list_check` (lines 39–49). -/
def listCheckFrom (s : Links ν) (h : ν) (abortstr : Option CString) :
    ℕ → ν → ν → ℕ → Option (Except (ListCorrupt ν) (Option ν))
  | 0, _, _, _ => none
  | fuel + 1, p, n, count =>
    if n = h then some (.ok (some h))
    else if s.prev n ≠ p then some (corrupt abortstr fun str => .node str n (count + 1) h)
    else listCheckFrom s h abortstr fuel n (s.next n) (count + 1)

/-- `list_check` (lines 23–51): NULL, the list, or the message of `abort`. -/
def listCheck (s : Links ν) (h : ν) (abortstr : Option CString) (fuel : ℕ) :
    Option (Except (ListCorrupt ν) (Option ν)) :=
  if s.next h = h then
    some (if s.prev h ≠ h then corrupt abortstr fun str => .empty str h else .ok (some h))
  else listCheckFrom s h abortstr fuel h (s.next h) 0

/-! ## The operations on rings -/

section Operations

variable {s : Links ν} {w : ν → Option (List ν)} {h n : ν} {ns xs ys : List ν}

/-- The node is in some ring. -/
def Occupied (w : ν → Option (List ν)) (x : ν) : Prop := ∃ h ns, w h = some ns ∧ x ∈ h :: ns

theorem rings_listHeadInit (hr : s.Rings w) (hf : ¬ Occupied w h) :
    (listHeadInit s h).Rings (Function.update w h (some [])) := by
  refine hr.update (Links.ring_nil_iff.mpr ?_) ?_ ?_
  · exact ⟨by simp [listHeadInit], by simp [listHeadInit]⟩
  · intro x hx h' ns' hw hx'
    rw [List.mem_singleton.mp hx] at hx'
    exact absurd ⟨h', ns', hw, hx'⟩ hf
  · intro h' ns' hw _ x hx
    have hne : x ≠ h := fun heq => hf ⟨h', ns', hw, heq ▸ hx⟩
    simp [listHeadInit, hne]

/-- The links after `list_add`. -/
theorem next_listAdd (x : ν) :
    (listAdd s h n).next x = if x = h then n else if x = n then s.next h else s.next x := by
  simp [listAdd]

theorem prev_listAdd (hne : h ≠ n) (x : ν) :
    (listAdd s h n).prev x = if x = s.next h then n else if x = n then h else s.prev x := by
  simp [listAdd, hne]

theorem ring_listAdd (hr : s.Ring h ns) (hn : n ∉ h :: ns) : (listAdd s h n).Ring h (n :: ns) := by
  have hne : h ≠ n := fun heq => hn (heq ▸ List.mem_cons_self)
  have hnext : s.next h ≠ n := fun heq => hn (heq ▸ hr.next_mem)
  refine hr.insert hn ⟨?_, ?_⟩ ⟨?_, ?_⟩ ?_ ?_
  · simp [next_listAdd]
  · simp [prev_listAdd hne, hnext.symm]
  · simp [next_listAdd, hne.symm]
  · simp [prev_listAdd hne]
  · intro x hxh hxn
    simp [next_listAdd, hxh, hxn]
  · intro x hxh hxn
    simp [prev_listAdd hne, hxh, hxn]

theorem rings_listAdd (hr : s.Rings w) (hw : w h = some ns) (hf : ¬ Occupied w n) :
    (listAdd s h n).Rings (Function.update w h (some (n :: ns))) := by
  have hn : n ∉ h :: ns := fun hmem => hf ⟨h, ns, hw, hmem⟩
  have hne : h ≠ n := fun heq => hn (heq ▸ List.mem_cons_self)
  refine hr.update (ring_listAdd (hr.ring hw) hn) ?_ ?_
  · intro x hx h' ns' hw' hx'
    by_cases hxn : x = n
    · exact absurd ⟨h', ns', hw', hxn ▸ hx'⟩ hf
    · have hxs : x ∈ h :: ns := by
        simp only [List.mem_cons, hxn, false_or] at hx ⊢
        exact hx
      exact hr.disjoint hw' hw hx' hxs
  · intro h' ns' hw' hh' x hx
    have hxn : x ≠ n := fun heq => hf ⟨h', ns', hw', heq ▸ hx⟩
    have hother : ∀ y ∈ h :: ns, x ≠ y :=
      fun y hy heq => hh' (hr.disjoint hw' hw hx (heq ▸ hy))
    simp [next_listAdd, prev_listAdd hne, hxn, hother h (by simp),
      hother _ (hr.ring hw).next_mem]

/-- The links after `list_add_tail`. -/
theorem next_listAddTail (hne : h ≠ n) (x : ν) :
    (listAddTail s h n).next x = if x = s.prev h then n else if x = n then h else s.next x := by
  simp [listAddTail, hne]

theorem prev_listAddTail (x : ν) :
    (listAddTail s h n).prev x = if x = h then n else if x = n then s.prev h else s.prev x := by
  simp [listAddTail]

/-- `list_add_tail` puts the node behind the last one, or behind the head. -/
theorem ring_listAddTail (hr : s.Ring h ns) (hn : n ∉ h :: ns) :
    (listAddTail s h n).Ring h (ns ++ [n]) := by
  have hne : h ≠ n := fun heq => hn (heq ▸ List.mem_cons_self)
  have hprev : s.prev h ≠ n := fun heq => hn (heq ▸ hr.prev_mem)
  have hnew : ∀ {a ms}, s.Ring a ms → s.prev h = a → s.next a = h → n ∉ a :: ms →
      (listAddTail s h n).Ring a (n :: ms) := by
    intro a ms hra hpa hna hmem
    refine hra.insert hmem ⟨?_, ?_⟩ ⟨?_, ?_⟩ ?_ ?_
    · simp [next_listAddTail hne, hpa]
    · simp [prev_listAddTail, hne.symm, hpa]
    · simp [next_listAddTail hne, hprev.symm, hna]
    · simp [prev_listAddTail, hna]
    · intro x hxa hxn
      simp [next_listAddTail hne, hpa, hxa, hxn]
    · intro x hxa hxn
      rw [hna] at hxa
      simp [prev_listAddTail, hxa, hxn]
  obtain rfl | ⟨init, a, rfl⟩ := List.eq_nil_or_concat' ns
  · obtain ⟨hnext, hprev⟩ := Links.ring_nil_iff.mp hr
    exact hnew hr hprev hnext hn
  · have hrot : s.Ring a (h :: init) := hr.rotate
    obtain ⟨hnext, hprev⟩ := hr.linked_last
    have hmem : n ∉ a :: h :: init := by
      simp only [List.mem_cons, List.mem_append, not_or, List.not_mem_nil] at hn ⊢
      tauto
    have hring : (listAddTail s h n).Ring a ([n] ++ h :: init) := hnew hrot hprev hnext hmem
    simpa using hring.rotate

theorem rings_listAddTail (hr : s.Rings w) (hw : w h = some ns) (hf : ¬ Occupied w n) :
    (listAddTail s h n).Rings (Function.update w h (some (ns ++ [n]))) := by
  have hn : n ∉ h :: ns := fun hmem => hf ⟨h, ns, hw, hmem⟩
  have hne : h ≠ n := fun heq => hn (heq ▸ List.mem_cons_self)
  refine hr.update (ring_listAddTail (hr.ring hw) hn) ?_ ?_
  · intro x hx h' ns' hw' hx'
    by_cases hxn : x = n
    · exact absurd ⟨h', ns', hw', hxn ▸ hx'⟩ hf
    · have hxs : x ∈ h :: ns := by
        simp only [List.mem_cons, List.mem_append, hxn, List.not_mem_nil, or_false] at hx ⊢
        exact hx
      exact hr.disjoint hw' hw hx' hxs
  · intro h' ns' hw' hh' x hx
    have hxn : x ≠ n := fun heq => hf ⟨h', ns', hw', heq ▸ hx⟩
    have hother : ∀ y ∈ h :: ns, x ≠ y :=
      fun y hy heq => hh' (hr.disjoint hw' hw hx (heq ▸ hy))
    simp [next_listAddTail hne, prev_listAddTail, hxn, hother h (by simp),
      hother _ (hr.ring hw).prev_mem]

/-- The links after `list_del`. -/
theorem next_listDel (hne : s.next n ≠ n) (x : ν) :
    (listDel s n).next x = if x = s.prev n then s.next n else s.next x := by
  simp [listDel, hne.symm]

theorem prev_listDel (x : ν) :
    (listDel s n).prev x = if x = s.next n then s.prev n else s.prev x := by
  simp [listDel]

theorem ring_listDel (hr : s.Ring h (xs ++ n :: ys)) : (listDel s n).Ring h (xs ++ ys) := by
  have hrot : s.Ring n (ys ++ h :: xs) := hr.rotate
  have hne : s.next n ≠ n := by
    rw [Ne, hrot.next_eq_self_iff]
    simp
  have hold : ∀ {b ms}, s.Ring n (b :: ms) → (listDel s n).Ring b ms := by
    intro b ms hrb
    have hb : s.next n = b := hrb.linked_head.1
    refine hrb.remove ⟨?_, ?_⟩ ?_ ?_
    · simp [next_listDel hne, hb]
    · simp [prev_listDel, hb]
    · intro x hx _
      simp [next_listDel hne, hx]
    · intro x hx _
      simp [prev_listDel, hb, hx]
  cases ys with
  | nil => simpa using hold hrot
  | cons y ys => exact (hold hrot).rotate

theorem rings_listDel (hr : s.Rings w) (hw : w h = some (xs ++ n :: ys)) :
    (listDel s n).Rings (Function.update w h (some (xs ++ ys))) := by
  have hring : s.Ring h (xs ++ n :: ys) := hr.ring hw
  have hrot : s.Ring n (ys ++ h :: xs) := hring.rotate
  have hne : s.next n ≠ n := by
    rw [Ne, hrot.next_eq_self_iff]
    simp
  have hsub : ∀ x, x ∈ n :: (ys ++ h :: xs) → x ∈ h :: (xs ++ n :: ys) := by
    intro x hx
    simp only [List.mem_cons, List.mem_append] at hx ⊢
    tauto
  refine hr.update (ring_listDel hring) ?_ ?_
  · intro x hx h' ns' hw' hx'
    refine hr.disjoint hw' hw hx' (hsub x ?_)
    simp only [List.mem_cons, List.mem_append] at hx ⊢
    tauto
  · intro h' ns' hw' hh' x hx
    have hother : ∀ y ∈ n :: (ys ++ h :: xs), x ≠ y :=
      fun y hy heq => hh' (hr.disjoint hw' hw hx (heq ▸ hsub y hy))
    simp [next_listDel hne, prev_listDel, hother _ hrot.next_mem, hother _ hrot.prev_mem]

end Operations

/-! ## What the lists look like -/

section Observe

variable {s : Links ν} {h n : ν} {ns : List ν}

theorem listEmpty_eq (hr : s.Ring h ns) : listEmpty s h = ns.isEmpty := by
  rw [listEmpty, Bool.eq_iff_iff, decide_eq_true_iff, hr.next_eq_self_iff, List.isEmpty_iff]

theorem listTop_eq (hr : s.Ring h ns) : listTop s h = ns.head? := by
  rw [listTop, listEmpty_eq hr]
  cases ns with
  | nil => rfl
  | cons n ns => exact congrArg some hr.linked_head.1

theorem listIsLast_iff (hr : s.Ring h ns) (hn : n ∈ ns) :
    listIsLast s h n = true ↔ ns.getLast? = some n := by
  obtain ⟨xs, ys, rfl⟩ := List.append_of_mem hn
  obtain ⟨-, hnodup⟩ := List.nodup_cons.mp hr.nodup
  have hnext := hr.next_item
  rw [listIsLast, decide_eq_true_iff]
  cases ys with
  | nil => simpa using hnext
  | cons y ys =>
    rw [List.cons_append, List.head?_cons, Option.some.injEq] at hnext
    rw [hnext]
    constructor
    · rintro rfl
      exact absurd hr.nodup (by simp)
    · intro hlast
      have hmem : n ∈ y :: ys := by
        apply List.mem_of_getLast? (l := y :: ys)
        rw [← hlast, List.getLast?_append_cons, List.getLast?_cons_cons]
      rw [List.nodup_append] at hnodup
      exact absurd hmem (List.nodup_cons.mp hnodup.2.1).1

theorem listIsFirst_iff (hr : s.Ring h ns) (hn : n ∈ ns) :
    listIsFirst s h n = true ↔ ns.head? = some n := by
  obtain ⟨xs, ys, rfl⟩ := List.append_of_mem hn
  have hrot : s.Ring n (ys ++ h :: xs) := hr.rotate
  rw [listIsFirst, decide_eq_true_iff]
  obtain rfl | ⟨init, a, rfl⟩ := List.eq_nil_or_concat' xs
  · simpa using hrot.linked_last.2
  · have hprev : s.prev n = a := by
      have hlast : s.Ring n ((ys ++ h :: init) ++ [a]) := by simpa using hrot
      exact hlast.linked_last.2
    rw [hprev]
    constructor
    · rintro rfl
      exact absurd hr.nodup (by simp)
    · intro hhead
      have hmem : n ∈ init ++ [a] := by
        apply List.mem_of_head? (l := init ++ [a])
        rw [← hhead, List.head?_append_of_ne_nil (init ++ [a]) (by simp)]
      have hnodup := (List.nodup_cons.mp hr.nodup).2
      rw [List.nodup_append] at hnodup
      exact absurd rfl (hnodup.2.2 n hmem n List.mem_cons_self)

end Observe

/-! ## The loops -/

section Visits

variable {σ : Type} {links : σ → Links ν} {h : ν} {body : ν → σ → Except σ σ}

theorem listForEachFrom_eq {ns : List ν}
    (hbody : ∀ st, ∀ n ∈ ns, (links st).Ring h ns → (links (final (body n st))).Ring h ns)
    {ys : List ν} (xs : List ν) (hns : xs ++ ys = ns) {st : σ} (hr : (links st).Ring h ns) {i : ν}
    (hi : some i = (ys ++ [h]).head?) {fuel : ℕ} (hfuel : ys.length < fuel) :
    listForEachFrom links h body fuel i st =
      some (final (ys.foldlM (fun st n => body n st) st)) := by
  obtain ⟨fuel, rfl⟩ := Nat.exists_eq_add_one_of_ne_zero (Nat.ne_of_gt (Nat.zero_lt_of_lt hfuel))
  induction ys generalizing xs st i fuel with
  | nil =>
    rw [List.nil_append, List.head?_cons, Option.some.injEq] at hi
    rw [listForEachFrom, if_pos hi]
    rfl
  | cons n ys ih =>
    rw [List.cons_append, List.head?_cons, Option.some.injEq] at hi
    subst hi
    have hih : i ≠ h := by
      rintro rfl
      rw [← hns] at hr
      exact absurd hr.nodup (by simp)
    have hstep := hbody st i (by simp [← hns]) hr
    rw [listForEachFrom, if_neg hih, List.foldlM_cons]
    cases hb : body i st with
    | error st' => rfl
    | ok st' =>
      rw [hb] at hstep
      rw [List.length_cons] at hfuel
      obtain ⟨fuel, rfl⟩ := Nat.exists_eq_add_one_of_ne_zero (show fuel ≠ 0 by omega)
      have hnext : some ((links st').next i) = (ys ++ [h]).head? := by
        rw [← hns] at hstep
        exact Links.Ring.next_item hstep
      exact ih (xs ++ [i]) (by simp [← hns]) hstep hnext fuel (by omega)

/-- `list_for_each` visits the items in order, when its body leaves the list as it is. -/
theorem listForEach_eq {ns : List ν}
    (hbody : ∀ st, ∀ n ∈ ns, (links st).Ring h ns → (links (final (body n st))).Ring h ns)
    {st : σ} (hr : (links st).Ring h ns) {fuel : ℕ} (hfuel : ns.length < fuel) :
    listForEach links h body fuel st = some (final (ns.foldlM (fun st n => body n st) st)) := by
  refine listForEachFrom_eq hbody [] rfl hr ?_ hfuel
  cases ns with
  | nil => exact congrArg some (Links.ring_nil_iff.mp hr).1
  | cons n ns => exact congrArg some hr.linked_head.1

theorem listForEachSafeFrom_eq
    (hbody : ∀ st n xs ys, (links st).Ring h (xs ++ n :: ys) →
      ∃ xs', (links (final (body n st))).Ring h (xs' ++ ys))
    {xs ys : List ν} {st : σ} (hr : (links st).Ring h (xs ++ ys)) {i : ν}
    (hi : some i = (ys ++ [h]).head?) {fuel : ℕ} (hfuel : ys.length < fuel) :
    listForEachSafeFrom links h body fuel i ((links st).next i) st =
      some (final (ys.foldlM (fun st n => body n st) st)) := by
  obtain ⟨fuel, rfl⟩ := Nat.exists_eq_add_one_of_ne_zero (Nat.ne_of_gt (Nat.zero_lt_of_lt hfuel))
  induction ys generalizing xs st i fuel with
  | nil =>
    rw [List.nil_append, List.head?_cons, Option.some.injEq] at hi
    rw [listForEachSafeFrom, if_pos hi]
    rfl
  | cons n ys ih =>
    rw [List.cons_append, List.head?_cons, Option.some.injEq] at hi
    subst hi
    have hih : i ≠ h := by
      rintro rfl
      exact absurd hr.nodup (by simp)
    -- The next item is known before the body runs.
    have hnext : some ((links st).next i) = (ys ++ [h]).head? := hr.next_item
    obtain ⟨xs', hstep⟩ := hbody st i xs ys hr
    rw [listForEachSafeFrom, if_neg hih, List.foldlM_cons]
    cases hb : body i st with
    | error st' => rfl
    | ok st' =>
      rw [hb] at hstep
      rw [List.length_cons] at hfuel
      obtain ⟨fuel, rfl⟩ := Nat.exists_eq_add_one_of_ne_zero (show fuel ≠ 0 by omega)
      exact ih hstep hnext fuel (by omega)

/-- `list_for_each_safe` visits the items in order, whatever its body does to the list up
    to the item it is called for. -/
theorem listForEachSafe_eq
    (hbody : ∀ st n xs ys, (links st).Ring h (xs ++ n :: ys) →
      ∃ xs', (links (final (body n st))).Ring h (xs' ++ ys))
    {ns : List ν} {st : σ} (hr : (links st).Ring h ns) {fuel : ℕ} (hfuel : ns.length < fuel) :
    listForEachSafe links h body fuel st =
      some (final (ns.foldlM (fun st n => body n st) st)) := by
  have hr' : (links st).Ring h ([] ++ ns) := hr
  refine listForEachSafeFrom_eq hbody hr' ?_ hfuel
  cases ns with
  | nil => exact congrArg some (Links.ring_nil_iff.mp hr).1
  | cons n ns => exact congrArg some hr.linked_head.1

/-- The body of a loop that takes down the items it visits and deletes some of them. -/
def takeDownDel (p : ν → Bool) (n : ν) (st : Links ν × List ν) :
    Except (Links ν × List ν) (Links ν × List ν) :=
  .ok (if p n then listDel st.1 n else st.1, st.2 ++ [n])

/-- What the visits leave, of the list and of what was taken down before. -/
theorem foldlM_takeDownDel (p : ν → Bool) {w : ν → Option (List ν)} {xs ys : List ν}
    {s : Links ν} (hr : s.Rings (Function.update w h (some (xs ++ ys)))) (seen : List ν) :
    ∃ s', final (ys.foldlM (fun st n => takeDownDel p n st) (s, seen)) = (s', seen ++ ys) ∧
      s'.Rings (Function.update w h (some (xs ++ ys.filter fun n => !p n))) := by
  induction ys generalizing xs s seen with
  | nil => exact ⟨s, by rw [List.append_nil]; rfl, hr⟩
  | cons n ys ih =>
    rw [List.foldlM_cons]
    show ∃ s', final (ys.foldlM _ (if p n then listDel s n else s, seen ++ [n])) = _ ∧ _
    by_cases hp : p n = true
    · have hdel := rings_listDel hr (Function.update_self h (some (xs ++ n :: ys)) w)
      rw [Function.update_idem] at hdel
      obtain ⟨s', hs', hr'⟩ := ih hdel (seen ++ [n])
      exact ⟨s', by simpa [hp] using hs', by simpa [hp] using hr'⟩
    · have hkeep : s.Rings (Function.update w h (some ((xs ++ [n]) ++ ys))) := by simpa using hr
      obtain ⟨s', hs', hr'⟩ := ih hkeep (seen ++ [n])
      exact ⟨s', by simpa [hp] using hs', by simpa [hp] using hr'⟩

/-- A loop that deletes some of the items visits every item once, in order, and leaves the
    others. -/
theorem listForEachSafe_del (p : ν → Bool) {s : Links ν} {w : ν → Option (List ν)}
    (hr : s.Rings w) {ns : List ν} (hw : w h = some ns) {fuel : ℕ} (hfuel : ns.length < fuel) :
    ∃ s', listForEachSafe Prod.fst h (takeDownDel p) fuel (s, []) = some (s', ns) ∧
      s'.Rings (Function.update w h (some (ns.filter fun n => !p n))) := by
  have hr' : s.Rings (Function.update w h (some ([] ++ ns))) := by
    rwa [List.nil_append, ← hw, Function.update_eq_self]
  obtain ⟨s', hs', hrings⟩ := foldlM_takeDownDel p hr' []
  refine ⟨s', ?_, hrings⟩
  rw [listForEachSafe_eq ?_ (hr.ring hw) hfuel, hs', List.nil_append]
  intro st n xs ys hring
  by_cases hp : p n = true
  · exact ⟨xs, by simpa [takeDownDel, hp, final] using ring_listDel hring⟩
  · exact ⟨xs ++ [n], by simpa [takeDownDel, hp, final] using hring⟩

/-- The list of the head 0 with the items 1, 2 and 3. -/
def threeItems : Links ℕ :=
  listAddTail (listAddTail (listAddTail (listHeadInit ⟨id, id⟩ 0) 0 1) 0 2) 0 3

theorem listForEachSafe_del_threeItems :
    ∃ s, listForEachSafe Prod.fst 0 (takeDownDel fun n => decide (n ≠ 2)) 4 (threeItems, []) =
        some (s, [1, 2, 3]) ∧ s.Ring 0 [2] := by
  have hring : threeItems.Ring 0 [1, 2, 3] :=
    ring_listAddTail (ring_listAddTail (ring_listAddTail
      (Links.ring_nil_iff.mpr ⟨by decide, by decide⟩) (by decide)) (by decide)) (by decide)
  let w : ℕ → Option (List ℕ) := Function.update (fun _ => none) 0 (some [1, 2, 3])
  have hrings : threeItems.Rings w :=
    (Links.rings_none threeItems).update hring (fun _ _ _ _ hw => absurd hw (by simp))
      fun _ _ hw => absurd hw (by simp)
  obtain ⟨s, hrun, hs⟩ := listForEachSafe_del (fun n => decide (n ≠ 2)) hrings (h := 0) rfl
    (show [1, 2, 3].length < 4 by decide)
  refine ⟨s, hrun, ?_⟩
  have hfilter : Function.update w 0 (some ([1, 2, 3].filter fun n => !decide (n ≠ 2))) 0 =
      some [2] := rfl
  exact hs.ring hfilter

end Visits

/-! ## `list_check` -/

section Check

variable {s : Links ν} {h : ν} {abortstr : Option CString} {k : ℕ}

/-- The message is about the first node whose `prev` is wrong. -/
def ListCorrupt.First (s : Links ν) (h : ν) (str : CString) : ListCorrupt ν → Prop
  | .empty str' h' => str' = str ∧ h' = h ∧ s.next h = h ∧ s.prev h ≠ h
  | .node str' n count h' => str' = str ∧ h' = h ∧ ∃ k, count = k + 1 ∧ s.Sound h k ∧
      n = s.next^[k + 1] h ∧ n ≠ h ∧ s.prev n ≠ s.next^[k] h

/-- The loop ends where the walk comes back or a `prev` is wrong. -/
theorem listCheckFrom_eq {m : ℕ} (hs : s.Sound h m)
    (hend : s.next^[m + 1] h = h ∨ s.prev (s.next^[m + 1] h) ≠ s.next^[m] h) (hk : k ≤ m)
    {fuel : ℕ} (hfuel : m < k + fuel) :
    listCheckFrom s h abortstr fuel (s.next^[k] h) (s.next^[k + 1] h) k =
      some (if s.next^[m + 1] h = h then .ok (some h)
        else corrupt abortstr fun str => .node str (s.next^[m + 1] h) (m + 1) h) := by
  induction fuel generalizing k with
  | zero => omega
  | succ fuel ih =>
    rw [listCheckFrom]
    rcases Nat.eq_or_lt_of_le hk with rfl | hlt
    · by_cases hback : s.next^[k + 1] h = h
      · rw [if_pos hback, if_pos hback]
      · rw [if_neg hback, if_neg hback, if_pos (hend.resolve_left hback)]
    · obtain ⟨hne, hprev⟩ := hs k hlt
      rw [if_neg hne, if_neg (not_not.mpr hprev), ← Function.iterate_succ_apply' s.next]
      exact ih hlt (by omega)

/-- A list in which only the `prev` of the head may be wrong, unless it is empty. -/
def Overlooked (s : Links ν) (h : ν) : Prop :=
  ∃ ns v, (s.setPrev h v).Ring h ns ∧ (ns = [] → v = s.prev h)

theorem setPrev_self (s : Links ν) (h : ν) : s.setPrev h (s.prev h) = s := by
  rw [Links.setPrev, Function.update_eq_self]

theorem overlooked_of_ring {ns : List ν} (hr : s.Ring h ns) : Overlooked s h :=
  ⟨ns, s.prev h, by rwa [setPrev_self], fun _ => rfl⟩

theorem listCheck_of_ring {ns : List ν} {v : ν} (hr : (s.setPrev h v).Ring h ns)
    (hv : ns = [] → v = s.prev h) {fuel : ℕ} (hfuel : ns.length < fuel) :
    listCheck s h abortstr fuel = some (.ok (some h)) := by
  obtain ⟨hs, hback⟩ := hr.sound
  unfold listCheck
  by_cases hnil : ns = []
  · obtain rfl := hv hnil
    rw [hnil, setPrev_self, Links.ring_nil_iff] at hr
    rw [if_pos hr.1, if_neg (not_not.mpr hr.2)]
  · have hne : s.next h ≠ h := (hs 0 (List.length_pos_of_ne_nil hnil)).1
    rw [if_neg hne]
    have hrun : listCheckFrom s h abortstr fuel (s.next^[0] h) (s.next^[0 + 1] h) 0 = _ :=
      listCheckFrom_eq hs (.inl hback) (Nat.zero_le _) (by omega)
    rw [if_pos hback] at hrun
    exact hrun

/-- `list_check` returns on every heap, whatever its links. It returns the list exactly
    when nothing is wrong but the `prev` of the head of a list with items, and else
    NULL, or a message about the first wrong `prev`. -/
theorem listCheck_spec [Fintype ν] (s : Links ν) (h : ν) (abortstr : Option CString) :
    ∃ r, (∀ fuel, Fintype.card ν ≤ fuel → listCheck s h abortstr fuel = some r) ∧
      (r = .ok (some h) ↔ Overlooked s h) ∧
      (¬ Overlooked s h → match abortstr with
        | none => r = .ok none
        | some str => ∃ e, r = .error e ∧ e.First s h str) := by
  by_cases hring : Overlooked s h
  · obtain ⟨ns, v, hr, hv⟩ := hring
    refine ⟨.ok (some h), fun fuel hfuel => listCheck_of_ring hr hv ?_, ?_, ?_⟩
    · exact lt_of_lt_of_le hr.sound.1.lt_card hfuel
    · exact iff_of_true rfl ⟨ns, v, hr, hv⟩
    · exact fun hnot => absurd ⟨ns, v, hr, hv⟩ hnot
  · suffices hrun : ∃ report : CString → ListCorrupt ν, (∀ str, (report str).First s h str) ∧
        ∀ fuel, Fintype.card ν ≤ fuel →
          listCheck s h abortstr fuel = some (corrupt abortstr report) by
      obtain ⟨report, hfirst, hrun⟩ := hrun
      refine ⟨corrupt abortstr report, hrun, iff_of_false ?_ hring, fun _ => ?_⟩
      · cases abortstr <;> simp [corrupt]
      · cases abortstr with
        | none => rfl
        | some str => exact ⟨_, rfl, hfirst str⟩
    by_cases hnext : s.next h = h
    · have hprev : s.prev h ≠ h := fun hp =>
        hring (overlooked_of_ring (Links.ring_nil_iff.mpr ⟨hnext, hp⟩))
      refine ⟨fun str => .empty str h, fun str => ⟨rfl, rfl, hnext, hprev⟩, fun fuel _ => ?_⟩
      rw [listCheck, if_pos hnext, if_pos hprev]
    · obtain ⟨m, hs, hend⟩ := s.exists_end h
      have hback : s.next^[m + 1] h ≠ h := by
        intro hback
        refine hring ⟨_, _, hs.ring hback, fun hnil => absurd ?_ hnext⟩
        have hm : m = 0 := by simpa [Links.nodes] using hnil
        simpa [hm] using hback
      refine ⟨fun str => .node str (s.next^[m + 1] h) (m + 1) h, fun str => ?_,
        fun fuel hfuel => ?_⟩
      · exact ⟨rfl, rfl, m, rfl, hs, rfl, hback, hend.resolve_left hback⟩
      · have hlt := hs.lt_card
        have hrun : listCheckFrom s h abortstr fuel (s.next^[0] h) (s.next^[0 + 1] h) 0 = _ :=
          listCheckFrom_eq hs hend (Nat.zero_le m) (by omega)
        rw [if_neg hback] at hrun
        rw [listCheck, if_neg hnext]
        exact hrun

end Check

/-! ## Any run of the operations -/

/-- A call of an operation that writes. -/
inductive ListOp (ν : Type) where
  | init (h : ν)
  | add (h n : ν)
  | addTail (h n : ν)
  | del (n : ν)
  deriving DecidableEq, Repr

/-- What it does to the pointers. -/
def ListOp.run : ListOp ν → Links ν → Links ν
  | .init h, s => listHeadInit s h
  | .add h n, s => listAdd s h n
  | .addTail h n, s => listAddTail s h n
  | .del n, s => listDel s n

/-- What it is meant to do to the lists. -/
def ListOp.spec : ListOp ν → (ν → Option (List ν)) → ν → Option (List ν)
  | .init h, w => Function.update w h (some [])
  | .add h n, w => Function.update w h ((w h).map (n :: ·))
  | .addTail h n, w => Function.update w h ((w h).map (· ++ [n]))
  | .del n, w => fun h => (w h).map (·.erase n)

/-- A head is set up once, a node added is in no list, and a node deleted is in one. -/
def ListOp.Legal (w : ν → Option (List ν)) : ListOp ν → Prop
  | .init h => ¬ Occupied w h
  | .add h n => (∃ ns, w h = some ns) ∧ ¬ Occupied w n
  | .addTail h n => (∃ ns, w h = some ns) ∧ ¬ Occupied w n
  | .del n => ∃ h ns, w h = some ns ∧ n ∈ ns

section Run

variable {s : Links ν} {w : ν → Option (List ν)}

theorem rings_run {op : ListOp ν} (hr : s.Rings w) (hok : op.Legal w) :
    (op.run s).Rings (op.spec w) := by
  cases op with
  | init h => exact rings_listHeadInit hr hok
  | add h n =>
    obtain ⟨⟨ns, hw⟩, hf⟩ := hok
    rw [ListOp.spec, hw]
    exact rings_listAdd hr hw hf
  | addTail h n =>
    obtain ⟨⟨ns, hw⟩, hf⟩ := hok
    rw [ListOp.spec, hw]
    exact rings_listAddTail hr hw hf
  | del n =>
    obtain ⟨h, ns, hw, hn⟩ := hok
    obtain ⟨xs, ys, rfl⟩ := List.append_of_mem hn
    have hspec : ListOp.spec (.del n) w = Function.update w h (some (xs ++ ys)) := by
      funext h'
      show (w h').map (fun ns => ns.erase n) = _
      by_cases hh : h' = h
      · subst hh
        have hnxs : n ∉ xs := by
          have hnodup := (List.nodup_cons.mp (hr.ring hw).nodup).2
          rw [List.nodup_append] at hnodup
          exact fun hmem => hnodup.2.2 n hmem n List.mem_cons_self rfl
        rw [Function.update_self, hw, Option.map_some, List.erase_append_right _ hnxs,
          List.erase_cons_head]
      · rw [Function.update_of_ne hh]
        cases hw' : w h' with
        | none => rfl
        | some ns' =>
          have hnot : n ∉ ns' := fun hmem =>
            hh (hr.disjoint hw' hw (List.mem_cons_of_mem _ hmem) (by simp))
          rw [Option.map_some, List.erase_of_not_mem hnot]
    rw [hspec]
    exact rings_listDel hr hw

theorem rings_runAll {ops : List (ListOp ν)} (hr : s.Rings w)
    (hok : AllOk ListOp.Legal ListOp.spec w ops) :
    (runAll ListOp.run s ops).Rings (runAll ListOp.spec w ops) := by
  induction ops generalizing s w with
  | nil => exact hr
  | cons op ops ih => exact ih (rings_run hr hok.1) hok.2

/-- The body of a loop that takes down the items it visits. -/
def takeDown (n : ν) (st : Links ν × List ν) : Except (Links ν × List ν) (Links ν × List ν) :=
  .ok (st.1, st.2 ++ [n])

omit [DecidableEq ν] in
theorem foldlM_takeDown (s : Links ν) (ns seen : List ν) :
    ns.foldlM (fun st n => takeDown n st) (s, seen) = .ok (s, seen ++ ns) := by
  induction ns generalizing seen with
  | nil => rw [List.append_nil]; rfl
  | cons n ns ih =>
    rw [List.append_cons, ← ih]
    rfl

/-- What a program gets to see of a list. -/
structure Shows (s : Links ν) (h : ν) (ns : List ν) : Prop where
  empty : listEmpty s h = ns.isEmpty
  top : listTop s h = ns.head?
  isFirst : ∀ n ∈ ns, listIsFirst s h n = true ↔ ns.head? = some n
  isLast : ∀ n ∈ ns, listIsLast s h n = true ↔ ns.getLast? = some n
  forEach : ∀ fuel, ns.length < fuel →
    listForEach Prod.fst h takeDown fuel (s, []) = some (s, ns)
  check : ∀ abortstr fuel, ns.length < fuel → listCheck s h abortstr fuel = some (.ok (some h))

theorem shows_of_ring {h : ν} {ns : List ν} (hr : s.Ring h ns) : Shows s h ns where
  empty := listEmpty_eq hr
  top := listTop_eq hr
  isFirst _ hn := listIsFirst_iff hr hn
  isLast _ hn := listIsLast_iff hr hn
  forEach fuel hfuel := by
    have hbody : ∀ st : Links ν × List ν, ∀ n ∈ ns, st.1.Ring h ns →
        (final (takeDown n st)).1.Ring h ns := fun _ _ _ hring => hring
    have hr' : (Prod.fst (s, ([] : List ν))).Ring h ns := hr
    rw [listForEach_eq hbody hr' hfuel, foldlM_takeDown]
    rfl
  check abortstr fuel hfuel :=
    listCheck_of_ring (by rwa [setPrev_self]) (fun _ => rfl) hfuel

/-- After any legal calls on any number of lists, whatever the pointers were before, every
    list shows the items that the calls put there. -/
theorem runAll_refines {ops : List (ListOp ν)}
    (hok : AllOk ListOp.Legal ListOp.spec (fun _ => none) ops) (s : Links ν) {h : ν}
    {ns : List ν} (hw : runAll ListOp.spec (fun _ => none) ops h = some ns) :
    Shows (runAll ListOp.run s ops) h ns :=
  shows_of_ring ((rings_runAll (Links.rings_none s) hok).ring hw)

/-- Two lists, of which one loses its item to the other. -/
def moveItem : List (ListOp ℕ) :=
  [.init 0, .init 1, .addTail 0 2, .add 0 3, .del 2, .addTail 1 2]

theorem runAll_moveItem :
    Shows (runAll ListOp.run ⟨id, id⟩ moveItem) 0 [3] ∧
      Shows (runAll ListOp.run ⟨id, id⟩ moveItem) 1 [2] := by
  have hok : AllOk ListOp.Legal ListOp.spec (fun _ => none) moveItem := by
    simp [moveItem, AllOk, ListOp.Legal, ListOp.spec, Occupied, Function.update_apply]
    refine ⟨?_, ?_, ⟨0, by simp⟩, ?_⟩ <;> intro h ns <;> split_ifs <;> grind
  exact ⟨runAll_refines hok ⟨id, id⟩ (by decide), runAll_refines hok ⟨id, id⟩ (by decide)⟩

end Run

end Pcitop.Tool
