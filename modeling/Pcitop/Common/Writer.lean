import Pcitop.Common.CString

/-!
# Writing at a moving pointer

A text built up behind a pointer `p`, by `*p++ = c` and by `p += sprintf(p, …)`, which
also stores a terminator where the next character will go. Memory is a function of the
offset, so that a program may write where no array is.

* `extent_append_putc`: after a last `*p++ = c` the bytes written are those of the
  text.
* `writeAll_text`, `writeAll_of_extent_le`: what the memory holds then.
* `nul_writeAll_iff`: where a text without NUL is terminated.
-/

namespace Pcitop.Common

/-- A write at `p`, which moves `p` on. -/
inductive Write where
  /-- `*p++ = c` -/
  | putc (c : Char)
  /-- `p += sprintf(p, …)` of a text -/
  | sprintf (s : CString)
  deriving DecidableEq, Repr

/-- The characters `p` moves over. -/
def Write.text : Write → CString
  | .putc c => [c]
  | .sprintf s => s

/-- The bytes stored. -/
def Write.bytes : Write → CString
  | .putc c => [c]
  | .sprintf s => s ++ [nul]

/-- The contents of memory, by offset. -/
abbrev Memory := ℕ → Char

/-- Memory with some bytes stored from an offset on. -/
def store (mem : Memory) (p : ℕ) (bytes : CString) : Memory := fun i =>
  if i < p then mem i else bytes[i - p]?.getD (mem i)

/-- Writes one after the other. -/
def writeAll : List Write → ℕ → Memory → Memory
  | [], _, mem => mem
  | w :: ws, p, mem => writeAll ws (p + w.text.length) (store mem p w.bytes)

/-- The end of the bytes stored by some writes. -/
def extent : List Write → ℕ → ℕ
  | [], p => p
  | w :: ws, p => max (p + w.bytes.length) (extent ws (p + w.text.length))

/-- The text some writes leave. -/
def textOf (ws : List Write) : CString := ws.flatMap Write.text

@[simp] theorem Write.text_putc (c : Char) : (Write.putc c).text = [c] := rfl

@[simp] theorem Write.text_sprintf (s : CString) : (Write.sprintf s).text = s := rfl

@[simp] theorem textOf_nil : textOf [] = [] := rfl

@[simp] theorem textOf_cons (w : Write) (ws : List Write) :
    textOf (w :: ws) = w.text ++ textOf ws := rfl

@[simp] theorem textOf_append (ws vs : List Write) :
    textOf (ws ++ vs) = textOf ws ++ textOf vs := List.flatMap_append

theorem textOf_map_putc (s : CString) : textOf (s.map .putc) = s := by
  induction s with
  | nil => rfl
  | cons c s ih => rw [List.map_cons, textOf_cons, ih, Write.text_putc, List.singleton_append]

theorem noNul_textOf {ws : List Write} (h : ∀ w ∈ ws, NoNul w.text) : NoNul (textOf ws) := by
  intro hmem
  obtain ⟨w, hw, hnul⟩ := List.mem_flatMap.mp hmem
  exact h w hw hnul

/-! ## The bytes written -/

theorem le_extent (ws : List Write) (p : ℕ) : p + (textOf ws).length ≤ extent ws p := by
  induction ws generalizing p with
  | nil => simp [extent]
  | cons w ws ih =>
    have := ih (p + w.text.length)
    rw [extent, textOf_cons, List.length_append]
    omega

/-- At most one byte, a terminator, is stored behind the text. -/
theorem extent_le (ws : List Write) (p : ℕ) : extent ws p ≤ p + (textOf ws).length + 1 := by
  induction ws generalizing p with
  | nil => simp [extent]
  | cons w ws ih =>
    have := ih (p + w.text.length)
    have hw : w.bytes.length ≤ w.text.length + 1 := by
      cases w with
      | putc c => simp [Write.bytes, Write.text]
      | sprintf s => simp [Write.bytes, Write.text]
    rw [extent, textOf_cons, List.length_append]
    omega

theorem extent_append (ws vs : List Write) (p : ℕ) :
    extent (ws ++ vs) p = max (extent ws p) (extent vs (p + (textOf ws).length)) := by
  induction ws generalizing p with
  | nil =>
    have := le_extent vs p
    simp only [List.nil_append, extent, textOf_nil, List.length_nil, Nat.add_zero]
    omega
  | cons w ws ih =>
    rw [List.cons_append, extent, extent, ih, textOf_cons, List.length_append, Nat.add_assoc]
    omega

theorem extent_putc (s : CString) (p : ℕ) : extent (s.map .putc) p = p + s.length := by
  induction s generalizing p with
  | nil => rfl
  | cons c s ih =>
    rw [List.map_cons, extent, ih, List.length_cons]
    simp only [Write.bytes, Write.text, List.length_singleton]
    omega

/-- When the last characters are stored one by one, they go over the terminator before
    them. -/
theorem extent_append_putc (ws : List Write) {s : CString} (hs : s ≠ []) (p : ℕ) :
    extent (ws ++ s.map .putc) p = p + (textOf (ws ++ s.map .putc)).length := by
  have hle := extent_le ws p
  have hlen := List.length_pos_iff.mpr hs
  rw [extent_append, extent_putc, textOf_append, textOf_map_putc, List.length_append]
  omega

/-! ## What the memory holds -/

theorem store_of_lt (mem : Memory) {p i : ℕ} (bytes : CString) (h : i < p) :
    store mem p bytes i = mem i := by
  rw [store, if_pos h]

theorem writeAll_of_lt (ws : List Write) {p i : ℕ} (mem : Memory) (h : i < p) :
    writeAll ws p mem i = mem i := by
  induction ws generalizing p mem with
  | nil => rfl
  | cons w ws ih => rw [writeAll, ih _ (by omega), store_of_lt _ _ h]

/-- Behind the bytes written nothing changes. -/
theorem writeAll_of_extent_le (ws : List Write) {p i : ℕ} (mem : Memory) (h : extent ws p ≤ i) :
    writeAll ws p mem i = mem i := by
  induction ws generalizing p mem with
  | nil => rfl
  | cons w ws ih =>
    rw [extent] at h
    rw [writeAll, ih _ (by omega), store, if_neg (by omega),
      List.getElem?_eq_none (by omega), Option.getD_none]

/-- The text is there. -/
theorem writeAll_text (ws : List Write) {p k : ℕ} (mem : Memory) {c : Char}
    (h : (textOf ws)[k]? = some c) : writeAll ws p mem (p + k) = c := by
  induction ws generalizing p k mem with
  | nil => exact absurd h (by simp)
  | cons w ws ih =>
    rw [textOf_cons] at h
    rw [writeAll]
    rcases Nat.lt_or_ge k w.text.length with hk | hk
    · rw [List.getElem?_append_left hk] at h
      have hbytes : w.bytes[k]? = some c := by
        cases w with
        | putc d => exact h
        | sprintf s => exact (List.getElem?_append_left hk).trans h
      rw [writeAll_of_lt _ _ (by omega), store, if_neg (by omega), Nat.add_sub_cancel_left,
        hbytes, Option.getD_some]
    · rw [List.getElem?_append_right hk] at h
      have := @ih (p + w.text.length) _ (store mem p w.bytes) h
      rwa [show p + w.text.length + (k - w.text.length) = p + k by omega] at this

/-- A text without NUL whose last characters are stored one by one is terminated by what
    the memory held behind it. -/
theorem nul_writeAll_iff {ws : List Write} {s : CString} (hs : s ≠ [])
    (hnul : NoNul (textOf (ws ++ s.map .putc))) (mem : Memory) (size : ℕ) :
    (∃ i < size, writeAll (ws ++ s.map .putc) 0 mem i = nul) ↔
      ∃ i, (textOf (ws ++ s.map .putc)).length ≤ i ∧ i < size ∧ mem i = nul := by
  have hext := extent_append_putc ws hs 0
  rw [Nat.zero_add] at hext
  constructor
  · rintro ⟨i, hi, hmem⟩
    rcases Nat.lt_or_ge i (textOf (ws ++ s.map .putc)).length with hlt | hge
    · have htext := writeAll_text (ws ++ s.map .putc) (p := 0) mem (List.getElem?_eq_getElem hlt)
      rw [Nat.zero_add, hmem] at htext
      exact absurd (htext ▸ List.getElem_mem hlt) hnul
    · rw [writeAll_of_extent_le _ _ (by omega)] at hmem
      exact ⟨i, hge, hi, hmem⟩
  · rintro ⟨i, hge, hi, hmem⟩
    exact ⟨i, hi, by rw [writeAll_of_extent_le _ _ (by omega), hmem]⟩

end Pcitop.Common
