import Pcitop.Common.CString

/-!
# Rows of columns

A row with a cell for every shown element of a list, where a cell is told whether its
element is the last of the list, shown or not.

* `sum_cells_width`: the width of a row whose columns are separated except after the
  last element.
* `drop_offset`: the text of a row from the offset of a cell on.
* `offset_eq_iff`: the cells of a row start at equal distances exactly when all but the
  last of them have the same length.
* `forall_dropLast_cells_iff`: these are the cells of the elements that another shown
  element follows.
-/

namespace Pcitop.Common

section Cells

variable {α β γ : Type} (shown : α → Bool)

/-- The cells of the shown elements. -/
def cells (cell : Bool → α → β) : List α → List β
  | [] => []
  | x :: xs => if shown x then cell xs.isEmpty x :: cells cell xs else cells cell xs

/-- The last element is shown. -/
def lastShown (l : List α) : Bool := l.getLast?.any shown

variable {shown}

theorem length_cells (cell : Bool → α → β) (l : List α) :
    (cells shown cell l).length = l.countP shown := by
  induction l with
  | nil => rfl
  | cons x xs ih =>
    rw [cells, List.countP_cons]
    split_ifs
    · rw [List.length_cons, ih]
    · rw [ih, Nat.add_zero]

theorem map_cells (f : β → γ) (cell : Bool → α → β) (l : List α) :
    (cells shown cell l).map f = cells shown (fun last x => f (cell last x)) l := by
  induction l with
  | nil => rfl
  | cons x xs ih =>
    rw [cells, cells]
    split_ifs
    · rw [List.map_cons, ih]
    · exact ih

/-- A cell is that of a shown element. -/
theorem mem_cells {cell : Bool → α → β} {l : List α} {c : β} (h : c ∈ cells shown cell l) :
    ∃ x ∈ l, shown x = true ∧ ∃ last, cell last x = c := by
  induction l with
  | nil => exact absurd h List.not_mem_nil
  | cons x xs ih =>
    rw [cells] at h
    split_ifs at h with hx
    · obtain rfl | h := List.mem_cons.mp h
      · exact ⟨x, by simp, hx, _, rfl⟩
      · obtain ⟨y, hy, hrest⟩ := ih h
        exact ⟨y, List.mem_cons_of_mem _ hy, hrest⟩
    · obtain ⟨y, hy, hrest⟩ := ih h
      exact ⟨y, List.mem_cons_of_mem _ hy, hrest⟩

theorem cells_congr {cell cell' : Bool → α → β} {l : List α}
    (h : ∀ x ∈ l, shown x = true → ∀ last, cell last x = cell' last x) :
    cells shown cell l = cells shown cell' l := by
  induction l with
  | nil => rfl
  | cons x xs ih =>
    have ih := ih fun y hy => h y (List.mem_cons_of_mem _ hy)
    rw [cells, cells, ih]
    split_ifs with hx
    · rw [h x (by simp) hx]
    · rfl

theorem sum_cells_add (f g : Bool → α → ℕ) (l : List α) :
    (cells shown (fun last x => f last x + g last x) l).sum =
      (cells shown f l).sum + (cells shown g l).sum := by
  induction l with
  | nil => rfl
  | cons x xs ih =>
    simp only [cells]
    split_ifs
    · simp only [List.sum_cons, ih]
      omega
    · exact ih

theorem lastShown_cons_cons (x y : α) (l : List α) :
    lastShown shown (x :: y :: l) = lastShown shown (y :: l) := by
  simp [lastShown]

/-- Columns of a width, separated except after the last element. -/
theorem sum_cells_width (width sep : ℕ) (l : List α) :
    (cells shown (fun last _ => if last then width else width + sep) l).sum +
      (if lastShown shown l then sep else 0) = l.countP shown * (width + sep) := by
  induction l with
  | nil => simp [cells, lastShown]
  | cons x xs ih =>
    cases xs with
    | nil =>
      cases hx : shown x with
      | true => simp [cells, lastShown, hx]
      | false => simp [cells, lastShown, hx]
    | cons y xs =>
      rw [lastShown_cons_cons, cells, List.countP_cons]
      cases hx : shown x with
      | true =>
        simp only [if_true, List.sum_cons, List.isEmpty_cons, Bool.false_eq_true, if_false,
          Nat.add_mul, one_mul, ← ih]
        omega
      | false =>
        simp only [Bool.false_eq_true, if_false, Nat.add_zero]
        exact ih

/-! ## All but the last cell -/

/-- The cells but the last are those of the elements that another shown one follows. -/
theorem forall_dropLast_cells_iff (P : β → Prop) (cell : Bool → α → β) (l : List α) :
    (∀ c ∈ (cells shown cell l).dropLast, P c) ↔
      ∀ before x after, l = before ++ x :: after → shown x = true → after.any shown = true →
        P (cell false x) := by
  induction l with
  | nil => simp [cells]
  | cons x xs ih =>
    have hcons : (∀ before y after, x :: xs = before ++ y :: after → shown y = true →
        after.any shown = true → P (cell false y)) ↔
        (shown x = true → xs.any shown = true → P (cell false x)) ∧
          ∀ before y after, xs = before ++ y :: after → shown y = true →
            after.any shown = true → P (cell false y) := by
      constructor
      · exact fun h => ⟨h [] x xs rfl, fun before y after hxs =>
          h (x :: before) y after (by rw [hxs, List.cons_append])⟩
      · rintro ⟨hx, hrest⟩ before y after hsplit
        cases before with
        | nil =>
          obtain ⟨rfl, rfl⟩ := List.cons.inj hsplit
          exact hx
        | cons z before => exact hrest before y after (List.cons.inj hsplit).2
    have hany : xs.any shown = true ↔ cells shown cell xs ≠ [] := by
      rw [← List.length_pos_iff, length_cells, List.countP_pos_iff, List.any_eq_true]
    rw [hcons, ← ih, cells]
    by_cases hx : shown x = true
    · rw [if_pos hx]
      by_cases hxs : xs.any shown = true
      · have hne : xs.isEmpty = false := by
          cases xs with
          | nil => exact absurd hxs (by simp)
          | cons y ys => rfl
        rw [List.dropLast_cons_of_ne_nil (hany.mp hxs), List.forall_mem_cons, hne]
        simp only [hx, hxs, true_implies]
      · have hnil : cells shown cell xs = [] := not_not.mp fun h => hxs (hany.mpr h)
        simp [hnil, hxs]
    · simp [hx]

end Cells

/-! ## Offsets -/

/-- Where the `k`-th cell of a row starts, after a header of `p` characters. -/
def offset (p : ℕ) (row : List CString) (k : ℕ) : ℕ := p + ((row.take k).map List.length).sum

theorem offset_zero (p : ℕ) (row : List CString) : offset p row 0 = p := rfl

theorem offset_cons_succ (p : ℕ) (c : CString) (row : List CString) (k : ℕ) :
    offset p (c :: row) (k + 1) = offset (p + c.length) row k := by
  rw [offset, offset, List.take_succ_cons, List.map_cons, List.sum_cons]
  omega

/-- What stands from there on is the rest of the row. -/
theorem drop_offset (header : CString) (row : List CString) (k : ℕ) :
    (header ++ row.flatten).drop (offset header.length row k) = (row.drop k).flatten := by
  induction row generalizing header k with
  | nil =>
    rw [offset, List.take_nil, List.drop_nil]
    simp
  | cons c row ih =>
    cases k with
    | zero => rw [offset_zero, List.drop_left, List.drop_zero]
    | succ k =>
      have ih := ih (header ++ c) k
      rw [List.length_append] at ih
      rw [offset_cons_succ, List.drop_succ_cons, ← ih, List.flatten_cons, List.append_assoc]

/-- The cells start at equal distances exactly when all but the last are as long. -/
theorem offset_eq_iff (p w : ℕ) (row : List CString) :
    (∀ k < row.length, offset p row k = p + k * w) ↔ ∀ c ∈ row.dropLast, c.length = w := by
  induction row generalizing p with
  | nil => simp
  | cons c row ih =>
    cases row with
    | nil =>
      refine iff_of_true (fun k hk => ?_) (by simp)
      obtain rfl : k = 0 := by simpa using hk
      rw [offset_zero]
      omega
    | cons d row =>
      rw [List.dropLast_cons_of_ne_nil (List.cons_ne_nil d row), List.forall_mem_cons]
      constructor
      · intro h
        have hc : c.length = w := by
          have h1 := h 1 (by simp)
          rw [offset_cons_succ, offset_zero] at h1
          omega
        refine ⟨hc, (ih (p + c.length)).mp fun k hk => ?_⟩
        have hk1 := h (k + 1) (by simpa using hk)
        rw [offset_cons_succ] at hk1
        rw [hk1, hc, Nat.add_mul]
        omega
      · rintro ⟨hc, hrest⟩ k hk
        cases k with
        | zero =>
          rw [offset_zero]
          omega
        | succ k =>
          rw [offset_cons_succ, (ih (p + c.length)).mpr hrest k (by simpa using hk), hc,
            Nat.add_mul]
          omega

end Pcitop.Common
