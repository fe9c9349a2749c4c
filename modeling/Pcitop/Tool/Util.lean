import Pcitop.Common.CString

/-!
# Reading and writing attributes

`read_attribute` and `write_attribute` of `src/util.c`. A file is modelled by
what the calls on it meet (`FileRead`), the page size is any the system may have,
and a destination is the array it points at.

* `cstr_readAttribute`: a successful read leaves the content without its last
  character, when that fits in the destination.
* `take_cstr_readAttribute`: the characters that fit do not depend on what the
  destination held before.
-/

namespace Pcitop.Tool

open Pcitop.Common

/-- `PATH_MAX` of `<linux/limits.h>`. -/
def PATH_MAX : ℕ := 4096

/-- What `getpagesize()` may return. -/
abbrev PageSize := { n : ℕ // 4096 ≤ n }

/-- Ways in which a run of the tool ends before its last statement. -/
inductive Fault where
  /-- a slot is added to the bridge of a bus whose `root_bridge` is NULL -/
  | nullBusRootBridge
  /-- the slots of an LBA whose `sysfs_root_bridge` is NULL are accessed -/
  | nullLbaRootBridge
  /-- a field of a NULL `struct lba_info *` is accessed -/
  | nullLba
  /-- an operation of an LBA whose `ops` is NULL is called -/
  | nullOps
  /-- `exit(status)` -/
  | exit (status : ℤ)
  deriving DecidableEq, Repr

/-- What `read_attribute` meets: no memory for its page, a failing `open`, a
    failing `read`, or the bytes of the file. -/
inductive FileRead where
  | noMemory
  | noOpen
  | noRead
  | data (bytes : CString)
  deriving DecidableEq, Repr

/-- `if (strlen(buf) > 0) buf[strlen(buf) - 1] = '\0'`. -/
def dropLastChar (buf : CString) : CString :=
  if strlen buf > 0 then buf.set (strlen buf - 1) nul else buf

/-- `read_attribute` (lines 77–117): the return value, and `contents` after it. -/
def readAttribute (ps : PageSize) (file : FileRead) (contents : CString) (n : ℕ) : ℤ × CString :=
  match file with
  | .noMemory | .noOpen | .noRead => (1, contents)
  | .data bytes =>
    let pageSize : ℕ := ps
    let buf := (bytes ++ zeroed pageSize).take pageSize
    let buf := dropLastChar buf
    (0, strncpy contents buf (if n < pageSize then n else pageSize))

/-- The bytes `write_attribute` hands to `write` (line 131): the string and its
    terminator. -/
def writeAttribute (contents : CString) : CString := cstr contents ++ [nul]

/-! ## The last character -/

theorem cstr_set_nul {s : CString} (hs : NoNul s) (t : CString) {k : ℕ} (hk : k < s.length) :
    cstr ((s ++ t).set k nul) = s.take k := by
  rw [List.set_append_left k nul hk, List.set_eq_take_append_cons_drop, if_pos hk,
    List.append_assoc, List.cons_append]
  exact cstr_append_nul (hs.take k) _

theorem cstr_dropLastChar (buf : CString) : cstr (dropLastChar buf) = (cstr buf).dropLast := by
  unfold dropLastChar
  split_ifs with h
  · obtain ⟨t, ht⟩ : cstr buf <+: buf := List.takeWhile_prefix _
    have hcut : cstr ((cstr buf ++ t).set (strlen buf - 1) nul) =
        (cstr buf).take (strlen buf - 1) :=
      cstr_set_nul (noNul_cstr buf) t (by unfold strlen at *; omega)
    rw [ht] at hcut
    rw [hcut, List.dropLast_eq_take, strlen]
  · have : cstr buf = [] := List.length_eq_zero_iff.mp (by unfold strlen at h; omega)
    rw [this]
    rfl

/-! ## `read_attribute` -/

/-- What a read makes of a file: its content up to the page, without the last
    character. -/
def attributeText (ps : PageSize) (bytes : CString) : CString :=
  (cstr ((bytes ++ zeroed ps).take ps)).dropLast

/-- A text of at most a page loses its last character, and only that. -/
theorem attributeText_of_le (ps : PageSize) {bytes : CString} (hn : NoNul bytes)
    (h : bytes.length ≤ ps) : attributeText ps bytes = bytes.dropLast := by
  rw [attributeText, zeroed, List.take_append, List.take_of_length_le h, List.take_replicate,
    cstr_append_replicate hn]

theorem noNul_attributeText (ps : PageSize) (bytes : CString) : NoNul (attributeText ps bytes) :=
  fun h => noNul_cstr _ (List.mem_of_mem_dropLast h)

/-- A read of `n` bytes of at most a page. -/
theorem readAttribute_of_le (ps : PageSize) (bytes contents : CString) {n : ℕ} (hn : n ≤ ps) :
    (readAttribute ps (.data bytes) contents n).2 =
      strncpy contents (dropLastChar ((bytes ++ zeroed ps).take ps)) n := by
  have hmin : (if n < (ps : ℕ) then n else (ps : ℕ)) = n := by split_ifs <;> omega
  simp only [readAttribute, hmin]

/-- The characters that fit are those of the file. -/
theorem take_cstr_readAttribute (ps : PageSize) (bytes contents : CString) {n k : ℕ}
    (hn : n ≤ ps) (hk : k ≤ n) :
    (cstr (readAttribute ps (.data bytes) contents n).2).take k =
      (attributeText ps bytes).take k := by
  have hsrc : cstr (dropLastChar ((bytes ++ zeroed ps).take ps)) = attributeText ps bytes :=
    cstr_dropLastChar _
  rw [readAttribute_of_le ps bytes contents hn]
  obtain h | h := Nat.lt_or_ge (attributeText ps bytes).length n
  · rw [cstr_strncpy (by rw [strlen, hsrc]; exact h), hsrc]
  · rw [strncpy_of_le (by rw [strlen, hsrc]; exact h), hsrc]
    rw [cstr_append ((noNul_attributeText ps bytes).take n), List.take_append_of_le_length,
      List.take_take, min_eq_left hk]
    simp
    omega

/-- A content shorter than the destination arrives whole. -/
theorem cstr_readAttribute (ps : PageSize) (bytes contents : CString) {n : ℕ} (hn : n ≤ ps)
    (h : (attributeText ps bytes).length < n) :
    cstr (readAttribute ps (.data bytes) contents n).2 = attributeText ps bytes := by
  have hsrc : cstr (dropLastChar ((bytes ++ zeroed ps).take ps)) = attributeText ps bytes :=
    cstr_dropLastChar _
  rw [readAttribute_of_le ps bytes contents hn, cstr_strncpy (by rw [strlen, hsrc]; exact h), hsrc]

end Pcitop.Tool
