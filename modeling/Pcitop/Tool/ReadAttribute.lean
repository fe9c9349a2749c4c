import Pcitop.Common.Arrays
import Pcitop.Tool.Util

/-!
# What a read leaves in the destination

`read_attribute` removes the last character of what it read without looking at it, and
copies with a `strncpy` that adds no terminator when the text fills the destination. A
content of a whole page leaves its buffer without a terminator, so that `strlen` goes on
behind it; `readAttributeIn` is `read_attribute` with the memory behind its page.

* `readAttributeIn_of_lt`: for a shorter content that memory does not matter.
* `delivers_iff`: the contents that arrive as they are meant to.
* `reads_iff`: the same for `read_attribute` with its failures.
-/

namespace Pcitop.Tool

open Pcitop.Common

/-- `read_attribute` (`util.c`, lines 77–117), where the bytes `behind` follow the page
    `buf` in memory. -/
def readAttributeIn (ps : PageSize) (behind : CString) (file : FileRead) (contents : CString)
    (n : ℕ) : ℤ × CString :=
  match file with
  | .noMemory | .noOpen | .noRead => (1, contents)
  | .data bytes =>
    let pageSize : ℕ := ps
    let buf := (bytes ++ zeroed pageSize).take pageSize ++ behind
    let buf := dropLastChar buf
    (0, strncpy contents buf (if n < pageSize then n else pageSize))

/-- A text without the newline at its end, if there is one. -/
def chomp (s : CString) : CString := if s.getLast? = some '\n' then s.dropLast else s

/-- The `n` bytes at `dst` hold the text of a file, cut to `n - 1` characters, and its
    terminator. -/
structure Delivers (bytes : CString) (n : ℕ) (dst : CString) : Prop where
  terminated : nul ∈ dst.take n
  text : cstr dst = (chomp bytes).take (n - 1)

/-- What `read_attribute` is meant to do: to deliver the file, or to fail and leave the
    destination alone. -/
structure Reads (ps : PageSize) (behind : CString) (file : FileRead) (contents : CString)
    (n : ℕ) : Prop where
  succeeds : (readAttributeIn ps behind file contents n).1 = 0 →
    ∃ bytes, file = .data bytes ∧ Delivers bytes n (readAttributeIn ps behind file contents n).2
  fails : (readAttributeIn ps behind file contents n).1 = 1 →
    (readAttributeIn ps behind file contents n).2 = contents

/-! ## The memory behind the page -/

theorem readAttributeIn_nil (ps : PageSize) (file : FileRead) (contents : CString) (n : ℕ) :
    readAttributeIn ps [] file contents n = readAttribute ps file contents n := by
  cases file with
  | data bytes => simp only [readAttributeIn, readAttribute, List.append_nil]
  | noMemory => rfl
  | noOpen => rfl
  | noRead => rfl

/-- The string in a page that is not full. -/
theorem cstr_page_of_lt {ps : PageSize} {bytes : CString} (hn : NoNul bytes)
    (h : bytes.length < ps) (behind : CString) :
    cstr ((bytes ++ zeroed ps).take ps ++ behind) = bytes := by
  obtain ⟨k, hk⟩ : ∃ k, (ps : ℕ) - bytes.length = k + 1 := ⟨ps - bytes.length - 1, by omega⟩
  rw [zeroed, List.take_append, List.take_of_length_le h.le, List.take_replicate,
    min_eq_left (Nat.sub_le _ _), hk, List.replicate_succ, List.append_assoc, List.cons_append]
  exact cstr_append_nul hn _

/-- The string in a full page goes on behind it. -/
theorem cstr_page_of_eq {ps : PageSize} {bytes : CString} (hn : NoNul bytes)
    (h : bytes.length = ps) (behind : CString) :
    cstr ((bytes ++ zeroed ps).take ps ++ behind) = bytes ++ cstr behind := by
  rw [List.take_append_of_le_length h.ge, List.take_of_length_le h.le, cstr_append hn]

theorem readAttributeIn_of_lt {ps : PageSize} {bytes : CString} (hn : NoNul bytes)
    (h : bytes.length < ps) (behind contents : CString) (n : ℕ) :
    readAttributeIn ps behind (.data bytes) contents n =
      readAttribute ps (.data bytes) contents n := by
  rw [← readAttributeIn_nil]
  refine Prod.ext rfl (strncpy_congr ?_ contents _)
  rw [cstr_dropLastChar, cstr_dropLastChar, cstr_page_of_lt hn h, cstr_page_of_lt hn h]

/-! ## What arrives -/

/-- A copy is terminated within its `n` bytes when the source is shorter. -/
theorem nul_mem_strncpy_iff (dst src : CString) (n : ℕ) :
    nul ∈ (strncpy dst src n).take n ↔ strlen src < n := by
  rw [strncpy_eq, List.take_left' (length_strncpyBytes src n), nul_mem_strncpyBytes_iff]

theorem delivers_strncpy_iff {bytes dst src : CString} {n : ℕ} :
    Delivers bytes n (strncpy dst src n) ↔
      strlen src < n ∧ cstr src = (chomp bytes).take (n - 1) := by
  constructor
  · rintro ⟨hterm, htext⟩
    have hlt := (nul_mem_strncpy_iff dst src n).mp hterm
    rw [cstr_strncpy hlt] at htext
    exact ⟨hlt, htext⟩
  · rintro ⟨hlt, htext⟩
    refine ⟨(nul_mem_strncpy_iff dst src n).mpr hlt, ?_⟩
    rw [cstr_strncpy hlt, htext]

/-- The text without its last character is the text to deliver when that character is the
    newline, or when there is only room for the rest. -/
theorem dropLast_eq_take_chomp_iff (bytes : CString) {n : ℕ} (h1 : 1 ≤ n) :
    (bytes.length - 1 < n ∧ bytes.dropLast = (chomp bytes).take (n - 1)) ↔
      bytes.length ≤ n ∧ (bytes = [] ∨ bytes.getLast? = some '\n' ∨ bytes.length = n) := by
  have hle : bytes.length - 1 < n ↔ bytes.length ≤ n := by omega
  rw [hle]
  refine and_congr_right fun hlen => ?_
  unfold chomp
  split_ifs with hlast
  · have hshort : bytes.dropLast.length ≤ n - 1 := by
      rw [List.length_dropLast]
      omega
    exact iff_of_true (List.take_of_length_le hshort).symm (.inr (.inl hlast))
  · rw [List.dropLast_eq_take]
    constructor
    · intro h
      have hlength := congrArg List.length h
      rw [List.length_take, List.length_take] at hlength
      by_cases hnil : bytes = []
      · exact .inl hnil
      · have hpos : 0 < bytes.length := List.length_pos_of_ne_nil hnil
        exact .inr (.inr (by omega))
    · rintro (hnil | hnl | heq)
      · rw [hnil, List.take_nil, List.take_nil]
      · exact absurd hnl hlast
      · rw [heq]

/-- A content of at most a page arrives as it is meant to if and only if it is no longer
    than the destination, ends in a newline or has just the size of the destination (or is
    empty), and, if it fills the page, is followed by a terminator in memory. -/
theorem delivers_iff {ps : PageSize} {bytes : CString} (hn : NoNul bytes)
    (hpage : bytes.length ≤ ps) {n : ℕ} (h1 : 1 ≤ n) (hps : n ≤ ps) (behind contents : CString) :
    Delivers bytes n (readAttributeIn ps behind (.data bytes) contents n).2 ↔
      bytes.length ≤ n ∧ (bytes = [] ∨ bytes.getLast? = some '\n' ∨ bytes.length = n) ∧
        (bytes.length = ps → strlen behind = 0) := by
  have hmin : (if n < (ps : ℕ) then n else (ps : ℕ)) = n := by split_ifs <;> omega
  simp only [readAttributeIn, hmin]
  rw [delivers_strncpy_iff, strlen, cstr_dropLastChar, List.length_dropLast]
  obtain hlt | heq := Nat.lt_or_eq_of_le hpage
  · have hne : bytes.length ≠ ps := hlt.ne
    rw [cstr_page_of_lt hn hlt, dropLast_eq_take_chomp_iff bytes h1]
    tauto
  · rw [cstr_page_of_eq hn heq]
    by_cases hbehind : strlen behind = 0
    · have hnil : cstr behind = [] := List.length_eq_zero_iff.mp hbehind
      rw [hnil, List.append_nil, dropLast_eq_take_chomp_iff bytes h1]
      tauto
    · -- The terminator lies behind the page, where no copy gets to.
      have hlong : ¬ (bytes ++ cstr behind).length - 1 < n := by
        unfold strlen at hbehind
        rw [List.length_append]
        omega
      tauto

/-- For a file of text of at most a page, and a destination of at most a page,
    `read_attribute` does what it is meant to if and only if it fails or the text arrives. -/
theorem reads_iff (ps : PageSize) (behind : CString) {file : FileRead}
    (htext : ∀ bytes, file = .data bytes → NoNul bytes ∧ bytes.length ≤ ps) (contents : CString)
    {n : ℕ} (h1 : 1 ≤ n) (hps : n ≤ ps) :
    Reads ps behind file contents n ↔ ∀ bytes, file = .data bytes →
      bytes.length ≤ n ∧ (bytes = [] ∨ bytes.getLast? = some '\n' ∨ bytes.length = n) ∧
        (bytes.length = ps → strlen behind = 0) := by
  cases file with
  | data bytes =>
    obtain ⟨hn, hpage⟩ := htext bytes rfl
    have hiff := delivers_iff hn hpage h1 hps behind contents
    constructor
    · rintro ⟨hsucc, -⟩ bytes' hbytes
      obtain rfl := FileRead.data.inj hbytes
      obtain ⟨bytes', hbytes, hdel⟩ := hsucc rfl
      obtain rfl := FileRead.data.inj hbytes
      exact hiff.mp hdel
    · intro h
      refine ⟨fun _ => ⟨bytes, rfl, hiff.mpr (h bytes rfl)⟩, fun hret => ?_⟩
      have hzero : (readAttributeIn ps behind (.data bytes) contents n).1 = 0 := rfl
      rw [hzero] at hret
      exact absurd hret (by decide)
  | noMemory => exact iff_of_true ⟨nofun, fun _ => rfl⟩ nofun
  | noOpen => exact iff_of_true ⟨nofun, fun _ => rfl⟩ nofun
  | noRead => exact iff_of_true ⟨nofun, fun _ => rfl⟩ nofun

theorem reads_iff_revision :
    Reads ⟨4096, le_rfl⟩ [] (.data "2.0\n".toList) (zeroed 10) 10 :=
  (reads_iff ⟨4096, le_rfl⟩ [] (by rintro _ ⟨⟩; decide) (zeroed 10) (by norm_num) (by norm_num)).mpr
    (by rintro _ ⟨⟩; decide)

/-- A text without a newline loses its last character. -/
theorem not_reads_noNewline :
    ¬ Reads ⟨4096, le_rfl⟩ [] (.data "2.0".toList) (zeroed 10) 10 := by
  rintro ⟨hsucc, -⟩
  obtain ⟨bytes, hbytes, hdel⟩ := hsucc rfl
  obtain rfl := FileRead.data.inj hbytes
  have h := ((delivers_iff (by decide) (by decide) (by norm_num) (by norm_num) _ _).mp hdel).2.1
  revert h
  decide

end Pcitop.Tool
