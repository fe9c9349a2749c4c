import Pcitop.Tool.Measure

/-!
# Counters from sample to sample

What a displayed LBA holds after a sample depends on whether `hplba_collect` took
counters in it. In either case the old values are the new ones afterwards, so that
the next differences are taken from the last counters there were.

* `after_of_counters`, `after_of_none`: an LBA after one sample.
* `prevTimer_after`: an old timer that is the current one stays so.
* `Holds.after_of_gap`: through samples without counters nothing changes.
* `util_of_consecutive`: the percentage of two consecutive samples with counters is
  that of their differences.
-/

namespace Pcitop.Tool

open Pcitop.Common

variable {ps : PageSize} {env : Env} {lba : LbaInfo}

/-! ## One sample -/

theorem processCounts_fst (hd : lba.display ≠ 0) :
    (processCounts lba).1 = { lba with prevTimer := lba.timer, prevCounter := lba.counter } := by
  rw [processCounts, if_pos hd]

theorem processCounts_snd (hd : lba.display ≠ 0) (hu : lba.inUse ≠ 0) :
    (processCounts lba).2 =
      some (.ratio (lba.counter - lba.prevCounter) (lba.timer - lba.prevTimer)) := by
  unfold processCounts
  simp only [if_pos hd, if_pos hu]

theorem display_after (hd : lba.display ≠ 0) (i : ℕ) : (env.after ps lba i).display ≠ 0 := by
  rw [(sameLba_after lba i).display]
  exact hd

theorem inUse_after (hu : lba.inUse ≠ 0) (i : ℕ) : (env.after ps lba i).inUse ≠ 0 := by
  rw [(sameLba_after lba i).inUse]
  exact hu

theorem collectLba_after (hd : lba.display ≠ 0) (i : ℕ) :
    collectLba ps (env.reading i) (env.after ps lba i) =
      (hplbaCollect ps (env.reading i lba.name) (env.after ps lba i)).2 := by
  have hs : SameLba lba (env.after ps lba i) := sameLba_after lba i
  rw [collectLba, hs.display, hs.name, if_pos hd]

/-- After a sample with counters. -/
theorem after_of_counters (hd : lba.display ≠ 0) {i : ℕ} {t c : BitVec 64}
    (h : (env.reading i lba.name).counters ps = some (t, c)) :
    env.after ps lba (i + 1) =
      { env.after ps lba i with timer := t, counter := c, prevTimer := t, prevCounter := c } := by
  rw [Env.after, collectLba_after hd, hplbaCollect_of_counters h, processCounts_fst]
  show (env.after ps lba i).display ≠ 0
  exact display_after hd i

/-- After a sample without. -/
theorem after_of_none (hd : lba.display ≠ 0) {i : ℕ}
    (h : (env.reading i lba.name).counters ps = none) :
    env.after ps lba (i + 1) =
      { env.after ps lba i with
        prevTimer := (env.after ps lba i).timer
        prevCounter := (env.after ps lba i).counter } := by
  have hdisplay : (env.after ps lba i).display ≠ 0 := display_after hd i
  rw [Env.after, collectLba_after hd, hplbaCollect_of_none h, processCounts_fst hdisplay]

/-- The percentage of a sample with counters. -/
theorem util_of_counters (hd : lba.display ≠ 0) (hu : lba.inUse ≠ 0) {i : ℕ} {t c : BitVec 64}
    (h : (env.reading i lba.name).counters ps = some (t, c)) :
    env.util ps lba i = some (.ratio (c - (env.after ps lba i).prevCounter)
      (t - (env.after ps lba i).prevTimer)) := by
  rw [Env.util, collectLba_after hd, hplbaCollect_of_counters h, processCounts_snd]
  · show (env.after ps lba i).display ≠ 0
    exact display_after hd i
  · show (env.after ps lba i).inUse ≠ 0
    exact inUse_after hu i

/-- The percentage of a sample without: that of the counters there were. -/
theorem util_of_none (hd : lba.display ≠ 0) (hu : lba.inUse ≠ 0) {i : ℕ}
    (h : (env.reading i lba.name).counters ps = none) :
    env.util ps lba i =
      some (.ratio ((env.after ps lba i).counter - (env.after ps lba i).prevCounter)
        ((env.after ps lba i).timer - (env.after ps lba i).prevTimer)) := by
  have hdisplay : (env.after ps lba i).display ≠ 0 := display_after hd i
  have huse : (env.after ps lba i).inUse ≠ 0 := inUse_after hu i
  rw [Env.util, collectLba_after hd, hplbaCollect_of_none h, processCounts_snd hdisplay huse]

theorem util_of_hidden (hd : lba.display = 0) (i : ℕ) : env.util ps lba i = none := by
  have hs : SameLba lba (env.after ps lba i) := sameLba_after lba i
  have hc : SameLba (env.after ps lba i) (collectLba ps (env.reading i) (env.after ps lba i)) :=
    sameLba_collectLba _ _
  rw [Env.util, processCounts, if_neg]
  rw [hc.display, hs.display, hd]
  decide

/-- After any number of samples the old timer is the current one. -/
theorem prevTimer_after (hd : lba.display ≠ 0) (h : lba.prevTimer = lba.timer) (i : ℕ) :
    (env.after ps lba i).prevTimer = (env.after ps lba i).timer := by
  cases i with
  | zero => exact h
  | succ i =>
    obtain hr | ⟨⟨t, c⟩, hr⟩ :=
      Option.eq_none_or_eq_some ((env.reading i lba.name).counters ps)
    · rw [after_of_none hd hr]
    · rw [after_of_counters hd hr]

/-! ## Consecutive samples -/

/-- The counters an LBA holds, as the current and as the old ones. -/
structure Holds (lba : LbaInfo) (t c : BitVec 64) : Prop where
  timer : lba.timer = t
  counter : lba.counter = c
  prevTimer : lba.prevTimer = t
  prevCounter : lba.prevCounter = c

theorem holds_after_of_counters (hd : lba.display ≠ 0) {i : ℕ} {t c : BitVec 64}
    (h : (env.reading i lba.name).counters ps = some (t, c)) :
    Holds (env.after ps lba (i + 1)) t c := by
  rw [after_of_counters hd h]
  exact ⟨rfl, rfl, rfl, rfl⟩

theorem Holds.after_of_none (hd : lba.display ≠ 0) {i : ℕ} {t c : BitVec 64}
    (hold : Holds (env.after ps lba i) t c)
    (h : (env.reading i lba.name).counters ps = none) : Holds (env.after ps lba (i + 1)) t c := by
  rw [Tool.after_of_none hd h]
  exact ⟨hold.timer, hold.counter, hold.timer, hold.counter⟩

/-- Through samples without counters an LBA holds what it held. -/
theorem Holds.after_of_gap (hd : lba.display ≠ 0) {i j : ℕ} {t c : BitVec 64}
    (hold : Holds (env.after ps lba i) t c) (hij : i ≤ j)
    (h : ∀ l, i ≤ l → l < j → (env.reading l lba.name).counters ps = none) :
    Holds (env.after ps lba j) t c := by
  induction j with
  | zero =>
    obtain rfl : i = 0 := by omega
    exact hold
  | succ j ih =>
    rcases Nat.eq_or_lt_of_le hij with rfl | hlt
    · exact hold
    · exact (ih (by omega) fun l h1 h2 => h l h1 (by omega)).after_of_none hd
        (h j (by omega) (by omega))

/-- The percentage of a sample with counters, from the counters held before it. -/
theorem Holds.util_eq (hd : lba.display ≠ 0) (hu : lba.inUse ≠ 0) {i : ℕ} {t c t' c' : BitVec 64}
    (hold : Holds (env.after ps lba i) t c)
    (h : (env.reading i lba.name).counters ps = some (t', c')) :
    env.util ps lba i = some (.ratio (c' - c) (t' - t)) := by
  rw [util_of_counters hd hu h, hold.prevCounter, hold.prevTimer]

/-- Samples `i` and `j` take counters, and none in between does. -/
structure Consecutive (ps : PageSize) (env : Env) (name : CString) (i j : ℕ) : Prop where
  lt : i < j
  first : (env.reading i name).counters ps ≠ none
  second : (env.reading j name).counters ps ≠ none
  between : ∀ l, i < l → l < j → (env.reading l name).counters ps = none

/-- The percentage of two consecutive samples. -/
theorem util_of_consecutive (hd : lba.display ≠ 0) (hu : lba.inUse ≠ 0) {i j : ℕ}
    (hcons : Consecutive ps env lba.name i j) {t c t' c' : BitVec 64}
    (hi : (env.reading i lba.name).counters ps = some (t, c))
    (hj : (env.reading j lba.name).counters ps = some (t', c')) :
    env.util ps lba j = some (.ratio (c' - c) (t' - t)) := by
  have hold : Holds (env.after ps lba j) t c :=
    (holds_after_of_counters hd hi).after_of_gap hd hcons.lt
      fun l h1 h2 => hcons.between l (by omega) h2
  exact hold.util_eq hd hu hj

end Pcitop.Tool
