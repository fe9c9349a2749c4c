import Pcitop.Tool.Main

/-!
# LBAs without a root bridge

`init_lbas` drops the return value of `find_lba_location_info`, so that an LBA whose
name selects no root bridge is on `host_lba_list` like any other, with a NULL
`sysfs_root_bridge`. Whether the program ever follows that pointer is up to the
filter and to what is printed.

* `main_null_iff`: from the lists on, it does when an LBA without a root bridge is
  displayed and printed.
* `main_bridged_iff`: over all runs, it does not exactly when the filter rejects
  every such LBA before it gets to the slots.
-/

namespace Pcitop.Tool

open Pcitop.Common

/-- The LBA of an entry without a root bridge, as far as the filter looks at it. -/
def LbaEntry.unplaced (e : LbaEntry) : LbaInfo :=
  { registeredLba e.lbaName with pciId := (nameToPciId e.dName e.pciId).2 }

section

variable {bridges : List SysfsRootBridge} {e : LbaEntry} {lba : LbaInfo}

theorem matches_unplaced (h : MadeFrom bridges e lba)
    (hb : getSysfsRootBridge bridges e.lbaName = none) (locals : PciId) (c : Criterion) :
    c.matches locals lba = c.matches locals e.unplaced := by
  have hid : lba.pciId = e.unplaced.pciId := h.pciId
  have harch : lba.archInfo = e.unplaced.archInfo := h.archInfo hb
  have hbridge : lba.sysfsRootBridge = e.unplaced.sysfsRootBridge := h.bridge.trans hb
  unfold Criterion.matches
  rw [hid, harch, hbridge]

theorem readsSlots_unplaced (h : MadeFrom bridges e lba)
    (hb : getSysfsRootBridge bridges e.lbaName = none) (opts : Options) (locals : PciId) :
    opts.readsSlots locals lba = opts.readsSlots locals e.unplaced := by
  simp only [Options.readsSlots, matches_unplaced h hb]

theorem selects_unplaced (h : MadeFrom bridges e lba)
    (hb : getSysfsRootBridge bridges e.lbaName = none) (opts : Options) (locals : PciId) :
    opts.selects locals lba = opts.selects locals e.unplaced := by
  simp only [Options.selects, matches_unplaced h hb]

end

/-- What is printed about the displayed LBAs, once the filter is through: the text
    of `--info`, or a banner, if the program gets that far. -/
def PrintsSlots (opts : Options) (m : Machine) (es : List LbaEntry) : Prop :=
  opts.optShowInfo = true ∨
    (∃ e ∈ lbaEntries es, e.memory.attrib = true) ∧ m.measureMemory.banner = true

/-- No entry of `/sys/class/hplba` without a root bridge passes the tests of the
    filter as far as `match_slot`, and none is selected when something is printed
    about the LBAs selected. -/
def RejectsUnplaced (opts : Options) (m : Machine) : Prop :=
  ∀ (tree : PciTree) (es : List LbaEntry), m.pciTree = .ok tree → m.hplba = some es →
    (∀ e ∈ lbaEntries es, e.Fits) → ∀ (j : ℕ) (e : LbaEntry), (lbaEntries es)[j]? = some e →
      getSysfsRootBridge tree.rootBridgeList e.lbaName = none →
        opts.readsSlots (m.locals j) e.unplaced = false ∧
          (PrintsSlots opts m es → opts.selects (m.locals j) e.unplaced = false)

variable {opts : Options} {m : Machine}

/-- After the filter. -/
theorem main_null_iff {l : Listing} (h : listLbas opts m = .ok l) :
    main opts m = .error .nullLbaRootBridge ↔
      (opts.optShowInfo = true ∨
        (l.numLba ≠ 0 ∧ l.numLbaDisplay ≠ 0) ∧ m.measureMemory.banner = true) ∧
      ¬ Bridged l.lbas := by
  unfold main
  simp only [h]
  by_cases hinfo : opts.optShowInfo = true
  · rw [if_pos hinfo, map_eq_error_iff]
    by_cases hbridge : Bridged l.lbas
    · obtain ⟨t, ht⟩ := showAllRootInfo_ok hbridge opts.optVerbose l.sysInfo
      rw [ht]
      simp [hbridge]
    · rw [showAllRootInfo_error hbridge]
      simp [hbridge, hinfo]
  · rw [if_neg hinfo]
    by_cases hnum : l.numLba = 0
    · simp [hnum, hinfo]
    · rw [if_neg hnum]
      by_cases hdisplay : l.numLbaDisplay = 0
      · simp [hdisplay, hinfo]
      · rw [if_neg hdisplay, map_eq_error_iff, measureUtilization_null_iff]
        simp [hinfo, hnum, hdisplay]

/-- An LBA selected is counted. -/
theorem countP_markedList_ne_zero {locals : ℕ → PciId} {lbas : List LbaInfo} {j : ℕ}
    {lba : LbaInfo} (hj : lbas[j]? = some lba) (hsel : opts.selects (locals j) lba = true) :
    (opts.markedList locals 0 lbas).countP (·.display = 1) ≠ 0 := by
  rw [← Nat.pos_iff_ne_zero, List.countP_pos_iff]
  refine ⟨_, marked_mem hj, ?_⟩
  rw [Options.marked, if_pos hsel]
  rfl

/-- The LBAs displayed are those selected. -/
theorem bridged_markedList_iff (locals : ℕ → PciId) (lbas : List LbaInfo) :
    Bridged (opts.markedList locals 0 lbas) ↔ ∀ j lba, lbas[j]? = some lba →
      opts.selects (locals j) lba = true → lba.sysfsRootBridge.isSome := by
  unfold Bridged
  constructor
  · intro h j lba hj hsel
    have hbridge := h _ (marked_mem hj) ((marked_display_ne_zero_iff opts _ lba).mpr hsel)
    exact hbridge
  · intro h lba' hmem hd
    obtain ⟨j, lba, hj, rfl⟩ := mem_markedList hmem
    exact h j lba hj ((marked_display_ne_zero_iff opts _ lba).mp hd)

section

variable {tree : PciTree} {es : List LbaEntry} {st : LbaState}

/-- The LBAs without a root bridge are those of the entries without one. -/
theorem selected_bridged_iff (hst : Unfiltered tree es st) :
    (∀ j lba, st.hostLbaList[j]? = some lba → opts.selects (m.locals j) lba = true →
      lba.sysfsRootBridge.isSome) ↔
    ∀ j e, (lbaEntries es)[j]? = some e → getSysfsRootBridge tree.rootBridgeList e.lbaName = none →
      opts.selects (m.locals j) e.unplaced = false := by
  constructor
  · intro h j e he hb
    obtain ⟨lba, hj, hmade⟩ := hst.lba_of_entry he
    rw [← Bool.not_eq_true, ← selects_unplaced hmade hb]
    intro hsel
    have hsome := h j lba hj hsel
    rw [hmade.bridge, hb] at hsome
    exact absurd hsome (by decide)
  · intro h j lba hj hsel
    obtain ⟨e, he, hmade⟩ := hst.entry_of_lba hj
    rw [hmade.bridge, ← Option.ne_none_iff_isSome]
    intro hb
    rw [selects_unplaced hmade hb, h j e he hb] at hsel
    exact absurd hsel (by decide)

/-- After a filter that got to no slots that are not there. -/
theorem main_null_iff_of_filter (hst : Unfiltered tree es st)
    (hl : listLbas opts m = .ok (opts.listing m st)) :
    main opts m = .error .nullLbaRootBridge ↔ PrintsSlots opts m es ∧
      ¬ ∀ j e, (lbaEntries es)[j]? = some e →
        getSysfsRootBridge tree.rootBridgeList e.lbaName = none →
          opts.selects (m.locals j) e.unplaced = false := by
  rw [main_null_iff hl, ← selected_bridged_iff hst, Options.listing, bridged_markedList_iff]
  refine and_congr_left fun hsel => or_congr_right (and_congr_left fun _ => ?_)
  have hnum : st.numLba ≠ 0 ↔ ∃ e ∈ lbaEntries es, e.memory.attrib = true := by
    rw [hst.numLba, ← Nat.pos_iff_ne_zero, List.countP_pos_iff]
  rw [hnum]
  push Not at hsel
  obtain ⟨j, lba, hj, hs, -⟩ := hsel
  have hcount := countP_markedList_ne_zero hj hs
  exact and_iff_left hcount

/-- What the filter must reject, for the directories at hand. -/
theorem rejectsUnplaced_iff (htree : m.pciTree = .ok tree) (hdir : m.hplba = some es)
    (hfits : ∀ e ∈ lbaEntries es, e.Fits) :
    RejectsUnplaced opts m ↔ ∀ (j : ℕ) (e : LbaEntry), (lbaEntries es)[j]? = some e →
      getSysfsRootBridge tree.rootBridgeList e.lbaName = none →
        opts.readsSlots (m.locals j) e.unplaced = false ∧
          (PrintsSlots opts m es → opts.selects (m.locals j) e.unplaced = false) := by
  constructor
  · intro h
    exact h tree es htree hdir hfits
  · intro h tree' es' htree' hdir' _
    rw [htree] at htree'
    rw [hdir] at hdir'
    obtain rfl := Except.ok.inj htree'
    obtain rfl := Option.some.inj hdir'
    exact h

end

/-- The program never follows a NULL `sysfs_root_bridge` exactly when the filter
    rejects the LBAs that have one. -/
theorem main_bridged_iff (opts : Options) (m : Machine) :
    main opts m ≠ .error .nullLbaRootBridge ↔ RejectsUnplaced opts m := by
  by_cases hlist : ∃ (tree : PciTree) (es : List LbaEntry), m.pciTree = .ok tree ∧
      m.hplba = some es ∧ ∀ e ∈ lbaEntries es, e.Fits
  case neg =>
    obtain ⟨fault, hne, hl⟩ := listLbas_error hlist
    have hmain : main opts m = .error fault := by
      unfold main
      rw [hl]
    rw [hmain]
    refine ⟨fun _ tree es htree hdir hfits => ?_, fun _ h => hne (Except.error.inj h)⟩
    exact absurd ⟨tree, es, htree, hdir, hfits⟩ hlist
  case pos =>
    obtain ⟨tree, es, htree, hdir, hfits⟩ := hlist
    obtain ⟨st, hst, hmiss, hok⟩ := listLbas_of_fits htree hdir hfits
    rw [rejectsUnplaced_iff htree hdir hfits]
    by_cases hreads : MissesBridge opts m st
    · -- `match_slot` is called for an LBA without a root bridge.
      have hmain : main opts m = .error .nullLbaRootBridge := by
        unfold main
        rw [hmiss hreads]
      obtain ⟨j, lba, hj, hr, hb⟩ := hreads
      obtain ⟨e, he, hmade⟩ := hst.entry_of_lba hj
      have hbe : getSysfsRootBridge tree.rootBridgeList e.lbaName = none := hmade.bridge ▸ hb
      refine ⟨fun hne => absurd hmain hne, fun hrej => ?_⟩
      have hrej := (hrej j e he hbe).1
      rw [← readsSlots_unplaced hmade hbe, hr] at hrej
      exact absurd hrej (by decide)
    · rw [Ne, main_null_iff_of_filter hst (hok hreads), not_and, not_not]
      constructor
      · intro h j e he hb
        refine ⟨?_, fun hp => h hp j e he hb⟩
        obtain ⟨lba, hj, hmade⟩ := hst.lba_of_entry he
        rw [← Bool.not_eq_true, ← readsSlots_unplaced hmade hb]
        exact fun hr => hreads ⟨j, lba, hj, hr, hmade.bridge.trans hb⟩
      · intro h hp j e he hb
        exact (h j e he hb).2 hp

/-- `pcitop --info` on a machine where the LBA is on `0000:00` and the root bridge
    is `0000:40`. -/
theorem main_oneLba_stray :
    main { noFilter with optShowInfo := true }
      (oneLba "pci0000:40".toList ⟨fun _ => false, fun _ _ => ⟨true, .noOpen⟩⟩) =
        .error .nullLbaRootBridge := by
  rfl

end Pcitop.Tool
