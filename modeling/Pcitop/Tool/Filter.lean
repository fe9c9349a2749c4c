import Pcitop.Tool.LbaInfo

/-!
# The display filters

`filter_lbas` (`pcitop.c`) marks the LBAs to display: in and-mode those that
match every criterion supplied on the command line, in or-mode those that match
at least one. The two functions are chains of seven tests; `Options.criteria`
lists the criteria supplied.

* `filterMatchAnd_eq`, `filterMatchOr_eq`: the chains as tests over the list.
* `filterLbas_eq`, `filterLbas_error`: what a run marks and counts, when the slots
  it looks at are there, and what it does when some are not.
* `filterLbas_modes`: how the two modes and larger sets of criteria compare.
-/

namespace Pcitop.Tool

open Pcitop.Common

/-- `pcitop_options_t` (`pcitop.h`, lines 57–74) as the command line leaves it.
    The counters `num_lba` and `num_lba_display` are passed on the side. -/
structure Options where
  optVerbose : Bool
  optShowInfo : Bool
  optMatchBus : ℤ
  optMatchDomain : ℤ
  optMatchAnd : Bool
  optMatchCabinet : Option CString
  optMatchBay : Option CString
  optMatchChassis : Option CString
  optMatchSlot : Option CString
  optMatchLspci : Option CString
  nsamples : ℕ
  deriving DecidableEq, Repr

/-- Whether a slot of a bridge has the number `name`. -/
def hasSlot (bridge : SysfsRootBridge) (name : CString) : Bool :=
  bridge.slots.any fun slot => strneq name (integritySlotStr slot.name) (SLOT_NAME_LEN - 1)

/-- `match_slot` (lines 480–497). -/
def matchSlot (lba : LbaInfo) (name : CString) : Except Fault Bool :=
  match lba.sysfsRootBridge with
  | none => .error .nullLbaRootBridge
  | some bridge => .ok (hasSlot bridge name)

/-- `lba->display = 1` and `options.num_lba_display++`. -/
def showLba (lba : LbaInfo) (numLbaDisplay : ℕ) : LbaInfo × ℕ :=
  ({ lba with display := 1 }, numLbaDisplay + 1)

/-- `lba->display = 0`. -/
def hideLba (lba : LbaInfo) (numLbaDisplay : ℕ) : LbaInfo × ℕ :=
  ({ lba with display := 0 }, numLbaDisplay)

/-- `filter_match_and` (lines 499–544): the LBA and `options.num_lba_display` after
    it. `locals` is what the variables of `pcicmp` hold on entry. -/
def filterMatchAnd (opts : Options) (locals : PciId) (lba : LbaInfo) (numLbaDisplay : ℕ) :
    Except Fault (LbaInfo × ℕ) :=
  let id := lba.pciId
  if decide (opts.optMatchDomain ≥ 0) && id.pciDomain.toInt != opts.optMatchDomain then
    .ok (hideLba lba numLbaDisplay)
  else if decide (opts.optMatchBus ≥ 0) && id.pciBusid.toInt != opts.optMatchBus then
    .ok (hideLba lba numLbaDisplay)
  else if opts.optMatchLspci.any fun s =>
      pcicmp locals s (id.pciDomain.setWidth 16) id.pciBusid != 0 then
    .ok (hideLba lba numLbaDisplay)
  else if opts.optMatchCabinet.any fun s =>
      integrityMatchCabinet s lba.archInfo.cabinet != 0 then
    .ok (hideLba lba numLbaDisplay)
  else if opts.optMatchBay.any fun s => integrityMatchBay s lba.archInfo.bay != 0 then
    .ok (hideLba lba numLbaDisplay)
  else if opts.optMatchChassis.any fun s =>
      integrityMatchChassis s lba.archInfo.chassis != 0 then
    .ok (hideLba lba numLbaDisplay)
  else
    match opts.optMatchSlot with
    | none => .ok (showLba lba numLbaDisplay)
    | some name =>
      match matchSlot lba name with
      | .error fault => .error fault
      | .ok found => .ok (if found then showLba lba numLbaDisplay else hideLba lba numLbaDisplay)

/-- `filter_match_or` (lines 546–597). -/
def filterMatchOr (opts : Options) (locals : PciId) (lba : LbaInfo) (numLbaDisplay : ℕ) :
    Except Fault (LbaInfo × ℕ) :=
  let id := lba.pciId
  if decide (opts.optMatchDomain ≥ 0) && id.pciDomain.toInt == opts.optMatchDomain then
    .ok (showLba lba numLbaDisplay)
  else if decide (opts.optMatchBus ≥ 0) && id.pciBusid.toInt == opts.optMatchBus then
    .ok (showLba lba numLbaDisplay)
  else if opts.optMatchLspci.any fun s =>
      pcicmp locals s (id.pciDomain.setWidth 16) id.pciBusid == 0 then
    .ok (showLba lba numLbaDisplay)
  else if opts.optMatchCabinet.any fun s =>
      integrityMatchCabinet s lba.archInfo.cabinet == 0 then
    .ok (showLba lba numLbaDisplay)
  else if opts.optMatchBay.any fun s => integrityMatchBay s lba.archInfo.bay == 0 then
    .ok (showLba lba numLbaDisplay)
  else if opts.optMatchChassis.any fun s =>
      integrityMatchChassis s lba.archInfo.chassis == 0 then
    .ok (showLba lba numLbaDisplay)
  else
    match opts.optMatchSlot with
    | none => .ok (hideLba lba numLbaDisplay)
    | some name =>
      match matchSlot lba name with
      | .error fault => .error fault
      | .ok found => .ok (if found then showLba lba numLbaDisplay else hideLba lba numLbaDisplay)

/-- `filter_lbas` (lines 672–682) over `host_lba_list`: the list and
    `options.num_lba_display` after it. The stack may hold something else in every
    call, counted from `i`. -/
def filterLbas (opts : Options) (locals : ℕ → PciId) :
    ℕ → List LbaInfo → ℕ → Except Fault (List LbaInfo × ℕ)
  | _, [], numLbaDisplay => .ok ([], numLbaDisplay)
  | i, lba :: lbas, numLbaDisplay =>
    match (if opts.optMatchAnd then filterMatchAnd else filterMatchOr) opts (locals i) lba
      numLbaDisplay with
    | .error fault => .error fault
    | .ok (lba, numLbaDisplay) =>
      match filterLbas opts locals (i + 1) lbas numLbaDisplay with
      | .error fault => .error fault
      | .ok (lbas, numLbaDisplay) => .ok (lba :: lbas, numLbaDisplay)

/-! ## Criteria -/

/-- A criterion of the command line. -/
inductive Criterion where
  | domain (d : ℤ)
  | bus (b : ℤ)
  | lspci (s : CString)
  | cabinet (s : CString)
  | bay (s : CString)
  | chassis (s : CString)
  | slot (s : CString)
  deriving DecidableEq, Repr

/-- Whether an LBA matches a criterion, as the function called for it tells. -/
def Criterion.matches (locals : PciId) (lba : LbaInfo) : Criterion → Bool
  | .domain d => lba.pciId.pciDomain.toInt == d
  | .bus b => lba.pciId.pciBusid.toInt == b
  | .lspci s => pcicmp locals s (lba.pciId.pciDomain.setWidth 16) lba.pciId.pciBusid == 0
  | .cabinet s => integrityMatchCabinet s lba.archInfo.cabinet == 0
  | .bay s => integrityMatchBay s lba.archInfo.bay == 0
  | .chassis s => integrityMatchChassis s lba.archInfo.chassis == 0
  | .slot s => lba.sysfsRootBridge.any fun bridge => hasSlot bridge s

/-- The criteria supplied that do not need the root bridge. -/
def Options.plainCriteria (opts : Options) : List Criterion :=
  (if opts.optMatchDomain ≥ 0 then [.domain opts.optMatchDomain] else []) ++
    (if opts.optMatchBus ≥ 0 then [.bus opts.optMatchBus] else []) ++
    opts.optMatchLspci.toList.map .lspci ++ opts.optMatchCabinet.toList.map .cabinet ++
    opts.optMatchBay.toList.map .bay ++ opts.optMatchChassis.toList.map .chassis

/-- The criteria supplied. -/
def Options.criteria (opts : Options) : List Criterion :=
  opts.plainCriteria ++ opts.optMatchSlot.toList.map .slot

/-- Whether an LBA is to be displayed. -/
def Options.selects (opts : Options) (locals : PciId) (lba : LbaInfo) : Bool :=
  if opts.optMatchAnd then opts.criteria.all (·.matches locals lba)
  else opts.criteria.any (·.matches locals lba)

/-! ### The chains of tests -/

theorem all_ite_singleton (c : Prop) [Decidable c] (x : Criterion) (p : Criterion → Bool) :
    (if c then [x] else []).all p = !(decide c && !p x) := by
  by_cases h : c <;> simp [h]

theorem any_ite_singleton (c : Prop) [Decidable c] (x : Criterion) (p : Criterion → Bool) :
    (if c then [x] else []).any p = (decide c && p x) := by
  by_cases h : c <;> simp [h]

theorem all_map_toList (o : Option CString) (f : CString → Criterion) (p : Criterion → Bool) :
    (o.toList.map f).all p = !(o.any fun s => !p (f s)) := by
  cases o <;> simp

theorem any_map_toList (o : Option CString) (f : CString → Criterion) (p : Criterion → Bool) :
    (o.toList.map f).any p = o.any fun s => p (f s) := by
  cases o <;> simp

/-- Six tests that lead to one result, then another. -/
theorem ite_chain {α : Type} (c₁ c₂ c₃ c₄ c₅ c₆ : Bool) (x y : α) :
    (if c₁ then x else if c₂ then x else if c₃ then x else if c₄ then x else if c₅ then x
      else if c₆ then x else y) = if c₁ || c₂ || c₃ || c₄ || c₅ || c₆ then x else y := by
  cases c₁ <;> cases c₂ <;> cases c₃ <;> cases c₄ <;> cases c₅ <;> cases c₆ <;> rfl

theorem ite_bnot {α : Type} (c : Bool) (x y : α) :
    (if !c then x else y) = if c then y else x := by
  cases c <;> rfl

/-- The last test, on the slots, for an LBA that gets there; `dflt` is the result
    when no slot is supplied. -/
def slotTest (opts : Options) (lba : LbaInfo) (numLbaDisplay : ℕ) (dflt : LbaInfo × ℕ) :
    Except Fault (LbaInfo × ℕ) :=
  match opts.optMatchSlot with
  | none => .ok dflt
  | some name =>
    match matchSlot lba name with
    | .error fault => .error fault
    | .ok found => .ok (if found then showLba lba numLbaDisplay else hideLba lba numLbaDisplay)

theorem filterMatchAnd_eq (opts : Options) (locals : PciId) (lba : LbaInfo) (num : ℕ) :
    filterMatchAnd opts locals lba num =
      if opts.plainCriteria.all (·.matches locals lba) then
        slotTest opts lba num (showLba lba num)
      else .ok (hideLba lba num) := by
  unfold filterMatchAnd Options.plainCriteria
  simp only [ite_chain, List.all_append, all_ite_singleton, all_map_toList, Criterion.matches,
    bne, ← Bool.not_or, ite_bnot]
  rfl

theorem filterMatchOr_eq (opts : Options) (locals : PciId) (lba : LbaInfo) (num : ℕ) :
    filterMatchOr opts locals lba num =
      if opts.plainCriteria.any (·.matches locals lba) then .ok (showLba lba num)
      else slotTest opts lba num (hideLba lba num) := by
  unfold filterMatchOr Options.plainCriteria
  simp only [ite_chain, List.any_append, any_ite_singleton, any_map_toList, Criterion.matches]
  rfl

/-- Whether the filter gets to `match_slot` for an LBA. -/
def Options.readsSlots (opts : Options) (locals : PciId) (lba : LbaInfo) : Bool :=
  opts.optMatchSlot.isSome &&
    if opts.optMatchAnd then opts.plainCriteria.all (·.matches locals lba)
    else !opts.plainCriteria.any (·.matches locals lba)

/-- Where the slots are there when they are looked at, either function displays the
    LBAs selected. -/
theorem filterMatch_eq {opts : Options} {locals : PciId} {lba : LbaInfo}
    (h : opts.readsSlots locals lba = true → lba.sysfsRootBridge.isSome) (num : ℕ) :
    (if opts.optMatchAnd then filterMatchAnd else filterMatchOr) opts locals lba num =
      .ok (if opts.selects locals lba then showLba lba num else hideLba lba num) := by
  unfold Options.readsSlots at h
  unfold Options.selects Options.criteria
  cases hslot : opts.optMatchSlot with
  | none =>
    cases hand : opts.optMatchAnd with
    | true =>
      simp only [if_true, filterMatchAnd_eq, slotTest, hslot, Option.toList_none, List.map_nil,
        List.append_nil]
      split_ifs <;> rfl
    | false =>
      simp only [if_false, filterMatchOr_eq, slotTest, hslot, Option.toList_none, List.map_nil,
        List.append_nil, Bool.false_eq_true]
      split_ifs <;> rfl
  | some name =>
    rw [hslot, Option.isSome_some, Bool.true_and] at h
    cases hand : opts.optMatchAnd with
    | true =>
      rw [hand, if_pos rfl] at h
      simp only [if_true, filterMatchAnd_eq, slotTest, hslot, List.all_append, all_map_toList,
        Option.any_some, Bool.not_not]
      cases hplain : opts.plainCriteria.all (·.matches locals lba) with
      | false => rfl
      | true =>
        obtain ⟨bridge, hb⟩ := Option.isSome_iff_exists.mp (h hplain)
        simp only [if_true, matchSlot, hb, Bool.true_and, Criterion.matches, Option.any_some]
    | false =>
      rw [hand, if_neg Bool.false_ne_true] at h
      simp only [if_false, filterMatchOr_eq, slotTest, hslot, List.any_append, any_map_toList,
        Option.any_some, Bool.false_eq_true]
      cases hplain : opts.plainCriteria.any (·.matches locals lba) with
      | true => rfl
      | false =>
        rw [hplain] at h
        obtain ⟨bridge, hb⟩ := Option.isSome_iff_exists.mp (h rfl)
        simp only [if_false, matchSlot, hb, Bool.false_or, Criterion.matches, Option.any_some,
          Bool.false_eq_true]

/-- Where they are not, either function fails. -/
theorem filterMatch_error {opts : Options} {locals : PciId} {lba : LbaInfo}
    (h : opts.readsSlots locals lba = true) (hb : lba.sysfsRootBridge = none) (num : ℕ) :
    (if opts.optMatchAnd then filterMatchAnd else filterMatchOr) opts locals lba num =
      .error .nullLbaRootBridge := by
  unfold Options.readsSlots at h
  rw [Bool.and_eq_true] at h
  obtain ⟨name, hslot⟩ := Option.isSome_iff_exists.mp h.1
  have htest : ∀ dflt, slotTest opts lba num dflt = .error .nullLbaRootBridge := by
    intro dflt
    rw [slotTest, hslot]
    simp only [matchSlot, hb]
  have hplain := h.2
  cases hand : opts.optMatchAnd with
  | true =>
    rw [hand, if_pos rfl] at hplain
    rw [if_pos rfl, filterMatchAnd_eq, if_pos hplain, htest]
  | false =>
    rw [hand, if_neg Bool.false_ne_true, Bool.not_eq_true'] at hplain
    rw [if_neg Bool.false_ne_true, filterMatchOr_eq, if_neg (Bool.eq_false_iff.mp hplain), htest]

/-! ## Runs -/

/-- The LBA as the filter leaves it. -/
def Options.marked (opts : Options) (locals : PciId) (lba : LbaInfo) : LbaInfo :=
  { lba with display := if opts.selects locals lba then 1 else 0 }

/-- The list as the filter leaves it. -/
def Options.markedList (opts : Options) (locals : ℕ → PciId) (i : ℕ) (lbas : List LbaInfo) :
    List LbaInfo :=
  lbas.mapIdx fun j lba => opts.marked (locals (i + j)) lba

theorem markedList_cons (opts : Options) (locals : ℕ → PciId) (i : ℕ) (lba : LbaInfo)
    (lbas : List LbaInfo) :
    opts.markedList locals i (lba :: lbas) =
      opts.marked (locals i) lba :: opts.markedList locals (i + 1) lbas := by
  unfold Options.markedList
  rw [List.mapIdx_cons]
  congr 2
  funext j lba
  rw [show i + (j + 1) = i + 1 + j by omega]

theorem marked_mem {opts : Options} {locals : ℕ → PciId} {lbas : List LbaInfo} {j : ℕ}
    {lba : LbaInfo} (hj : lbas[j]? = some lba) :
    opts.marked (locals j) lba ∈ opts.markedList locals 0 lbas := by
  rw [List.mem_iff_getElem?]
  exact ⟨j, by rw [Options.markedList, List.getElem?_mapIdx, hj, Option.map_some, Nat.zero_add]⟩

/-- An LBA of the marked list. -/
theorem mem_markedList {opts : Options} {locals : ℕ → PciId} {lbas : List LbaInfo}
    {lba' : LbaInfo} (h : lba' ∈ opts.markedList locals 0 lbas) :
    ∃ j lba, lbas[j]? = some lba ∧ lba' = opts.marked (locals j) lba := by
  obtain ⟨j, hj⟩ := List.mem_iff_getElem?.mp h
  rw [Options.markedList, List.getElem?_mapIdx, Option.map_eq_some_iff] at hj
  obtain ⟨lba, hj, rfl⟩ := hj
  exact ⟨j, lba, hj, by rw [Nat.zero_add]⟩

theorem marked_display_ne_zero_iff (opts : Options) (locals : PciId) (lba : LbaInfo) :
    (opts.marked locals lba).display ≠ 0 ↔ opts.selects locals lba = true := by
  unfold Options.marked
  split_ifs with hsel <;> simp [hsel]

theorem filterLbas_eq {opts : Options} {locals : ℕ → PciId} {lbas : List LbaInfo} (i num : ℕ)
    (h : ∀ j lba, lbas[j]? = some lba → opts.readsSlots (locals (i + j)) lba = true →
      lba.sysfsRootBridge.isSome) :
    filterLbas opts locals i lbas num =
      .ok (opts.markedList locals i lbas,
        num + (opts.markedList locals i lbas).countP (·.display = 1)) := by
  induction lbas generalizing i num with
  | nil => rfl
  | cons lba lbas ih =>
    have hrest := fun num => ih (i + 1) num fun j x hx hr => h (j + 1) x hx (by
      rwa [show i + (j + 1) = i + 1 + j by omega])
    have hfirst := filterMatch_eq (show opts.readsSlots (locals i) lba = true → _ from h 0 lba rfl)
    rw [filterLbas, hfirst, markedList_cons, List.countP_cons]
    by_cases hsel : opts.selects (locals i) lba = true
    · simp [hsel, showLba, hrest, Options.marked]
      omega
    · simp [hsel, hideLba, hrest, Options.marked]

/-- A run over an LBA whose slots are looked at and not there fails. -/
theorem filterLbas_error {opts : Options} {locals : ℕ → PciId} {lbas : List LbaInfo} (i num : ℕ)
    {j : ℕ} {lba : LbaInfo} (hj : lbas[j]? = some lba)
    (hreads : opts.readsSlots (locals (i + j)) lba = true) (hb : lba.sysfsRootBridge = none) :
    filterLbas opts locals i lbas num = .error .nullLbaRootBridge := by
  induction lbas generalizing i num j with
  | nil => simp at hj
  | cons x xs ih =>
    rw [filterLbas]
    by_cases hx : opts.readsSlots (locals i) x = true ∧ x.sysfsRootBridge = none
    · rw [filterMatch_error hx.1 hx.2]
    · have hx' : opts.readsSlots (locals i) x = true → x.sysfsRootBridge.isSome := by
        intro hr
        rw [← Option.ne_none_iff_isSome]
        exact fun hn => hx ⟨hr, hn⟩
      cases j with
      | zero =>
        obtain rfl := Option.some.inj hj
        exact absurd ⟨hreads, hb⟩ hx
      | succ j =>
        have hrest := fun num => ih (i + 1) num hj (by
          rwa [show i + 1 + j = i + (j + 1) by omega])
        rw [filterMatch_eq hx']
        split_ifs <;> simp only [showLba, hideLba, hrest]

/-- The `i`-th LBA of a list is displayed. -/
def DisplayedAt (lbas : List LbaInfo) (i : ℕ) : Prop := ∃ lba, lbas[i]? = some lba ∧ lba.display = 1

/-- A run displays the LBAs selected. -/
theorem displayedAt_iff {opts : Options} {locals : ℕ → PciId} {lbas lbas' : List LbaInfo}
    (h : ∀ lba ∈ lbas, lba.sysfsRootBridge.isSome) {n : ℕ}
    (hrun : filterLbas opts locals 0 lbas 0 = .ok (lbas', n)) (i : ℕ) :
    DisplayedAt lbas' i ↔ ∃ lba, lbas[i]? = some lba ∧ opts.selects (locals i) lba = true := by
  rw [filterLbas_eq 0 0 fun j lba hj _ => h lba (List.mem_of_getElem? hj), Except.ok.injEq,
    Prod.mk.injEq] at hrun
  rw [DisplayedAt, ← hrun.1, Options.markedList]
  simp only [List.getElem?_mapIdx, Option.map_eq_some_iff, Nat.zero_add]
  constructor
  · rintro ⟨_, ⟨lba, hlba, rfl⟩, hd⟩
    refine ⟨lba, hlba, ?_⟩
    by_contra hsel
    simp [Options.marked, hsel] at hd
  · rintro ⟨lba, hlba, hsel⟩
    exact ⟨_, ⟨lba, hlba, rfl⟩, by simp [Options.marked, hsel]⟩

/-- What matches every criterion matches some, and with one criterion the converse
    holds. -/
theorem selects_modes {opts opts' : Options} (hand : opts.optMatchAnd = true)
    (hor : opts'.optMatchAnd = false) (hc : opts'.criteria = opts.criteria) (locals : PciId)
    (lba : LbaInfo) :
    (opts.criteria ≠ [] → opts.selects locals lba = true → opts'.selects locals lba = true) ∧
      (opts.criteria.length = 1 →
        (opts.selects locals lba = true ↔ opts'.selects locals lba = true)) := by
  simp only [Options.selects, hand, hor, hc, if_true, Bool.false_eq_true, if_false,
    List.all_eq_true, List.any_eq_true]
  constructor
  · intro hne hall
    obtain ⟨c, cs, hcs⟩ := List.exists_cons_of_ne_nil hne
    exact ⟨c, by simp [hcs], hall c (by simp [hcs])⟩
  · intro hone
    obtain ⟨c, hcs⟩ := List.length_eq_one_iff.mp hone
    simp [hcs]

/-- One more criterion never makes the and-mode select more, nor the or-mode
    less. -/
theorem selects_mono {opts opts' : Options} (hmode : opts'.optMatchAnd = opts.optMatchAnd)
    (hc : ∀ c ∈ opts.criteria, c ∈ opts'.criteria) (locals : PciId) (lba : LbaInfo) :
    if opts.optMatchAnd then opts'.selects locals lba = true → opts.selects locals lba = true
    else opts.selects locals lba = true → opts'.selects locals lba = true := by
  unfold Options.selects
  rw [hmode]
  split_ifs
  · rw [List.all_eq_true, List.all_eq_true]
    exact fun hall c hmem => hall c (hc c hmem)
  · rw [List.any_eq_true, List.any_eq_true]
    rintro ⟨c, hmem, hm⟩
    exact ⟨c, hc c hmem, hm⟩

/-- Over LBAs with root bridges, a run of the filter from a count of 0 displays
    exactly the LBAs selected and counts them. With a criterion supplied the
    and-mode displays no more than the or-mode, with one criterion the same, and
    more criteria never make the and-mode display more nor the or-mode less. -/
theorem filterLbas_modes {locals : ℕ → PciId} {lbas : List LbaInfo}
    (h : ∀ lba ∈ lbas, lba.sysfsRootBridge.isSome) :
    (∀ opts : Options, ∃ (lbas' : List LbaInfo) (n : ℕ),
      filterLbas opts locals 0 lbas 0 = .ok (lbas', n) ∧ n = lbas'.countP (·.display = 1) ∧
        lbas'.length = lbas.length ∧ ∀ (i : ℕ) (lba : LbaInfo), lbas[i]? = some lba →
          lbas'[i]? = some { lba with display := if opts.selects (locals i) lba then 1 else 0 }) ∧
    (∀ (opts opts' : Options) (lbasAnd lbasOr : List LbaInfo) (n n' : ℕ),
      opts.optMatchAnd = true → opts'.optMatchAnd = false → opts'.criteria = opts.criteria →
      filterLbas opts locals 0 lbas 0 = .ok (lbasAnd, n) →
      filterLbas opts' locals 0 lbas 0 = .ok (lbasOr, n') →
        (opts.criteria ≠ [] → ∀ i, DisplayedAt lbasAnd i → DisplayedAt lbasOr i) ∧
          (opts.criteria.length = 1 → ∀ i, DisplayedAt lbasAnd i ↔ DisplayedAt lbasOr i)) ∧
    ∀ (opts opts' : Options) (lbas₁ lbas₂ : List LbaInfo) (n n' : ℕ),
      opts'.optMatchAnd = opts.optMatchAnd → (∀ c ∈ opts.criteria, c ∈ opts'.criteria) →
      filterLbas opts locals 0 lbas 0 = .ok (lbas₁, n) →
      filterLbas opts' locals 0 lbas 0 = .ok (lbas₂, n') →
        ∀ i, if opts.optMatchAnd then DisplayedAt lbas₂ i → DisplayedAt lbas₁ i
          else DisplayedAt lbas₁ i → DisplayedAt lbas₂ i := by
  refine ⟨?_, ?_, ?_⟩
  · intro opts
    have hrun : filterLbas opts locals 0 lbas 0 = .ok (opts.markedList locals 0 lbas,
        0 + (opts.markedList locals 0 lbas).countP (·.display = 1)) :=
      filterLbas_eq 0 0 fun j lba hj _ => h lba (List.mem_of_getElem? hj)
    refine ⟨_, _, hrun, by rw [Nat.zero_add], List.length_mapIdx, ?_⟩
    intro i lba hlba
    rw [Options.markedList, List.getElem?_mapIdx, hlba, Option.map_some, Nat.zero_add,
      Options.marked]
  · intro opts opts' lbasAnd lbasOr n n' hand hor hc hrun hrun'
    constructor
    · intro hne i
      rw [displayedAt_iff h hrun, displayedAt_iff h hrun']
      rintro ⟨lba, hlba, hsel⟩
      exact ⟨lba, hlba, (selects_modes hand hor hc (locals i) lba).1 hne hsel⟩
    · intro hone i
      rw [displayedAt_iff h hrun, displayedAt_iff h hrun']
      exact exists_congr fun lba =>
        and_congr_right fun _ => (selects_modes hand hor hc (locals i) lba).2 hone
  · intro opts opts' lbas₁ lbas₂ n n' hmode hc hrun hrun' i
    rw [displayedAt_iff h hrun, displayedAt_iff h hrun']
    have hmono := selects_mono hmode hc (locals i)
    split_ifs with hand
    · rintro ⟨lba, hlba, hsel⟩
      have := hmono lba
      rw [if_pos hand] at this
      exact ⟨lba, hlba, this hsel⟩
    · rintro ⟨lba, hlba, hsel⟩
      have := hmono lba
      rw [if_neg hand] at this
      exact ⟨lba, hlba, this hsel⟩

/-- An LBA on the bridge `0000:00`, which has no slots. -/
def lba0 : LbaInfo :=
  { registeredLba "0000:00:00.0".toList with
    sysfsRootBridge := some ⟨"0000:00".toList, []⟩
    ops := true
    display := 1
    inUse := 1 }

/-- The options of a command line without filters. -/
def noFilter : Options where
  optVerbose := false
  optShowInfo := false
  optMatchBus := -1
  optMatchDomain := -1
  optMatchAnd := true
  optMatchCabinet := none
  optMatchBay := none
  optMatchChassis := none
  optMatchSlot := none
  optMatchLspci := none
  nsamples := 60

/-- Two more LBAs, with a slot in chassis 1 and two slots in chassis 2. -/
def lba1 : LbaInfo :=
  { lba0 with
    name := "0000:10:00.0".toList
    sysfsRootBridge := some ⟨"0000:10".toList, [⟨"103".toList, ⟨"0000:10".toList, some 1⟩⟩]⟩
    pciId := ⟨0, 0x10, 0, 0⟩
    archInfo := ⟨0, 0, 1, 1⟩ }

def lba2 : LbaInfo :=
  { lba0 with
    name := "0000:20:00.0".toList
    sysfsRootBridge := some ⟨"0000:20".toList,
      [⟨"203".toList, ⟨"0000:20".toList, some 2⟩⟩, ⟨"204".toList, ⟨"0000:20".toList, some 2⟩⟩]⟩
    pciId := ⟨0, 0x20, 0, 0⟩
    archInfo := ⟨0, 0, 2, 2⟩ }

/-- `-A 2 -S 3`, with `-a` or `-o`. -/
def chassisAndSlot (and : Bool) : Options :=
  { noFilter with
    optMatchAnd := and
    optMatchChassis := some "2".toList
    optMatchSlot := some "3".toList }

/-- Slot 3 of chassis 2 is behind one LBA, and two have a slot 3 or are in chassis 2. -/
theorem filterLbas_modes_lbas :
    ∃ lbasAnd lbasOr : List LbaInfo,
      filterLbas (chassisAndSlot true) (fun _ => ⟨0, 0, 0, 0⟩) 0 [lba0, lba1, lba2] 0 =
        .ok (lbasAnd, 1) ∧
      filterLbas (chassisAndSlot false) (fun _ => ⟨0, 0, 0, 0⟩) 0 [lba0, lba1, lba2] 0 =
        .ok (lbasOr, 2) ∧
      lbasAnd.map (·.display) = [0, 0, 1] ∧ lbasOr.map (·.display) = [0, 1, 1] ∧
      ∀ i, DisplayedAt lbasAnd i → DisplayedAt lbasOr i := by
  have hbridge : ∀ lba ∈ [lba0, lba1, lba2], lba.sysfsRootBridge.isSome := by decide
  obtain ⟨hrun, hmodes, -⟩ := @filterLbas_modes (fun _ => ⟨0, 0, 0, 0⟩) _ hbridge
  have hmarks : ∀ and : Bool, ∃ lbas' : List LbaInfo,
      filterLbas (chassisAndSlot and) (fun _ => ⟨0, 0, 0, 0⟩) 0 [lba0, lba1, lba2] 0 =
        .ok (lbas', if and then 1 else 2) ∧
      lbas'.map (·.display) = if and then [0, 0, 1] else [0, 1, 1] := by
    intro and
    obtain ⟨lbas', n, hok, hn, hlen, hat⟩ := hrun (chassisAndSlot and)
    obtain ⟨a, b, c, rfl⟩ := List.length_eq_three.mp hlen
    obtain rfl := Option.some.inj (hat 0 lba0 rfl)
    obtain rfl := Option.some.inj (hat 1 lba1 rfl)
    obtain rfl := Option.some.inj (hat 2 lba2 rfl)
    cases and <;> exact ⟨_, hok.trans (by rw [hn]; rfl), rfl⟩
  obtain ⟨lbasAnd, hand, hdand⟩ := hmarks true
  obtain ⟨lbasOr, hor, hdor⟩ := hmarks false
  exact ⟨lbasAnd, lbasOr, hand, hor, hdand, hdor,
    (hmodes (chassisAndSlot true) (chassisAndSlot false) lbasAnd lbasOr 1 2 rfl rfl rfl hand hor).1
      (by decide)⟩

end Pcitop.Tool
