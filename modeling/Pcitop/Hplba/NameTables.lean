import Pcitop.Hplba.Names

/-!
# Lookups in a name table

What the lookups of `drivers/hplba.h` do in a table that has every value of its
enumeration, each with a name of one line of its own. The order of the entries matters to
one thing only, the name given to an integer that is no value of the enumeration.

* `nameMatchesWithin_eq`: the test on a string gets by with its characters and its
  terminator.
* `NameTable.looksUp`: the lookups find what they are meant to find.
* `NameTable.agree_iff`: two orders of a table agree on the values of the enumeration.
-/

namespace Pcitop.Hplba

open Pcitop.Common

/-! ## The characters that are looked at -/

/-- `s[i]`, if it lies no further than the terminator. -/
def charWithin (s : CString) (i : ℕ) : Option Char := (cstr s ++ [nul])[i]?

/-- `strncmp(a, b, n) == 0` character by character, with the first `i` compared. -/
def strncmpFrom (a b : CString) (i : ℕ) : ℕ → Option Bool
  | 0 => some true
  | n + 1 => do
    let x ← charWithin a i
    let y ← charWithin b i
    if x ≠ y then some false
    else if x = nul then some true
    else strncmpFrom a b (i + 1) n

/-- The test of the `X_to_value` functions, none if it looks behind a terminator. -/
def nameMatchesWithin (entry name : CString) : Option Bool := do
  let len := strlen entry
  let same ← strncmpFrom entry name 0 len
  if same then do
    let c ← charWithin name len
    if c = '\n' then some true
    else do
      let c ← charWithin name len
      some (c == nul)
  else some false

variable {α : Type}

/-- The loop of the `X_to_value` functions over the entries to go. -/
def searchWithin (unk : α) (name : CString) : List (NameEntry α) → Option α
  | [] => some unk
  | e :: es => do
    let found ← nameMatchesWithin e.name name
    if found then some e.value else searchWithin unk name es

/-- `X_to_value`, none if it looks behind the terminator of the string. -/
def toValueWithin (code : α → ℤ) (unk : α) (tab : List (NameEntry α)) (name : CString) :
    Option α :=
  searchWithin unk name (tab.take ((code unk).toNat + 1))

theorem charWithin_of_le {s : CString} {i : ℕ} (h : i ≤ strlen s) :
    charWithin s i = some (charAt s i) := by
  unfold strlen at h
  unfold charWithin charAt
  rcases Nat.lt_or_eq_of_le h with hlt | rfl
  · rw [List.getElem?_append_left hlt, List.getElem?_eq_getElem hlt, List.getD_eq_getElem _ _ hlt]
  · simp

theorem charWithin_append {u p v : CString} (h : cstr u = p ++ v) :
    charWithin u p.length = (v ++ [nul])[0]? := by
  rw [charWithin, h, List.append_assoc, List.getElem?_append_right le_rfl, Nat.sub_self]

/-- The first characters of the strings are the same, the rest is compared. -/
theorem strncmpFrom_eq {a b p s t : CString} (ha : cstr a = p ++ s) (hb : cstr b = p ++ t)
    (n : ℕ) : strncmpFrom a b p.length n = some (decide (s.take n = t.take n)) := by
  induction n generalizing p s t with
  | zero => rfl
  | succ n ih =>
    have hne : ∀ {u v : CString} {c : Char}, cstr u = p ++ c :: v → c ≠ nul := by
      rintro u v _ hu rfl
      exact noNul_cstr u (by rw [hu]; simp)
    rw [strncmpFrom, charWithin_append ha, charWithin_append hb]
    cases s with
    | nil =>
      cases t with
      | nil => simp
      | cons d t => simp [(hne hb).symm]
    | cons c s =>
      cases t with
      | nil => simp [hne ha]
      | cons d t =>
        by_cases hcd : c = d
        · subst hcd
          -- The strings have one more character in common.
          have ha' : cstr a = (p ++ [c]) ++ s := by
            rw [ha, List.append_assoc, List.singleton_append]
          have hb' : cstr b = (p ++ [c]) ++ t := by
            rw [hb, List.append_assoc, List.singleton_append]
          have hnext : strncmpFrom a b (p.length + 1) n = some (decide (s.take n = t.take n)) := by
            have h := ih ha' hb'
            rwa [List.length_append, List.length_singleton] at h
          simp [hne ha, hnext]
        · simp [hcd]

theorem nameMatchesWithin_eq (entry name : CString) :
    nameMatchesWithin entry name = some (nameMatches entry name) := by
  have hcmp : strncmpFrom entry name 0 (strlen entry) =
      some (strneq entry name (strlen entry)) := by
    rw [strneq_eq_decide]
    exact strncmpFrom_eq (p := []) rfl rfl _
  unfold nameMatchesWithin nameMatches
  simp only [hcmp, Option.bind_eq_bind, Option.bind_some]
  cases hsame : strneq entry name (strlen entry) with
  | false => rfl
  | true =>
    have hlen : strlen entry ≤ strlen name := by
      have h := congrArg List.length ((strneq_iff entry name _).mp hsame)
      rw [List.length_take, List.length_take] at h
      unfold strlen at h ⊢
      omega
    rw [charWithin_of_le hlen]
    simp only [if_true, Option.bind_some, Bool.true_and]
    split_ifs with hc
    · rw [hc]
      rfl
    · simp only [beq_false_of_ne hc, Bool.false_or]

/-- No lookup looks behind the terminator of its string. -/
theorem toValueWithin_eq (code : α → ℤ) (unk : α) (tab : List (NameEntry α)) (name : CString) :
    toValueWithin code unk tab name = some (toValue code unk tab name) := by
  unfold toValueWithin toValue
  dsimp only
  induction tab.take ((code unk).toNat + 1) with
  | nil => rfl
  | cons e es ih =>
    rw [searchWithin, nameMatchesWithin_eq, List.find?_cons]
    cases nameMatches e.name name with
    | false => exact ih
    | true => rfl

/-! ## Tables -/

/-- A table with every value of its enumeration, each under a name of its own. -/
structure NameTable (code : α → ℤ) (unk : α) (tab : List (NameEntry α)) : Prop where
  injective : Function.Injective code
  length : tab.length = (code unk).toNat + 1
  complete : ∀ v, v ∈ tab.map (·.value)
  values : (tab.map (·.value)).Nodup
  names : (tab.map (·.name)).Nodup
  oneLine : ∀ e ∈ tab, OneLine e.name
  unknown : ⟨unk, "unknown".toList⟩ ∈ tab

/-- A string that stands for a name: the name itself, or followed by a newline. -/
def Spells (s name : CString) : Prop := cstr s = name ∨ name ++ ['\n'] <+: cstr s

/-- What the lookups in a table are meant to find. -/
structure LooksUp (code : α → ℤ) (unk : α) (tab : List (NameEntry α)) (str : ℤ → CString)
    (value : CString → α) : Prop where
  value_iff : ∀ s v, v ≠ unk → (value s = v ↔ ∃ e ∈ tab, e.value = v ∧ Spells s e.name)
  unique : ∀ s, ∀ e ∈ tab, ∀ e' ∈ tab, Spells s e.name → Spells s e'.name → e = e'
  within : ∀ s, toValueWithin code unk tab s = some (value s)
  str_name : ∀ s, ∀ e ∈ tab, e.value ≠ unk → Spells s e.name → str (code (value s)) = e.name
  str_unknown : ∀ s, (∀ e ∈ tab, e.value ≠ unk → ¬ Spells s e.name) →
    value s = unk ∧ str (code (value s)) = "unknown".toList

/-- Two lookups give an integer the same name, `unknown` if it is no value of the
    enumeration. -/
structure Agree (code : α → ℤ) (str str' : ℤ → CString) (v : ℤ) : Prop where
  same : str v = str' v
  unknown : (∀ a, v ≠ code a) → str v = "unknown".toList

theorem spells_iff {name : CString} (h : OneLine name) (s : CString) :
    Spells s name ↔ firstLine s = name := by
  rw [firstLine_eq_iff h]
  constructor
  · rintro (heq | ⟨t, ht⟩)
    · exact ⟨[], by rw [heq, List.append_nil], by simp⟩
    · exact ⟨'\n' :: t, by rw [← ht, List.append_assoc, List.singleton_append], by simp⟩
  · rintro ⟨t, ht, hhead⟩
    cases t with
    | nil => exact .inl (by rw [ht, List.append_nil])
    | cons c t =>
      rw [hhead c rfl] at ht
      exact .inr ⟨t, by rw [ht, List.append_assoc, List.singleton_append]⟩

/-- An integer that is no value of the enumeration is given the name at the index of UNK. -/
theorem toStr_of_not_code {code : α → ℤ} {unk : α} {tab : List (NameEntry α)} {v : ℤ}
    (hv : ∀ a, v ≠ code a) {e : NameEntry α} (he : tab[(code unk).toNat]? = some e) :
    toStr code unk tab v = e.name := by
  have hfind : (tab.take ((code unk).toNat + 1)).find? (fun e' => v == code e'.value) = none := by
    rw [List.find?_eq_none]
    intro e' _ hbeq
    exact hv e'.value (by simpa using hbeq)
  unfold toStr
  simp only [hfind, he]

namespace NameTable

variable {code : α → ℤ} {unk : α} {tab : List (NameEntry α)} (h : NameTable code unk tab)

include h

/-- An entry is determined by its value. -/
theorem eq_of_value {e e' : NameEntry α} (he : e ∈ tab) (he' : e' ∈ tab)
    (hv : e.value = e'.value) : e = e' := List.inj_on_of_nodup_map h.values he he' hv

/-- An entry is determined by its name. -/
theorem eq_of_name {e e' : NameEntry α} (he : e ∈ tab) (he' : e' ∈ tab)
    (hn : e.name = e'.name) : e = e' := List.inj_on_of_nodup_map h.names he he' hn

/-- The value of an entry is turned into its name. -/
theorem toStr_of_mem {e : NameEntry α} (he : e ∈ tab) :
    toStr code unk tab (code e.value) = e.name := by
  have htab : tab.take ((code unk).toNat + 1) = tab := List.take_of_length_le h.length.le
  unfold toStr
  simp only [htab]
  cases hfind : tab.find? fun e' => code e.value == code e'.value with
  | none =>
    rw [List.find?_eq_none] at hfind
    exact absurd (beq_self_eq_true _) (hfind e he)
  | some e' =>
    have hcode : code e.value = code e'.value := by simpa using List.find?_some hfind
    have hsame : e = e' :=
      h.eq_of_value he (List.mem_of_find?_eq_some hfind) (h.injective hcode)
    rw [hsame]

/-- The value of a string is that of the entry it spells. -/
theorem toValue_of_spells {e : NameEntry α} (he : e ∈ tab) {s : CString}
    (hs : Spells s e.name) : toValue code unk tab s = e.value := by
  have hline : firstLine s = e.name := (spells_iff (h.oneLine e he) s).mp hs
  rw [toValue_eq_find h.length.le h.oneLine]
  cases hfind : tab.find? fun e' => decide (firstLine s = e'.name) with
  | none =>
    rw [List.find?_eq_none] at hfind
    exact absurd (decide_eq_true hline) (hfind e he)
  | some e' =>
    have hline' : firstLine s = e'.name := by simpa using List.find?_some hfind
    have hsame : e = e' :=
      h.eq_of_name he (List.mem_of_find?_eq_some hfind) (hline.symm.trans hline')
    rw [hsame]
    rfl

/-- A string that spells no name but that of UNK has the value UNK. -/
theorem toValue_of_not_spells {s : CString}
    (hs : ∀ e ∈ tab, e.value ≠ unk → ¬ Spells s e.name) : toValue code unk tab s = unk := by
  rw [toValue_eq_find h.length.le h.oneLine]
  cases hfind : tab.find? fun e' => decide (firstLine s = e'.name) with
  | none => rfl
  | some e =>
    have he : e ∈ tab := List.mem_of_find?_eq_some hfind
    have hline : firstLine s = e.name := by simpa using List.find?_some hfind
    by_contra hne
    exact hs e he hne ((spells_iff (h.oneLine e he) s).mpr hline)

/-- The lookups find what they are meant to find. -/
theorem looksUp : LooksUp code unk tab (toStr code unk tab) (toValue code unk tab) where
  value_iff s v hv := by
    constructor
    · rintro rfl
      by_contra hnone
      push Not at hnone
      refine hv (h.toValue_of_not_spells fun e he _ hs => ?_)
      exact hnone e he (h.toValue_of_spells he hs).symm hs
    · rintro ⟨e, he, rfl, hs⟩
      exact h.toValue_of_spells he hs
  unique s e he e' he' hs hs' := by
    apply h.eq_of_name he he'
    rw [← (spells_iff (h.oneLine e he) s).mp hs, ← (spells_iff (h.oneLine e' he') s).mp hs']
  within s := toValueWithin_eq code unk tab s
  str_name s e he _ hs := by
    rw [h.toValue_of_spells he hs]
    exact h.toStr_of_mem he
  str_unknown s hs := by
    have hvalue := h.toValue_of_not_spells hs
    exact ⟨hvalue, by rw [hvalue]; exact h.toStr_of_mem h.unknown⟩

/-! ## Two orders of a table -/

/-- A table may be put in another order. -/
theorem perm {tab' : List (NameEntry α)} (hperm : tab.Perm tab') : NameTable code unk tab' where
  injective := h.injective
  length := hperm.length_eq.symm.trans h.length
  complete v := (hperm.map _).mem_iff.mp (h.complete v)
  values := (hperm.map _).nodup_iff.mp h.values
  names := (hperm.map _).nodup_iff.mp h.names
  oneLine e he := h.oneLine e (hperm.mem_iff.mpr he)
  unknown := hperm.mem_iff.mp h.unknown

variable {tab' : List (NameEntry α)} (hperm : tab.Perm tab')

include hperm

/-- The order of the entries does not matter to the value of a string. -/
theorem toValue_perm (s : CString) : toValue code unk tab s = toValue code unk tab' s := by
  by_cases hs : ∃ e ∈ tab, Spells s e.name
  · obtain ⟨e, he, hs⟩ := hs
    rw [h.toValue_of_spells he hs, (h.perm hperm).toValue_of_spells (hperm.mem_iff.mp he) hs]
  · push Not at hs
    rw [h.toValue_of_not_spells fun e he _ => hs e he,
      (h.perm hperm).toValue_of_not_spells fun e he _ => hs e (hperm.mem_iff.mpr he)]

/-- Nor to the name of a value. -/
theorem toStr_perm (v : α) : toStr code unk tab (code v) = toStr code unk tab' (code v) := by
  obtain ⟨e, he, rfl⟩ := List.mem_map.mp (h.complete v)
  rw [h.toStr_of_mem he, (h.perm hperm).toStr_of_mem (hperm.mem_iff.mp he)]

/-- Of two orders with UNK last in the first and not in the second, the first has
    `unknown` for every other integer and the second has not. -/
theorem agree_iff (hlast : tab[(code unk).toNat]? = some ⟨unk, "unknown".toList⟩)
    {e : NameEntry α} (he : tab'[(code unk).toNat]? = some e) (hne : e.name ≠ "unknown".toList)
    (v : ℤ) : Agree code (toStr code unk tab) (toStr code unk tab') v ↔ ∃ a, v = code a := by
  constructor
  · intro hagree
    by_contra hv
    push Not at hv
    have hsame := hagree.same
    rw [toStr_of_not_code hv hlast, toStr_of_not_code hv he] at hsame
    exact hne hsame.symm
  · rintro ⟨a, rfl⟩
    exact ⟨h.toStr_perm hperm a, fun hv => absurd rfl (hv a)⟩

end NameTable

end Pcitop.Hplba
