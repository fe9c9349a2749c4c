import Pcitop.Tool.PciSysfs

/-!
# Bus addresses as the kernel prints them

The key that ties LBAs, root bridges, buses and slots together is a PCI domain
and bus printed `%04x:%02x`. The tool meets it in four places: in the name of a
root directory (scanned, then printed again), in the link of a bus (cut after
seven characters), in the address of a slot and in the name of an LBA (compared
up to seven characters).

* `BusId.text_injective`: the text determines the address.
* `runDirectives_busId`: `%4x:%2x` reads it back.
* `rootBridgeOf_dir`, `sscanf_busFmt`: the first two of the four places.
-/

namespace Pcitop.Tool

open Pcitop.Common

/-- A PCI domain and bus number. -/
structure BusId where
  domain : Fin 0x10000
  bus : Fin 0x100
  deriving DecidableEq, Repr

namespace BusId

/-- The text `%04x:%02x`. -/
def text (id : BusId) : CString := hexPad 4 id.domain ++ ':' :: hexPad 2 id.bus

/-- The directory `pci%04x:%02x` of a root bridge. -/
def dir (id : BusId) : CString := "pci".toList ++ id.text

theorem length_domain (id : BusId) : (hexPad 4 id.domain).length = 4 :=
  length_hexPad (by norm_num) id.domain.isLt

theorem length_bus (id : BusId) : (hexPad 2 id.bus).length = 2 :=
  length_hexPad (by norm_num) id.bus.isLt

@[simp] theorem length_text (id : BusId) : id.text.length = 7 := by
  simp [text, length_domain, length_bus]

theorem noNul_text (id : BusId) : NoNul id.text := by
  intro h
  rw [text, List.mem_append, List.mem_cons] at h
  rcases h with h | h | h
  · exact noNul_hexPad 4 _ h
  · exact absurd h (by decide)
  · exact noNul_hexPad 2 _ h

theorem noNul_dir (id : BusId) : NoNul id.dir := NoNul.append (by decide) id.noNul_text

theorem text_injective {a b : BusId} (h : a.text = b.text) : a = b := by
  obtain ⟨hd, hb⟩ := List.append_inj h (by rw [length_domain, length_domain])
  have hd := Fin.ext (hexPad_injective hd)
  have hb := Fin.ext (hexPad_injective (List.cons.inj hb).2)
  cases a
  cases b
  simp_all

theorem text_inj {a b : BusId} : a.text = b.text ↔ a = b :=
  ⟨text_injective, fun h => h ▸ rfl⟩

theorem isspace_text (id : BusId) : ∀ c ∈ id.text, isspace c = false := by
  intro c hc
  rw [text, List.mem_append, List.mem_cons] at hc
  rcases hc with hc | rfl | hc
  · exact isDigitOf_not_isspace le_rfl (isDigitOf_hexPad 4 _ c hc)
  · rfl
  · exact isDigitOf_not_isspace le_rfl (isDigitOf_hexPad 2 _ c hc)

end BusId

/-- `%4x:%2x` reads back `%04x:%02x`. -/
theorem runDirectives_busId (id : BusId) (fs : List Directive) (rest : CString) :
    runDirectives (.conv (.x (some 4)) :: .lit ':' :: .conv (.x (some 2)) :: fs)
        (id.text ++ rest) =
      .uint (BitVec.ofNat 32 id.domain) :: .uint (BitVec.ofNat 32 id.bus) ::
        runDirectives fs rest := by
  have hd := scan_x_hexPad (w := 4) (by norm_num) id.domain.isLt (by norm_num)
    (':' :: (hexPad 2 id.bus ++ rest))
  have hb := scan_x_hexPad (w := 2) (by norm_num) id.bus.isLt (by norm_num) rest
  rw [BusId.text, List.append_assoc, List.cons_append, runDirectives_conv hd, runDirectives_lit,
    runDirectives_conv hb]

/-! ## Root directories -/

/-- The root bridge of a domain and bus, before it has slots. -/
def bridgeOf (id : BusId) : SysfsRootBridge :=
  newRootBridge (BitVec.ofNat 32 id.domain) (BitVec.ofNat 32 id.bus)

theorem toNat_ofNat_of_fin {n : ℕ} (hn : n ≤ 2 ^ 32) (v : Fin n) :
    (BitVec.ofNat 32 v).toNat = v := by
  rw [BitVec.toNat_ofNat, Nat.mod_eq_of_lt (v.isLt.trans_le hn)]

/-- The name of a root bridge is its address, printed again. -/
theorem cstr_bridgeOf_name (id : BusId) : cstr (bridgeOf id).name = id.text := by
  have htext : hexPad 4 (BitVec.ofNat 32 id.domain).toNat ++
      ':' :: hexPad 2 (BitVec.ofNat 32 id.bus).toNat = id.text := by
    rw [toNat_ofNat_of_fin (by norm_num), toNat_ofNat_of_fin (by norm_num), BusId.text]
  rw [bridgeOf, newRootBridge, htext]
  exact cstr_snprintf id.noNul_text (by rw [BusId.length_text]; decide)

theorem isSkipped_of_length {s : CString} (hn : NoNul s) (h : 2 < s.length) :
    isSkipped s = false := by
  simp only [isSkipped, strlen, streq, cstr_eq_self hn, Bool.or_eq_false_iff, beq_eq_false_iff_ne,
    ne_eq]
  refine ⟨⟨by omega, ?_⟩, ?_⟩
  · rintro rfl
    exact absurd h (by decide)
  · rintro rfl
    exact absurd h (by decide)

theorem isSkipped_text (id : BusId) : isSkipped id.text = false :=
  isSkipped_of_length id.noNul_text (by simp)

/-- A root directory gives its root bridge. -/
theorem rootBridgeOf_dir (id : BusId) : rootBridgeOf id.dir = some (bridgeOf id) := by
  have hskip : isSkipped id.dir = false :=
    isSkipped_of_length id.noNul_dir (by simp [BusId.dir])
  have hscan : sscanf rootBridgeFmt id.dir =
      [.uint (BitVec.ofNat 32 id.domain), .uint (BitVec.ofNat 32 id.bus)] := by
    rw [sscanf, cstr_eq_self id.noNul_dir, rootBridgeFmt, BusId.dir, runDirectives_lits]
    simpa using runDirectives_busId id [] []
  rw [rootBridgeOf, hskip, hscan]
  rfl

/-- An entry that does not start with `pci` gives none. -/
theorem rootBridgeOf_of_not_prefix {d : CString} (h : ¬ "pci".toList <+: d) :
    rootBridgeOf d = none := by
  rw [rootBridgeOf, rootBridgeFmt, sscanf_lits_of_not_prefix h]
  split_ifs <;> rfl

/-- Over bridges whose names have at most seven characters, a name that starts with
    an address selects the first bridge of that address. -/
theorem getSysfsRootBridge_text {bridges : List SysfsRootBridge}
    (h : ∀ b ∈ bridges, (cstr b.name).length ≤ 7) (id : BusId) (rest : CString) :
    getSysfsRootBridge bridges (id.text ++ rest) =
      bridges.find? fun b => cstr b.name = id.text := by
  refine List.find?_congr fun b hb => ?_
  rw [strneq_eq_decide, cstr_append id.noNul_text, show ROOT_BRIDGE_NAME_LEN - 1 = 7 from rfl,
    List.take_left' id.length_text, List.take_of_length_le (h b hb)]
  simp only [eq_comm]

/-! ## The link of a bus -/

/-- The link of an entry leads into the directory of a root bridge. -/
def BusEntry.LinksTo (e : BusEntry) (root : BusId) : Prop :=
  ∃ rest, (if e.deviceStat then e.deviceLink else e.bridgeLink) =
    some ("../../../devices/pci".toList ++ root.text ++ rest)

/-- A link leads to one root bridge. -/
theorem BusEntry.LinksTo.unique {e : BusEntry} {r r' : BusId} (h : e.LinksTo r)
    (h' : e.LinksTo r') : r = r' := by
  obtain ⟨t, ht⟩ := h
  obtain ⟨t', ht'⟩ := h'
  rw [ht, Option.some.injEq, List.append_assoc, List.append_assoc] at ht'
  have htext := List.append_cancel_left ht'
  exact BusId.text_injective (List.append_inj htext (by simp)).1

/-- `%7s` cuts the name of the root bridge out of the link. -/
theorem sscanf_busFmt (root : BusId) (rest : CString) :
    sscanf busFmt ("../../../devices/pci".toList ++ root.text ++ rest) = [.str root.text] := by
  have hword : ((root.text ++ cstr rest).dropWhile isspace) = root.text ++ cstr rest := by
    obtain ⟨c, t, ht⟩ := List.exists_cons_of_ne_nil
      (show root.text ≠ [] from fun h => by simpa [h] using root.length_text)
    have := root.isspace_text c (by rw [ht]; simp)
    rw [ht]
    simp [this]
  have hall : root.text.takeWhile (fun c => !isspace c) = root.text := by
    rw [List.takeWhile_eq_self_iff]
    intro c hc
    simp [root.isspace_text c hc]
  have hne : root.text ≠ [] := fun h => by simpa [h] using root.length_text
  have hscan : (Conv.s (some 7)).scan (root.text ++ cstr rest) =
      some (.str root.text, cstr rest) := by
    simp only [Conv.scan, hword, Option.getD_some, List.take_left' root.length_text, hall,
      if_neg hne, List.drop_left]
  rw [sscanf, List.append_assoc, cstr_append (by decide), cstr_append root.noNul_text, busFmt,
    runDirectives_lits, runDirectives_conv hscan]
  rfl

/-- The link read for an entry names its root bridge. -/
theorem BusEntry.LinksTo.sscanf_busLink {e : BusEntry} {root : BusId} (h : e.LinksTo root) :
    ∃ deviceLink, busLink e = some deviceLink ∧ sscanf busFmt deviceLink = [.str root.text] := by
  obtain ⟨rest, hrest⟩ := h
  refine ⟨_, by rw [busLink, hrest, Option.map_some], ?_⟩
  have hlen : ("../../../devices/pci".toList ++ root.text).length = 27 := by
    rw [List.length_append, root.length_text]
    decide
  rw [List.take_append, List.take_of_length_le (by rw [hlen]; decide)]
  exact sscanf_busFmt root _

end Pcitop.Tool
