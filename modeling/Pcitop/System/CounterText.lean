import Pcitop.Driver.UtilState
import Pcitop.Tool.Collect

/-!
# Counters between driver and tool

The driver prints two counters `"%lu,%lu\n"`; the tool strips the last character,
copies the text into a page and scans it with `"%lu,%lu"`.

* `counters_utilizationShow`: the scan gives back the two numbers.
* `hplbaCollect_utilization`: so `hplba_collect` stores the register fields of the
  chip.
-/

namespace Pcitop.System

open Pcitop.Common Pcitop.Hplba Pcitop.Driver Pcitop.Tool

theorem noNul_utilizationShow (counters : BitVec 64 × BitVec 64) :
    NoNul (utilizationShow counters) := by
  have hcomma : NoNul [','] := by decide
  exact ((noNul_dec _).append (hcomma.append (noNul_dec _))).append (by decide)

/-- Two numbers of 64 bits and two characters fit in a page. -/
theorem length_utilizationShow (counters : BitVec 64 × BitVec 64) :
    (utilizationShow counters).length ≤ 42 := by
  have ht : (dec counters.1.toNat).length ≤ 20 :=
    length_dec_le (by norm_num) (counters.1.isLt.trans (by norm_num))
  have hc : (dec counters.2.toNat).length ≤ 20 :=
    length_dec_le (by norm_num) (counters.2.isLt.trans (by norm_num))
  simp [utilizationShow]
  omega

/-- The text the tool scans. -/
theorem cstr_readLbaAttribute_utilizationShow (ps : PageSize) (counters : BitVec 64 × BitVec 64)
    (contents : CString) :
    cstr (readLbaAttribute ps (.data (utilizationShow counters)) contents) =
      dec counters.1.toNat ++ ',' :: dec counters.2.toNat := by
  have hps : PATH_MAX ≤ ps := ps.2
  have hlen := length_utilizationShow counters
  have hmax : PATH_MAX = 4096 := rfl
  have htext : attributeText ps (utilizationShow counters) =
      dec counters.1.toNat ++ ',' :: dec counters.2.toNat := by
    rw [attributeText_of_le ps (noNul_utilizationShow counters) (by omega), utilizationShow,
      List.dropLast_concat]
  have hshort : (attributeText ps (utilizationShow counters)).length < PATH_MAX := by
    rw [attributeText_of_le ps (noNul_utilizationShow counters) (by omega), List.length_dropLast]
    omega
  rw [readLbaAttribute, cstr_readAttribute ps _ contents hps hshort, htext]

/-- `%lu,%lu` reads back `%lu,%lu`. -/
theorem counters_utilizationShow (ps : PageSize) (counters : BitVec 64 × BitVec 64) :
    (Reading.mk true (.data (utilizationShow counters))).counters ps = some counters := by
  have ht := scan_lu_dec counters.1.isLt (',' :: dec counters.2.toNat)
    (endsNumber_cons (by norm_num) rfl (by decide) (by decide) _)
  have hc := scan_lu_dec counters.2.isLt [] (by simp [endsNumber_nil])
  rw [List.append_nil] at hc
  have hscan : scanUtilization ps (.data (utilizationShow counters)) =
      [.ulong counters.1, .ulong counters.2] := by
    rw [scanUtilization, sscanf, cstr_readLbaAttribute_utilizationShow, utilizationFmt,
      runDirectives_conv ht, runDirectives_lit, runDirectives_conv hc, runDirectives_nil]
    simp
  simp [Reading.counters, hscan]

/-- `hplba_collect` of the text the driver shows for a chip returns 0 and stores the
    48 bits of the timer and of the busy counter. -/
theorem hplbaCollect_utilization (chip : Chip) (regs : Regs 64) (ps : PageSize)
    (lba : LbaInfo) :
    hplbaCollect ps ⟨true, .data (utilizationShow (chip.utilization regs))⟩ lba =
      (0, { lba with
        timer := BitVec.ofNat 64 ((regs chip.regs.diagCtrl0Timer.offset).toNat % 2 ^ 48)
        counter := BitVec.ofNat 64
          ((regs chip.regs.diagCtrl1Cntr1.offset).toNat % 2 ^ 48) }) := by
  rw [chip.utilization_eq]
  exact hplbaCollect_of_counters (counters_utilizationShow ps _) lba

end Pcitop.System
