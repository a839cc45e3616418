import VerilogEx.Hdl.Verdicts
import VerilogEx.RamUvm.Scoreboard

/-! Which traces of an arbitrary device the scoreboard of `tb_ram_uvm` accepts. -/

namespace VerilogEx.RamUvm

open Hdl

namespace RamScoreboard

variable (b : RamScoreboard) (item : RamSeqItem)

-- A write is compared with `==`, which is never true of an unknown bit, a read with `===`.
def Passes : Prop :=
  (item.we = .one → item.wdata.Known ∧ item.rdata = item.wdata) ∧
    (item.we ≠ .one → item.rdata = Memory.readAt b.ramBuffer item.addr)

lemma isTrue_of_ne (hw : item.we ≠ .one) : item.we.isTrue = false :=
  Bool.eq_false_iff.mpr (mt (Logic.isTrue_iff _).mp hw)

lemma failCnt_pass (h : b.Passes item) : (b.write item).failCnt = b.failCnt := by
  by_cases hw : item.we = .one
  · obtain ⟨hk, he⟩ := h.1 hw
    apply failCnt_write_of_we b item ((Logic.isTrue_iff _).mpr hw)
    exact (Vec.isTrue_eq _ _).mpr ⟨hk, he.symm⟩
  · exact failCnt_write_of_read b item (isTrue_of_ne item hw) (h.2 hw)

lemma failCnt_fail (h : ¬b.Passes item) : (b.write item).failCnt = b.failCnt + 1 := by
  by_cases hw : item.we = .one
  · have hne : ¬(item.wdata.eq item.rdata).isTrue = true := by
      intro he
      obtain ⟨hk, he⟩ := (Vec.isTrue_eq _ _).mp he
      exact h ⟨fun _ => ⟨hk, he.symm⟩, fun hn => absurd hw hn⟩
    simp [write, (Logic.isTrue_iff _).mpr hw, hne]
  · have hne : item.rdata ≠ Memory.readAt b.ramBuffer item.addr :=
      fun he => h ⟨fun ho => absurd ho hw, fun _ => he⟩
    simp [write, isTrue_of_ne item hw, hne]

lemma passCnt_pass (h : b.Passes item) : (b.write item).passCnt = b.passCnt + 1 := by
  by_cases hw : item.we = .one
  · obtain ⟨hk, he⟩ := h.1 hw
    have heq : (item.wdata.eq item.rdata).isTrue = true := (Vec.isTrue_eq _ _).mpr ⟨hk, he.symm⟩
    simp [write, (Logic.isTrue_iff _).mpr hw, heq]
  · simp [write, isTrue_of_ne item hw, h.2 hw]

end RamScoreboard

def Right (pre : List RamSeqItem) (item : RamSeqItem) : Prop :=
  (item.we = .one → item.wdata.Known ∧ item.rdata = item.wdata) ∧
    (item.we ≠ .one → item.rdata =
      if item.addr.Known then mostRecent pre item.addr.toBits else .allX)

def Buffers (b : RamScoreboard) (pre : List RamSeqItem) : Prop :=
  b.ramBuffer = run Ram.alwaysFf .unwritten (pre.map RamSeqItem.drive)

lemma Buffers.write {b : RamScoreboard} {pre : List RamSeqItem} (h : Buffers b pre)
    (item : RamSeqItem) : Buffers (b.write item) (pre ++ [item]) := by
  rw [Buffers, RamScoreboard.ramBuffer_write, h, List.map_append, List.map_singleton, run_snoc]

lemma Buffers.passes_iff {b : RamScoreboard} {pre : List RamSeqItem} (h : Buffers b pre)
    (item : RamSeqItem) : b.Passes item ↔ Right pre item := by
  rw [RamScoreboard.Passes, Right, h, ← stored_drive, ← Ram.rdata_run]
  rfl

lemma passes_along_iff (items : List RamSeqItem) :
    Along RamScoreboard.Passes RamScoreboard.write {} items ↔
      ∀ pre item post, items = pre ++ item :: post → Right pre item := by
  have hcongr : Along RamScoreboard.Passes RamScoreboard.write {} items ↔
      Along Right (fun pre item => pre ++ [item]) [] items :=
    along_congr (R := Buffers) (fun _ _ item h => h.passes_iff item)
      (fun _ _ item h _ => h.write item) (show Buffers {} [] from rfl) items
  rw [hcongr, along_history]
  rfl

theorem ram_checker_exact (items : List RamSeqItem) (h : items.length < 2 ^ 31) :
    (run RamScoreboard.write {} items).failCnt = 0 ↔
      ∀ pre item post, items = pre ++ item :: post →
        (item.we = .one → item.wdata.Known ∧ item.rdata = item.wdata) ∧
          (item.we ≠ .one → item.rdata =
            if item.addr.Known then mostRecent pre item.addr.toBits else .allX) := by
  have hzero := fails_eq_zero_iff RamScoreboard.failCnt RamScoreboard.failCnt_pass
    RamScoreboard.failCnt_fail (s := {}) items (by simp; omega)
  exact (hzero.trans (and_iff_right rfl)).trans (passes_along_iff items)

def staleRead : List RamSeqItem :=
  [⟨.one, .ofBits 7, .ofBits 65, .ofBits 65⟩, ⟨.one, .ofBits 7, .ofBits 66, .ofBits 66⟩,
    ⟨.zero, .ofBits 7, .allX, .ofBits 65⟩]

theorem ram_checker_exact_stale : (run RamScoreboard.write {} staleRead).failCnt ≠ 0 := by
  intro h
  have hread := (ram_checker_exact staleRead (by decide)).mp h (staleRead.take 2)
    ⟨.zero, .ofBits 7, .allX, .ofBits 65⟩ [] rfl
  exact absurd (hread.2 (by decide)) (by decide)

end VerilogEx.RamUvm
