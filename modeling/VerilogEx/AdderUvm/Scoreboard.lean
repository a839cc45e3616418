import VerilogEx.Hdl.Operators
import VerilogEx.Hdl.Verdicts

/-! The adder of `adder.sv`, whose sum keeps the carry, and the scoreboard of
`tb_adder_uvm`. -/

namespace VerilogEx.AdderUvm

open Hdl

-- The operands are extended to the width of the result before they are added.
def adder (a b : Vec 8) : Vec 9 := (a.zeroExtend 9).add (b.zeroExtend 9)

structure SeqItem where
  a : BitVec 8
  b : BitVec 8
  y : Vec 9 := .allX
  deriving DecidableEq

def SeqItem.Right (item : SeqItem) : Prop :=
  item.y.Known ∧ item.y.toBits.toNat = item.a.toNat + item.b.toNat

structure AdderScoreboard where
  expectedData : BitVec 9 := 0
  passCnt : BitVec 32 := 0
  failCnt : BitVec 32 := 0
  deriving DecidableEq

namespace AdderScoreboard

variable (b : AdderScoreboard) (data : SeqItem)

def write : AdderScoreboard :=
  let b := { b with expectedData := data.a.setWidth 9 + data.b.setWidth 9 }
  if ((Vec.ofBits b.expectedData).eq data.y).isTrue then { b with passCnt := b.passCnt + 1 }
  else { b with failCnt := b.failCnt + 1 }

def noTransaction : Bool := b.passCnt + b.failCnt == 0

lemma isTrue_eq_iff :
    ((Vec.ofBits (data.a.setWidth 9 + data.b.setWidth 9)).eq data.y).isTrue = true ↔ data.Right := by
  have hsum : (data.a.setWidth 9 + data.b.setWidth 9).toNat = data.a.toNat + data.b.toNat := by
    rw [BitVec.toNat_add_of_lt] <;> simp <;> omega
  rw [Vec.isTrue_eq, and_iff_right (Vec.known_ofBits _), eq_comm, Vec.eq_ofBits_iff, SeqItem.Right,
    ← BitVec.toNat_inj, hsum]

variable {data}

lemma write_right (h : data.Right) : b.write data =
    { b with expectedData := data.a.setWidth 9 + data.b.setWidth 9, passCnt := b.passCnt + 1 } :=
  if_pos ((isTrue_eq_iff data).mpr h)

lemma write_wrong (h : ¬data.Right) : b.write data =
    { b with expectedData := data.a.setWidth 9 + data.b.setWidth 9, failCnt := b.failCnt + 1 } :=
  if_neg (mt (isTrue_eq_iff data).mp h)

end AdderScoreboard

def rightAt (_ : AdderScoreboard) (data : SeqItem) : Prop := data.Right

lemma along_rightAt (b : AdderScoreboard) (items : List SeqItem) :
    Along rightAt AdderScoreboard.write b items ↔ ∀ data ∈ items, data.Right := by
  induction items generalizing b with
  | nil => simp [Along]
  | cons data items ih => rw [Along, ih, rightAt, List.forall_mem_cons]

lemma failCnt_right (b : AdderScoreboard) (data : SeqItem) (h : rightAt b data) :
    (b.write data).failCnt = b.failCnt := by
  rw [b.write_right h]

lemma failCnt_wrong (b : AdderScoreboard) (data : SeqItem) (h : ¬rightAt b data) :
    (b.write data).failCnt = b.failCnt + 1 := by
  rw [b.write_wrong h]

lemma counts_run (b : AdderScoreboard) (items : List SeqItem) :
    (run AdderScoreboard.write b items).passCnt + (run AdderScoreboard.write b items).failCnt =
      b.passCnt + b.failCnt + .ofNat 32 items.length := by
  induction items generalizing b with
  | nil => simp
  | cons data items ih =>
    have hwrite : (b.write data).passCnt + (b.write data).failCnt = b.passCnt + b.failCnt + 1 := by
      by_cases h : data.Right
      · rw [b.write_right h]
        exact add_right_comm b.passCnt 1 b.failCnt
      · rw [b.write_wrong h]
        exact (BitVec.add_assoc ..).symm
    rw [run_cons, ih, hwrite, List.length_cons, Nat.add_comm, BitVec.ofNat_add, BitVec.add_assoc]
    rfl

theorem sums_exact (items : List SeqItem) (h : items.length < 2 ^ 32) :
    let scb := run AdderScoreboard.write {} items
    (scb.failCnt = 0 ↔ ∀ data ∈ items, data.y.Known ∧
        data.y.toBits.toNat = data.a.toNat + data.b.toNat) ∧
      (scb.noTransaction = true ↔ items = []) := by
  refine ⟨?_, ?_⟩
  · have hzero := fails_eq_zero_iff AdderScoreboard.failCnt failCnt_right failCnt_wrong
      (s := {}) items (by simpa using h)
    exact (hzero.trans (and_iff_right rfl)).trans (along_rightAt {} items)
  · have hcounts := counts_run {} items
    have hlen : BitVec.ofNat 32 items.length = 0 ↔ items = [] := by
      rw [← List.length_eq_zero_iff, ← BitVec.toNat_inj, BitVec.toNat_ofNat, Nat.mod_eq_of_lt h]
      rfl
    rw [AdderScoreboard.noTransaction, beq_iff_eq, hcounts]
    simpa using hlen

theorem sums_exact_carry :
    (run AdderScoreboard.write {} [⟨255, 1, .ofBits 256⟩, ⟨255, 1, .ofBits 0⟩]).failCnt ≠ 0 := by
  intro h
  have hall := (sums_exact [⟨255, 1, .ofBits 256⟩, ⟨255, 1, .ofBits 0⟩] (by decide)).1.mp h
  exact absurd hall (by decide)

end VerilogEx.AdderUvm
