import VerilogEx.Fifo.Refinement

/-! The monitor and the scoreboard of `tb_fifo_uvm`. Fields declared `bit` are
two-state: an x or z on a pin becomes 0 when the monitor copies it. -/

namespace VerilogEx.FifoBench

open Hdl Queues Fifo

structure MonCb where
  rstN : Logic
  wrEn : Logic
  wrData : Vec 8
  rdEn : Logic
  rdData : Vec 8
  full : Logic
  empty : Logic

structure FifoSeqItem where
  wrEn : Bool
  rdEn : Bool
  wrData : BitVec 8
  rstN : Bool
  rdData : BitVec 8
  full : Bool
  empty : Bool
  occupancy : BitVec 4 := 0
  wrWrap : Bool := false
  rdWrap : Bool := false

def FifoSeqItem.ofPins (cb : MonCb) : FifoSeqItem where
  rstN := cb.rstN.isTrue
  wrEn := cb.wrEn.isTrue
  wrData := cb.wrData.toBits
  rdEn := cb.rdEn.isTrue
  rdData := cb.rdData.toBits
  full := cb.full.isTrue
  empty := cb.empty.isTrue

structure FifoMonitor where
  wrCount : BitVec 32 := 0
  rdCount : BitVec 32 := 0

namespace FifoMonitor

def depth : ℕ := 8

def wraps (valid : Bool) (n : BitVec 32) : Bool :=
  valid && n % BitVec.ofNat 32 depth == BitVec.ofNat 32 (depth - 1)

def advance (valid : Bool) (n : BitVec 32) : BitVec 32 := if valid then n + 1 else n

def runPhase (m : FifoMonitor) (cb : MonCb) : FifoMonitor × FifoSeqItem :=
  let item := FifoSeqItem.ofPins cb
  if !item.rstN then ({ wrCount := 0, rdCount := 0 },
    { item with occupancy := 0, wrWrap := false, rdWrap := false })
  else
    let wrValid := item.wrEn && !item.full
    let rdValid := item.rdEn && !item.empty
    let wrCount := advance wrValid m.wrCount
    let rdCount := advance rdValid m.rdCount
    ({ wrCount, rdCount },
      { item with
        wrWrap := wraps wrValid m.wrCount
        rdWrap := wraps rdValid m.rdCount
        occupancy := (wrCount - rdCount).setWidth 4 })

lemma setWidth_advance (valid : Bool) (n : BitVec 32) :
    (advance valid n).setWidth 4 = if valid then n.setWidth 4 + 1 else n.setWidth 4 := by
  cases valid
  · rfl
  · exact BitVec.setWidth_add n 1 (by decide)

lemma setWidth_sub (m n : BitVec 32) : (m - n).setWidth 4 = m.setWidth 4 - n.setWidth 4 := by
  have h := congrArg (BitVec.setWidth 4) (BitVec.sub_add_cancel m n)
  rw [BitVec.setWidth_add _ _ (by decide)] at h
  rw [← h, BitVec.add_sub_cancel]

lemma wrap_bit_flips : ∀ w : BitVec 4, w.getLsbD 3 ≠ (w + 1).getLsbD 3 ↔ w.toNat % 8 = 7 := by
  decide

lemma wraps_iff (valid : Bool) (n : BitVec 32) : wraps valid n = true ↔
    (n.setWidth 4).getLsbD 3 ≠ ((advance valid n).setWidth 4).getLsbD 3 := by
  rw [setWidth_advance]
  cases valid
  · simp [wraps]
  · have hmod : (n.setWidth 4).toNat % 8 = n.toNat % 8 := by
      rw [BitVec.toNat_setWidth]
      omega
    have hlast : n % BitVec.ofNat 32 depth = BitVec.ofNat 32 (depth - 1) ↔ n.toNat % 8 = 7 :=
      ⟨fun h => congrArg BitVec.toNat h, fun h => BitVec.eq_of_toNat_eq h⟩
    rw [if_pos rfl, wrap_bit_flips, hmod, ← hlast, wraps, Bool.true_and, beq_iff_eq]

end FifoMonitor

structure FifoScoreboard where
  modelQ : List (BitVec 8) := []
  passCnt : BitVec 32 := 0
  failCnt : BitVec 32 := 0
  skipCnt : BitVec 32 := 0

namespace FifoScoreboard

variable (b : FifoScoreboard) (item : FifoSeqItem)

def depth : ℕ := 8

def expEmpty : Bool := b.modelQ.length == 0

def expFull : Bool := b.modelQ.length == depth

def isFail : Bool :=
  !(item.full == b.expFull && item.empty == b.expEmpty) ||
    (item.rdEn && !b.expEmpty && b.modelQ.head? != some item.rdData)

def nextQ : List (BitVec 8) :=
  (if item.rdEn && !b.expEmpty then b.modelQ.tail else b.modelQ) ++
    (if item.wrEn && !b.expFull then [item.wrData] else [])

def write : FifoScoreboard :=
  if !item.rstN then { b with modelQ := [], skipCnt := b.skipCnt + 1 }
  else if b.isFail item then { b with modelQ := b.nextQ item, failCnt := b.failCnt + 1 }
  else if (item.rdEn && b.expEmpty) || (item.wrEn && b.expFull) then
    { b with modelQ := b.nextQ item, skipCnt := b.skipCnt + 1 }
  else { b with modelQ := b.nextQ item, passCnt := b.passCnt + 1 }

lemma write_runPhase (m : FifoMonitor) (cb : MonCb) :
    b.write (m.runPhase cb).2 = b.write (.ofPins cb) := by
  unfold FifoMonitor.runPhase
  dsimp only
  split <;> rfl

lemma write_reset (h : item.rstN = false) :
    b.write item = { b with modelQ := [], skipCnt := b.skipCnt + 1 } := by
  simp [write, h]

lemma modelQ_write (h : item.rstN = true) : (b.write item).modelQ = b.nextQ item := by
  unfold write
  rw [h]
  split_ifs <;> simp_all

lemma failCnt_write (h : item.rstN = true) :
    (b.write item).failCnt = if b.isFail item then b.failCnt + 1 else b.failCnt := by
  unfold write
  rw [h]
  split_ifs <;> simp_all

lemma verdict_write (h : item.rstN = true → b.isFail item = false) :
    (b.write item).passCnt = b.passCnt + 1 ∧ (b.write item).skipCnt = b.skipCnt ∨
      (b.write item).passCnt = b.passCnt ∧ (b.write item).skipCnt = b.skipCnt + 1 := by
  unfold write
  split_ifs <;> simp_all

lemma nextQ_eq (q : BoundedQueue (BitVec 8) depth) (h : b.modelQ = q.items) :
    b.nextQ item = (q.cycle (if item.wrEn then some item.wrData else none) item.rdEn).items := by
  have hb := q.bound
  have hfull : b.expFull = decide ¬q.items.length < depth := by
    simp only [expFull, h, beq_eq_decide, decide_eq_decide]
    omega
  rw [nextQ, BoundedQueue.items_cycle, hfull, h]
  congr 1
  · cases hi : q.items <;> simp [expEmpty, h, hi]
  · cases item.wrEn <;> simp

end FifoScoreboard

end VerilogEx.FifoBench
