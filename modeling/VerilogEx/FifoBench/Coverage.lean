import VerilogEx.FifoBench.Sequences

/-! The covergroup of `fifo_coverage`. Since the items of the monitor are read off the
accepted words, so are the bins they fall into. -/

namespace VerilogEx.FifoBench

open Hdl Queues Fifo

inductive DataRange
  | low
  | mid
  | high
  deriving DecidableEq

def DataRange.of (wrData : BitVec 8) : DataRange :=
  if wrData ≤ 84 then .low else if wrData ≤ 169 then .mid else .high

inductive Level
  | emptyLvl
  | lowLvl
  | midLvl
  | highLvl
  | fullLvl
  deriving DecidableEq

-- A value above 8 falls into no bin.
def Level.of (occupancy : BitVec 4) : Option Level :=
  if occupancy = 0 then some .emptyLvl
  else if occupancy ≤ 2 then some .lowLvl
  else if occupancy ≤ 5 then some .midLvl
  else if occupancy ≤ 7 then some .highLvl
  else if occupancy = 8 then some .fullLvl
  else none

inductive Bin
  | wrEn (wrEn : Bool)
  | rdEn (rdEn : Bool)
  | full (full : Bool)
  | empty (empty : Bool)
  | wrData (range : DataRange)
  | occupancy (level : Level)
  | wrWrap (wrWrap : Bool)
  | rdWrap (rdWrap : Bool)
  | writeFull (wrEn full : Bool)
  | readEmpty (rdEn empty : Bool)
  deriving DecidableEq

namespace FifoSeqItem

variable (item : FifoSeqItem)

def dataBins : List Bin := if item.wrEn then [.wrData (.of item.wrData)] else []

def requestBins : List Bin :=
  [.wrEn item.wrEn, .rdEn item.rdEn, .full item.full, .empty item.empty] ++
    (Level.of item.occupancy).toList.map .occupancy ++
    [.wrWrap item.wrWrap, .rdWrap item.rdWrap, .writeFull item.wrEn item.full,
      .readEmpty item.rdEn item.empty]

def bins : List Bin := item.requestBins ++ item.dataBins

end FifoSeqItem

structure FifoCoverage where
  hits : Bin → ℕ := fun _ => 0

namespace FifoCoverage

def write (c : FifoCoverage) (item : FifoSeqItem) : FifoCoverage :=
  if item.rstN then { hits := fun bin => c.hits bin + item.bins.count bin } else c

end FifoCoverage

def Bench.items (b : Bench) : List DrvCb → List FifoSeqItem
  | [] => []
  | d :: ds => b.item d :: (b.cycle d).items ds

namespace Traffic

def bins (n : Traffic) : List DrvCb → List Bin
  | [] => []
  | d :: ds => (if d.rstN then (n.item d 0).bins else []) ++ bins (n.next d) ds

variable (n : Traffic)

lemma bins_append (ds es : List DrvCb) : n.bins (ds ++ es) = n.bins ds ++ (run next n ds).bins es := by
  induction ds generalizing n with
  | nil => rfl
  | cons d ds ih => rw [List.cons_append, bins, bins, ih, run_cons, List.append_assoc]

lemma mem_bins_of_request {ds : List DrvCb} {bin : Bin} (pre : List DrvCb) (d : DrvCb)
    (post : List DrvCb) (hds : ds = pre ++ d :: post) (hd : d.rstN = true)
    (h : bin ∈ ((run next n pre).item d 0).requestBins) : bin ∈ n.bins ds := by
  rw [hds, bins_append, bins, if_pos hd]
  exact List.mem_append_right _ (List.mem_append_left _ (List.mem_append_left _ h))

lemma mem_bins_of_data (ds : List DrvCb) (range : DataRange) : .wrData range ∈ n.bins ds ↔
    ∃ d ∈ ds, d.rstN = true ∧ d.wrEn = true ∧ DataRange.of d.wrData = range := by
  induction ds generalizing n with
  | nil => simp [bins]
  | cons d ds ih =>
    have hitem : .wrData range ∈ (if d.rstN then (n.item d 0).bins else []) ↔
        d.rstN = true ∧ d.wrEn = true ∧ DataRange.of d.wrData = range := by
      cases d.rstN <;> cases hw : d.wrEn <;>
        simp [FifoSeqItem.bins, FifoSeqItem.requestBins, FifoSeqItem.dataBins, item, hw, eq_comm]
    rw [bins, List.mem_append, hitem, ih, List.exists_mem_cons_iff]

end Traffic

namespace Bench.Counted

variable {b : Bench} {n : Traffic}

lemma hits_item (h : b.Counted n) (c : FifoCoverage) (d : DrvCb) (bin : Bin) :
    (c.write (b.item d)).hits bin =
      c.hits bin + (if d.rstN then (n.item d 0).bins else []).count bin := by
  have hr : (b.item d).rstN = d.rstN := by
    rw [← b.observed_rstN d, item, FifoMonitor.runPhase]
    dsimp only
    split <;> rfl
  cases hd : d.rstN
  · simp [FifoCoverage.write, hr, hd]
  · have hbins : (b.item d).bins = (n.item d 0).bins := by
      rw [h.item_eq hd]
      rfl
    simp [FifoCoverage.write, hr, hd, hbins]

lemma hits_items (h : b.Counted n) (c : FifoCoverage) (ds : List DrvCb) (bin : Bin) :
    (run FifoCoverage.write c (b.items ds)).hits bin = c.hits bin + (n.bins ds).count bin := by
  induction ds generalizing b n c with
  | nil => rfl
  | cons d ds ih =>
    rw [items, run_cons, ih (h.cycle d), h.hits_item, Traffic.bins, List.count_append,
      Nat.add_assoc]

end Bench.Counted

namespace Traffic

variable {data : List (BitVec 8)} {numReads : ℕ} {bin : Bin}

lemma mem_bins_of_write {i : ℕ} (hi : i < data.length) (hi8 : i ≤ 8)
    (h : bin ∈ (item ⟨i, 0⟩ ⟨true, true, 0, false⟩ 0).requestBins) :
    bin ∈ bins .zero (fifoWriteSeq data) := by
  have hdata : data = data.take i ++ data[i] :: data.drop (i + 1) := by
    rw [← List.drop_eq_getElem_cons hi, List.take_append_drop]
  have hrun : run next .zero (fifoWriteSeq (data.take i)) = ⟨i, 0⟩ := by
    refine (run_fifoWriteSeq (Nat.zero_le 8) _).trans ?_
    rw [List.length_take, Nat.min_eq_left hi.le, Nat.zero_add, Nat.min_eq_left hi8]
  apply mem_bins_of_request .zero (fifoWriteSeq (data.take i)) ⟨true, true, data[i], false⟩
    (fifoWriteSeq (data.drop (i + 1)))
  · exact (congrArg fifoWriteSeq hdata).trans List.map_append
  · rfl
  · rw [hrun]
    exact h

lemma mem_bins_of_read {j : ℕ} (hj : j < numReads) (hj8 : j ≤ 8)
    (h : bin ∈ (item ⟨8, j⟩ ⟨true, false, 0, true⟩ 0).requestBins) :
    bin ∈ bins ⟨8, 0⟩ (fifoReadSeq numReads) := by
  have hrun : run next ⟨8, 0⟩ (fifoReadSeq j) = ⟨8, j⟩ := by
    refine (run_fifoReadSeq (Nat.zero_le 8) j).trans ?_
    rw [Nat.zero_add, Nat.min_eq_left hj8]
  apply mem_bins_of_request ⟨8, 0⟩ (fifoReadSeq j) ⟨true, false, 0, true⟩
    (fifoReadSeq (numReads - (j + 1)))
  · have hlen : numReads = j + (numReads - (j + 1) + 1) := by omega
    conv_lhs => rw [hlen]
    exact List.replicate_add ..
  · rfl
  · rw [hrun]
    exact h

lemma request_hit (hbin : ∀ range, bin ≠ .wrData range) :
    (∃ i, i < 9 ∧ bin ∈ (item ⟨i, 0⟩ ⟨true, true, 0, false⟩ 0).requestBins) ∨
      ∃ j, j < 9 ∧ bin ∈ (item ⟨8, j⟩ ⟨true, false, 0, true⟩ 0).requestBins := by
  cases bin with
  | wrData range => exact absurd rfl (hbin range)
  | occupancy level => cases level <;> decide
  | writeFull wrEn full => cases wrEn <;> cases full <;> decide
  | readEmpty rdEn empty => cases rdEn <;> cases empty <;> decide
  | wrEn b => cases b <;> decide
  | rdEn b => cases b <;> decide
  | full b => cases b <;> decide
  | empty b => cases b <;> decide
  | wrWrap b => cases b <;> decide
  | rdWrap b => cases b <;> decide

lemma bins_directed (hw : 9 ≤ data.length) (hr : 9 ≤ numReads)
    (hbin : ∀ range, bin ≠ .wrData range) :
    bin ∈ bins .zero (fifoWriteSeq data ++ fifoReadSeq numReads) := by
  have hrun : run next .zero (fifoWriteSeq data) = ⟨8, 0⟩ := by
    refine (run_fifoWriteSeq (Nat.zero_le 8) data).trans ?_
    rw [Nat.zero_add, Nat.min_eq_right (by omega)]
  rw [bins_append, hrun]
  rcases request_hit hbin with ⟨i, hi, h⟩ | ⟨j, hj, h⟩
  · exact List.mem_append_left _ (mem_bins_of_write (by omega) (by omega) h)
  · exact List.mem_append_right _ (mem_bins_of_read (by omega) (by omega) h)

end Traffic

end VerilogEx.FifoBench
