import VerilogEx.FifoBench.Lockstep
import VerilogEx.Hdl.Verdicts

/-! What the bench makes of the requests it drives: the numbers of words accepted since
reset determine the flags, the level and the wraps the monitor reports, and so the verdict
of the scoreboard. -/

namespace VerilogEx.FifoBench

open Hdl Queues Fifo

abbrev Traffic := Counts

namespace Traffic

variable (n : Traffic) (d : DrvCb)

def full : Bool := n.writes == n.reads + FifoScoreboard.depth

def empty : Bool := n.writes == n.reads

def wrValid : Bool := d.wrEn && !n.full

def rdValid : Bool := d.rdEn && !n.empty

def next : Traffic :=
  if d.rstN then ⟨n.writes + (n.wrValid d).toNat, n.reads + (n.rdValid d).toNat⟩ else .zero

def skipped : Bool := !d.rstN || (d.rdEn && n.empty) || (d.wrEn && n.full)

def passed : Bool := !n.skipped d

def item (rdData : BitVec 8) : FifoSeqItem where
  wrEn := d.wrEn
  rdEn := d.rdEn
  wrData := d.wrData
  rstN := d.rstN
  rdData := rdData
  full := n.full
  empty := n.empty
  occupancy := .ofNat 4 ((n.next d).writes - (n.next d).reads)
  wrWrap := n.wrValid d && n.writes % 8 == 7
  rdWrap := n.rdValid d && n.reads % 8 == 7

end Traffic

namespace FifoScoreboard

variable (b : FifoScoreboard) (item : FifoSeqItem)

def isSkip : Bool := !item.rstN || (item.rdEn && b.expEmpty) || (item.wrEn && b.expFull)

lemma isSkip_high (h : item.rstN = true) :
    b.isSkip item = ((item.rdEn && b.expEmpty) || (item.wrEn && b.expFull)) := by
  simp [isSkip, h]

lemma skipCnt_write (h : item.rstN = true → b.isFail item = false) :
    (b.write item).skipCnt = b.skipCnt + if b.isSkip item then 1 else 0 := by
  cases hr : item.rstN
  · simp [write, isSkip, hr]
  · rw [isSkip_high b item hr]
    simp only [write, hr, h hr, Bool.not_true, Bool.false_eq_true, if_false]
    split_ifs
    · rfl
    · exact (BitVec.add_zero _).symm

lemma passCnt_write (h : item.rstN = true → b.isFail item = false) :
    (b.write item).passCnt = b.passCnt + if !b.isSkip item then 1 else 0 := by
  cases hr : item.rstN
  · simp [write, isSkip, hr]
  · rw [isSkip_high b item hr]
    simp only [write, hr, h hr, Bool.not_true, Bool.false_eq_true, if_false]
    cases (item.rdEn && b.expEmpty) || (item.wrEn && b.expFull)
    · rfl
    · exact (BitVec.add_zero _).symm

lemma length_nextQ : (b.nextQ item).length + (item.rdEn && !b.expEmpty).toNat =
    b.modelQ.length + (item.wrEn && !b.expFull).toNat := by
  cases hq : b.modelQ with
  | nil =>
    have hempty : b.expEmpty = true := by simp [expEmpty, hq]
    rw [nextQ, hempty, hq]
    cases item.rdEn <;> cases item.wrEn <;> cases b.expFull <;> simp
  | cons v vs =>
    have hempty : b.expEmpty = false := by simp [expEmpty, hq]
    rw [nextQ, hempty, hq]
    cases item.rdEn <;> cases item.wrEn <;> cases b.expFull <;> simp

end FifoScoreboard

namespace Bench

variable {b : Bench} {n : Traffic} {d : DrvCb}

lemma Lockstep.observed_flags (h : b.Lockstep) (hd : d.rstN = true) :
    (b.observed d).full = b.scb.expFull ∧ (b.observed d).empty = b.scb.expEmpty := by
  have hf := h.not_isFail hd
  simp only [FifoScoreboard.isFail, Bool.or_eq_false_iff, Bool.not_eq_false', Bool.and_eq_true,
    beq_iff_eq] at hf
  exact hf.1

variable (b n) in
structure Counted : Prop where
  lockstep : b.Lockstep
  wrCount : b.mon.wrCount = .ofNat 32 n.writes
  rdCount : b.mon.rdCount = .ofNat 32 n.reads
  total : n.writes = n.reads + b.scb.modelQ.length

namespace Counted

lemma expFull (h : b.Counted n) : b.scb.expFull = n.full := by
  have ht := h.total
  rw [FifoScoreboard.expFull, Traffic.full, Bool.eq_iff_iff, beq_iff_eq, beq_iff_eq]
  omega

lemma expEmpty (h : b.Counted n) : b.scb.expEmpty = n.empty := by
  have ht := h.total
  rw [FifoScoreboard.expEmpty, Traffic.empty, Bool.eq_iff_iff, beq_iff_eq, beq_iff_eq]
  omega

lemma isSkip (h : b.Counted n) (d : DrvCb) : b.scb.isSkip (b.observed d) = n.skipped d := by
  rw [FifoScoreboard.isSkip, h.expEmpty, h.expFull, observed_rstN, observed_rdEn, observed_wrEn,
    Traffic.skipped]

lemma wrValid (h : b.Counted n) (hd : d.rstN = true) : b.wrValid d = n.wrValid d := by
  rw [← observed_wrValid, (h.lockstep.observed_flags hd).1, h.expFull, observed_wrEn,
    Traffic.wrValid]

lemma rdValid (h : b.Counted n) (hd : d.rstN = true) : b.rdValid d = n.rdValid d := by
  rw [← observed_rdValid, (h.lockstep.observed_flags hd).2, h.expEmpty, observed_rdEn,
    Traffic.rdValid]

lemma advance_ofNat (valid : Bool) (k : ℕ) :
    FifoMonitor.advance valid (.ofNat 32 k) = .ofNat 32 (k + valid.toNat) :=
  (FifoCtrl.ofNat_add_toNat k valid).symm

lemma wraps_ofNat (valid : Bool) (k : ℕ) :
    FifoMonitor.wraps valid (.ofNat 32 k) = (valid && k % 8 == 7) := by
  have hmod : BitVec.ofNat 32 k % BitVec.ofNat 32 8 = BitVec.ofNat 32 7 ↔ k % 8 = 7 := by
    rw [← BitVec.toNat_inj, BitVec.toNat_umod, BitVec.toNat_ofNat, BitVec.toNat_ofNat,
      BitVec.toNat_ofNat]
    change k % 2 ^ 32 % 8 = 7 ↔ k % 8 = 7
    rw [Nat.mod_mod_of_dvd k (by decide : 8 ∣ 2 ^ 32)]
  rw [FifoMonitor.wraps, Bool.eq_iff_iff]
  simp only [FifoMonitor.depth, Bool.and_eq_true, beq_iff_eq]
  exact and_congr_right fun _ => hmod

lemma cycle_low (b : Bench) (hd : d.rstN = false) (hf : b.scb.failCnt = 0) :
    (b.cycle d).Counted (n.next d) := by
  have hm := (b.monitor_low d hd).1
  have hnext : n.next d = .zero := by simp [Traffic.next, hd]
  have hq : (b.cycle d).scb.modelQ = [] := by
    rw [scb_cycle, FifoScoreboard.write_reset _ _ ((b.observed_rstN d).trans hd)]
  rw [hnext]
  refine ⟨b.lockstep_low d hd hf, ?_, ?_, ?_⟩
  · rw [hm]
    rfl
  · rw [hm]
    rfl
  · rw [hq]
    rfl

lemma cycle (h : b.Counted n) (d : DrvCb) : (b.cycle d).Counted (n.next d) := by
  cases hd : d.rstN
  · exact cycle_low b hd h.lockstep.failCnt
  · have hm := (monitor_high (b := b) hd).1
    have hnext : n.next d =
        ⟨n.writes + (n.wrValid d).toNat, n.reads + (n.rdValid d).toNat⟩ := by
      simp [Traffic.next, hd]
    rw [h.wrValid hd, h.rdValid hd, h.wrCount, h.rdCount, advance_ofNat, advance_ofNat] at hm
    refine ⟨h.lockstep.cycle d, ?_, ?_, ?_⟩
    · rw [hm, hnext]
    · rw [hm, hnext]
    · have hlen := b.scb.length_nextQ (b.observed d)
      rw [h.expEmpty, h.expFull, observed_rdEn, observed_wrEn] at hlen
      have ht := h.total
      rw [scb_cycle, FifoScoreboard.modelQ_write _ _ ((b.observed_rstN d).trans hd), hnext]
      simp only [Traffic.wrValid, Traffic.rdValid]
      omega

lemma item_eq (h : b.Counted n) (hd : d.rstN = true) : b.item d = n.item d (b.item d).rdData := by
  obtain ⟨-, hww, hrw, -⟩ := monitor_high (b := b) hd
  obtain ⟨hfull, hempty⟩ := h.lockstep.observed_flags hd
  have hocc : (b.item d).occupancy = .ofNat 4 ((n.next d).writes - (n.next d).reads) := by
    have ht := (h.cycle d).total
    have hsize := (h.lockstep.inStep d).size
    have hofNat : (b.item d).occupancy = .ofNat 4 (b.item d).occupancy.toNat := by simp
    rw [hofNat, hsize]
    congr 1
    omega
  rw [h.wrCount, wraps_ofNat, h.wrValid hd] at hww
  rw [h.rdCount, wraps_ofNat, h.rdValid hd] at hrw
  have hitem : b.item d = { b.observed d with
      occupancy := (b.item d).occupancy
      wrWrap := (b.item d).wrWrap
      rdWrap := (b.item d).rdWrap } := by
    unfold item FifoMonitor.runPhase
    dsimp only
    split <;> rfl
  rw [hocc, hww, hrw] at hitem
  have hdata : (b.item d).rdData = (b.observed d).rdData := by rw [hitem]
  rw [hdata, hitem, Traffic.item]
  simp only [observed_wrEn, observed_rdEn, observed_wrData, observed_rstN, hfull, hempty,
    h.expFull, h.expEmpty]

lemma not_isFail (h : b.Counted n) (d : DrvCb) : (b.observed d).rstN = true →
    b.scb.isFail (b.observed d) = false :=
  fun hr => h.lockstep.not_isFail ((b.observed_rstN d).symm.trans hr)

lemma run_skipCnt (h : b.Counted n) (ds : List DrvCb) : (run Bench.cycle b ds).scb.skipCnt =
    b.scb.skipCnt + .ofNat 32 (tally Traffic.skipped Traffic.next n ds) := by
  refine count_run_of_simulation (fun b : Bench => b.scb.skipCnt) Traffic.skipped
    (fun _ _ d h => h.cycle d) (fun b n d h => ?_) h ds
  rw [scb_cycle, FifoScoreboard.skipCnt_write _ _ (h.not_isFail d), h.isSkip]

lemma run_passCnt (h : b.Counted n) (ds : List DrvCb) : (run Bench.cycle b ds).scb.passCnt =
    b.scb.passCnt + .ofNat 32 (tally Traffic.passed Traffic.next n ds) := by
  refine count_run_of_simulation (fun b : Bench => b.scb.passCnt) Traffic.passed
    (fun _ _ d h => h.cycle d) (fun b n d h => ?_) h ds
  rw [scb_cycle, FifoScoreboard.passCnt_write _ _ (h.not_isFail d), h.isSkip]
  rfl

end Counted

end Bench

end VerilogEx.FifoBench
