import VerilogEx.FifoBench.Components

/-! The FIFO under its bench: the pointers and the memory, the counters of the
monitor and the queue of the scoreboard describe one state after every sampled edge. -/

namespace VerilogEx.FifoBench

open Hdl Queues Fifo

structure DrvCb where
  rstN : Bool
  wrEn : Bool
  wrData : BitVec 8
  rdEn : Bool

namespace DrvCb

variable (d : DrvCb)

def pins : Pins 8 := ⟨.ofBool d.wrEn, .ofBits d.wrData, .ofBool d.rdEn⟩

def sample (s : FifoTop .tb) : MonCb where
  rstN := .ofBool d.rstN
  wrEn := .ofBool d.wrEn
  wrData := .ofBits d.wrData
  rdEn := .ofBool d.rdEn
  rdData := s.rdData
  full := s.full
  empty := s.empty

end DrvCb

structure Bench where
  dut : FifoTop .tb
  mon : FifoMonitor := {}
  scb : FifoScoreboard := {}

namespace Bench

variable (b : Bench) (d : DrvCb)

-- The pins change just after an edge, so a change of `rst_n` precedes the next edge.
def driven : FifoTop .tb := b.dut.step (.rst d.rstN)

def item : FifoSeqItem := (b.mon.runPhase (d.sample (b.driven d))).2

def cycle : Bench where
  dut := (b.driven d).step (.edge d.pins)
  mon := (b.mon.runPhase (d.sample (b.driven d))).1
  scb := b.scb.write (b.item d)

structure Lockstep : Prop where
  sound : b.dut.ctrl.Sound
  wrCount : b.mon.wrCount.setWidth 4 = b.dut.ctrl.wrPtr
  rdCount : b.mon.rdCount.setWidth 4 = b.dut.ctrl.rdPtr
  modelQ : b.scb.modelQ.map Vec.ofBits = b.dut.contents
  failCnt : b.scb.failCnt = 0

def observed : FifoSeqItem := .ofPins (d.sample (b.driven d))

lemma scb_cycle : (b.cycle d).scb = b.scb.write (b.observed d) := b.scb.write_runPhase b.mon _

@[simp] lemma observed_rstN : (b.observed d).rstN = d.rstN := Logic.isTrue_ofBool _

@[simp] lemma observed_wrEn : (b.observed d).wrEn = d.wrEn := Logic.isTrue_ofBool _

@[simp] lemma observed_rdEn : (b.observed d).rdEn = d.rdEn := Logic.isTrue_ofBool _

@[simp] lemma observed_wrData : (b.observed d).wrData = d.wrData := Vec.toBits_ofBits _

lemma cycle_low (hd : d.rstN = false) :
    (b.cycle d).dut.ctrl = { rstN := .zero, wrPtr := 0, rdPtr := 0 } := by
  have hz : (b.driven d).ctrl.rstN = .zero := by
    simp only [driven, hd, FifoTop.step, FifoCtrl.step]
    split_ifs with h
    · exact h
    · rfl
  exact (FifoTop.ctrl_step _ _).trans (FifoCtrl.step_low _ _ hz)

lemma monitor_low (hd : d.rstN = false) : (b.cycle d).mon = { wrCount := 0, rdCount := 0 } ∧
    (b.item d).occupancy = 0 := by
  have hr : (FifoSeqItem.ofPins (d.sample (b.driven d))).rstN = false := by
    rw [← hd]
    exact b.observed_rstN d
  simp [cycle, item, FifoMonitor.runPhase, hr]

lemma lockstep_low (hd : d.rstN = false) (hf : b.scb.failCnt = 0) : (b.cycle d).Lockstep := by
  have hc := b.cycle_low d hd
  have hm := (b.monitor_low d hd).1
  have hs : (b.cycle d).scb = { b.scb with modelQ := [], skipCnt := b.scb.skipCnt + 1 } := by
    rw [scb_cycle]
    exact b.scb.write_reset _ ((b.observed_rstN d).trans hd)
  refine ⟨?_, ?_, ?_, ?_, ?_⟩
  · rw [hc]
    exact ⟨Or.inl rfl, fun _ => ⟨rfl, rfl⟩, by simp⟩
  · rw [hc, hm]
    rfl
  · rw [hc, hm]
    rfl
  · rw [hs, FifoTop.contents_of_cleared _ (by rw [hc]; exact ⟨rfl, rfl⟩)]
    rfl
  · rw [hs]
    exact hf

variable {b d}

lemma Lockstep.driven (h : b.Lockstep) (hd : d.rstN = true) :
    ((b.driven d).ctrl.rstN = .one ∧ (b.driven d).ctrl.wrPtr = b.dut.ctrl.wrPtr ∧
        (b.driven d).ctrl.rdPtr = b.dut.ctrl.rdPtr) ∧
      (b.driven d).ctrl.Sound ∧ (b.driven d).contents = b.dut.contents := by
  have he : b.driven d = { b.dut with ctrl := { b.dut.ctrl with rstN := .one } } := by
    rw [Bench.driven, hd]
    rfl
  rw [he]
  exact ⟨⟨rfl, rfl, rfl⟩, ⟨Or.inr rfl, fun hz => (by cases hz), h.sound.bound⟩, rfl⟩

lemma Lockstep.length (h : b.Lockstep) : b.scb.modelQ.length = b.dut.contents.length := by
  rw [← h.modelQ, List.length_map]

lemma Lockstep.not_isFail (h : b.Lockstep) (hd : d.rstN = true) :
    b.scb.isFail (b.observed d) = false := by
  obtain ⟨_, _, hcont⟩ := h.driven hd
  have hfull : (b.observed d).full = b.scb.expFull := by
    have hiff := (b.driven d).full_iff_contents
    rw [hcont, ← h.length, ← Logic.isTrue_iff] at hiff
    rw [Bool.eq_iff_iff]
    exact hiff.trans beq_iff_eq.symm
  have hempty : (b.observed d).empty = b.scb.expEmpty := by
    have hiff := (b.driven d).empty_iff_contents
    rw [hcont, ← List.length_eq_zero_iff, ← h.length, ← Logic.isTrue_iff] at hiff
    rw [Bool.eq_iff_iff]
    exact hiff.trans beq_iff_eq.symm
  have hdata : b.scb.expEmpty = false → b.scb.modelQ.head? = some (b.observed d).rdData := by
    intro he
    cases hq : b.scb.modelQ with
    | nil => simp [FifoScoreboard.expEmpty, hq] at he
    | cons v vs =>
      have hc : (b.driven d).contents = .ofBits v :: vs.map Vec.ofBits := by
        rw [hcont, ← h.modelQ, hq, List.map_cons]
      have hne : (b.driven d).contents ≠ [] := by simp [hc]
      have hrd : (b.driven d).rdData = .ofBits v := by
        rw [FifoTop.rdData_eq_head _ hne]
        simp only [hc, List.head_cons]
      have hobs : (b.observed d).rdData = (b.driven d).rdData.toBits := rfl
      rw [hobs, hrd, List.head?_cons]
      exact congrArg some (Vec.toBits_ofBits v).symm
  rw [FifoScoreboard.isFail, hfull, hempty]
  cases he : b.scb.expEmpty
  · simp [hdata he]
  · simp

variable (b d) in
def wrValid : Bool := ((b.driven d).ctrl.wrValid d.pins.wrEn).isTrue

variable (b d) in
def rdValid : Bool := ((b.driven d).ctrl.rdValid d.pins.rdEn).isTrue

lemma observed_wrValid : ((b.observed d).wrEn && !(b.observed d).full) = b.wrValid d := by
  have hf : (b.observed d).full = (b.driven d).ctrl.full.isTrue := rfl
  rw [observed_wrEn, hf, wrValid, FifoCtrl.isTrue_wrValid, FifoCtrl.full_eq, Logic.isTrue_ofBool]
  exact congrArg (· && _) (Logic.isTrue_ofBool _).symm

lemma observed_rdValid : ((b.observed d).rdEn && !(b.observed d).empty) = b.rdValid d := by
  have he : (b.observed d).empty = (b.driven d).ctrl.empty.isTrue := rfl
  rw [observed_rdEn, he, rdValid, FifoCtrl.isTrue_rdValid, FifoCtrl.empty_eq, Logic.isTrue_ofBool]
  exact congrArg (· && _) (Logic.isTrue_ofBool _).symm

lemma monitor_high (hd : d.rstN = true) :
    (b.cycle d).mon = { wrCount := FifoMonitor.advance (b.wrValid d) b.mon.wrCount
                        rdCount := FifoMonitor.advance (b.rdValid d) b.mon.rdCount } ∧
      (b.item d).wrWrap = FifoMonitor.wraps (b.wrValid d) b.mon.wrCount ∧
      (b.item d).rdWrap = FifoMonitor.wraps (b.rdValid d) b.mon.rdCount ∧
      (b.item d).occupancy = ((b.cycle d).mon.wrCount - (b.cycle d).mon.rdCount).setWidth 4 := by
  have hr : (FifoSeqItem.ofPins (d.sample (b.driven d))).rstN = true := by
    rw [← hd]
    exact b.observed_rstN d
  rw [← observed_wrValid, ← observed_rdValid]
  simp [cycle, item, observed, FifoMonitor.runPhase, hr]

lemma Lockstep.pointers (h : b.Lockstep) (hd : d.rstN = true) :
    (b.cycle d).mon.wrCount.setWidth 4 = (b.cycle d).dut.ctrl.wrPtr ∧
      (b.cycle d).mon.rdCount.setWidth 4 = (b.cycle d).dut.ctrl.rdPtr := by
  obtain ⟨⟨ho, hw, hr⟩, _, _⟩ := h.driven hd
  have hstep : (b.cycle d).dut.ctrl = (b.driven d).ctrl.step (.edge d.pins) :=
    FifoTop.ctrl_step _ _
  rw [(monitor_high hd).1, hstep, FifoCtrl.step_high _ _ ho, FifoMonitor.setWidth_advance,
    FifoMonitor.setWidth_advance, h.wrCount, h.rdCount, ← hw, ← hr]
  exact ⟨rfl, rfl⟩

lemma Lockstep.contents_high (h : b.Lockstep) (hd : d.rstN = true) :
    (b.cycle d).scb.modelQ.map Vec.ofBits = (b.cycle d).dut.contents := by
  obtain ⟨⟨ho, _, _⟩, hs, hcont⟩ := h.driven hd
  have hlen : b.scb.modelQ.length ≤ FifoScoreboard.depth := by
    rw [h.length, FifoTop.length_contents]
    exact h.sound.bound
  have hq := b.scb.nextQ_eq (b.observed d) ⟨b.scb.modelQ, hlen⟩ rfl
  have hcyc : (b.cycle d).dut.contents = _ :=
    FifoTop.contents_edge rfl hs ho d.pins
  rw [scb_cycle, FifoScoreboard.modelQ_write _ _ ((b.observed_rstN d).trans hd), hq,
    BoundedQueue.items_cycle, hcyc, hcont, ← h.modelQ, List.map_append, List.length_map]
  congr 1
  · cases hrd : d.rdEn <;> simp [hrd, Pins.pop, DrvCb.pins]
  · cases hwr : d.wrEn
    · simp [hwr, Pins.push, DrvCb.pins]
    · simp only [hwr, Pins.push, DrvCb.pins, FifoScoreboard.depth, observed_wrEn, observed_wrData,
        Logic.isTrue_ofBool, if_true]
      split_ifs <;> rfl

lemma Lockstep.cycle (h : b.Lockstep) (d : DrvCb) : (b.cycle d).Lockstep := by
  cases hd : d.rstN
  · exact b.lockstep_low d hd h.failCnt
  · obtain ⟨_, hs, _⟩ := h.driven hd
    obtain ⟨hw, hr⟩ := h.pointers hd
    refine ⟨?_, hw, hr, h.contents_high hd, ?_⟩
    · exact (FifoTop.ctrl_step _ _).symm ▸ hs.edge d.pins
    · rw [scb_cycle, FifoScoreboard.failCnt_write _ _ ((b.observed_rstN d).trans hd),
        h.not_isFail hd]
      exact h.failCnt

variable (b d) in
structure InStep : Prop where
  modelQ : (b.cycle d).scb.modelQ.map Vec.ofBits = (b.cycle d).dut.contents
  size : (b.item d).occupancy.toNat = (b.cycle d).scb.modelQ.length
  occupancy : (b.item d).occupancy = (b.cycle d).dut.ctrl.wrPtr - (b.cycle d).dut.ctrl.rdPtr
  wrWrap : d.rstN = true → ((b.item d).wrWrap = true ↔
    b.dut.ctrl.wrPtr.getLsbD 3 ≠ (b.cycle d).dut.ctrl.wrPtr.getLsbD 3)
  rdWrap : d.rstN = true → ((b.item d).rdWrap = true ↔
    b.dut.ctrl.rdPtr.getLsbD 3 ≠ (b.cycle d).dut.ctrl.rdPtr.getLsbD 3)
  failCnt : (b.cycle d).scb.failCnt = 0
  verdict : (b.cycle d).scb.passCnt = b.scb.passCnt + 1 ∧ (b.cycle d).scb.skipCnt = b.scb.skipCnt ∨
    (b.cycle d).scb.passCnt = b.scb.passCnt ∧ (b.cycle d).scb.skipCnt = b.scb.skipCnt + 1

lemma size_of_occupancy (h : (b.cycle d).Lockstep)
    (ho : (b.item d).occupancy = (b.cycle d).dut.ctrl.wrPtr - (b.cycle d).dut.ctrl.rdPtr) :
    (b.item d).occupancy.toNat = (b.cycle d).scb.modelQ.length := by
  rw [ho, h.length, FifoTop.length_contents]
  rfl

lemma inStep_low (hd : d.rstN = false) (hf : b.scb.failCnt = 0) : b.InStep d := by
  have h := b.lockstep_low d hd hf
  have ho : (b.item d).occupancy = (b.cycle d).dut.ctrl.wrPtr - (b.cycle d).dut.ctrl.rdPtr := by
    rw [(b.monitor_low d hd).2, b.cycle_low d hd]
    rfl
  refine ⟨h.modelQ, size_of_occupancy h ho, ho, fun ht => ?_, fun ht => ?_, h.failCnt, ?_⟩
  · simp [hd] at ht
  · simp [hd] at ht
  · rw [scb_cycle]
    exact FifoScoreboard.verdict_write _ _ fun ht => by simp [hd] at ht

lemma Lockstep.inStep (h : b.Lockstep) (d : DrvCb) : b.InStep d := by
  cases hd : d.rstN
  · exact inStep_low hd h.failCnt
  · have h' := h.cycle d
    obtain ⟨hm, hww, hrw, hocc⟩ := monitor_high (b := b) hd
    have ho : (b.item d).occupancy = (b.cycle d).dut.ctrl.wrPtr - (b.cycle d).dut.ctrl.rdPtr := by
      rw [hocc, FifoMonitor.setWidth_sub, h'.wrCount, h'.rdCount]
    refine ⟨h'.modelQ, size_of_occupancy h' ho, ho, fun _ => ?_, fun _ => ?_, h'.failCnt, ?_⟩
    · rw [hww, FifoMonitor.wraps_iff, ← h'.wrCount, ← h.wrCount, hm]
    · rw [hrw, FifoMonitor.wraps_iff, ← h'.rdCount, ← h.rdCount, hm]
    · rw [scb_cycle]
      exact FifoScoreboard.verdict_write _ _ fun _ => h.not_isFail hd

lemma lockstep_run (b : Bench) (first : DrvCb) (hd : first.rstN = false)
    (hf : b.scb.failCnt = 0) (stimuli : List DrvCb) :
    (run cycle b (first :: stimuli)).Lockstep :=
  run_invariant (b.lockstep_low first hd hf) (fun _ d h => h.cycle d) stimuli

theorem bench_in_lockstep (dut : FifoTop .tb) (before : List DrvCb) (d : DrvCb)
    (h : ∀ first ∈ (before ++ [d]).head?, first.rstN = false) :
    (run cycle { dut } before).InStep d := by
  cases before with
  | nil => exact inStep_low (h d rfl) rfl
  | cons first before => exact (lockstep_run _ first (h first rfl) rfl before).inStep d

theorem bench_in_lockstep_write :
    (run cycle { dut := ⟨⟨.x, 9, 2⟩, fun _ => .allX⟩ } [⟨false, true, 7, true⟩]).InStep
      ⟨true, true, 65, true⟩ :=
  bench_in_lockstep _ [⟨false, true, 7, true⟩] ⟨true, true, 65, true⟩ (by simp)

end Bench

end VerilogEx.FifoBench
