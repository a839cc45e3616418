import VerilogEx.FifoBench.Coverage
import VerilogEx.FifoBench.Phases

/-! The whole of `tb_fifo_uvm`: what `fifo_test` reports does not depend on the schedule,
except that the last item may be missing. -/

namespace VerilogEx.FifoBench

open Hdl Queues Fifo Uvm

structure FifoEnvironment where
  mon : FifoMonitor := {}
  scb : FifoScoreboard := {}
  cov : FifoCoverage := {}

namespace FifoEnvironment

def send (env : FifoEnvironment) (cb : MonCb) : FifoEnvironment :=
  let (mon, item) := env.mon.runPhase cb
  { mon, scb := env.scb.write item, cov := env.cov.write item }

end FifoEnvironment

def DrvCb.start : DrvCb := ⟨false, false, 0, false⟩

def uvmBench : Uvm.Bench DrvCb DrvCb (FifoTop .tb) MonCb where
  drive d := d
  next dut d := (dut.step (.rst d.rstN)).step (.edge d.pins)
  sample dut d := d.sample (dut.step (.rst d.rstN))

def monCbs (dut : FifoTop .tb) (ds : List DrvCb) : List MonCb := uvmBench.samples dut ds

lemma observed_driven (dut : FifoTop .tb) (d : DrvCb) (ts : List (Option DrvCb)) :
    uvmBench.observed (d, dut) ts = monCbs dut (held d ts) := by
  apply (uvmBench.observed_driven d dut ts).trans
  exact congrArg (monCbs dut) (List.map_id _)

lemma run_send (b : Bench) (cov : FifoCoverage) (ds : List DrvCb) :
    run FifoEnvironment.send ⟨b.mon, b.scb, cov⟩ (monCbs b.dut ds) =
      { mon := (run Bench.cycle b ds).mon
        scb := (run Bench.cycle b ds).scb
        cov := run FifoCoverage.write cov (b.items ds) } := by
  induction ds generalizing b cov with
  | nil => rfl
  | cons d ds ih => exact ih (b.cycle d) (cov.write (b.item d))

namespace FifoTest

def runPhase (data : List (BitVec 8)) (numReads : ℕ) (requests : List Request) :
    List (Uvm.Stmt DrvCb) :=
  Phases.runPhase (fifoWriteSeq data) (fifoReadSeq numReads) (fifoRandomSeq requests)

variable {data : List (BitVec 8)} {numReads : ℕ} {requests : List Request}
  {dut : FifoTop .tb} {acts : List Act} {s : State DrvCb DrvCb (FifoTop .tb) MonCb}

def heard (acts : List Act) (data : List (BitVec 8)) (numReads : ℕ) (requests : List Request) :
    List DrvCb :=
  fifoWriteSeq data ++ fifoReadSeq numReads ++ fifoRandomSeq (State.passedOn acts requests)

lemma written_finished (hne : requests ≠ [])
    (h : schedule (State.step uvmBench)
      (State.init (runPhase data numReads requests) .start dut) acts = some s)
    (hfin : s.finished = true) :
    s.written = monCbs dut (.start :: heard acts data numReads requests) := by
  have hlast : fifoRandomSeq requests ≠ [] := by simpa [fifoRandomSeq] using hne
  have hheld : held .start (ticks (runPhase data numReads requests)) =
      .start :: (fifoWriteSeq data ++ fifoReadSeq numReads) ++ fifoRandomSeq requests := by
    rw [runPhase, Phases.ticks_runPhase, held_items_wait]
    rfl
  rw [(State.outcome h hfin).2.2, observed_driven, hheld, monCbs, State.passedOn_samples,
    State.passedOn_append _ _ hlast, fifoRandomSeq, ← State.passedOn_map]
  rfl

def started (dut : FifoTop .tb) : Bench := Bench.cycle { dut } .start

lemma counted_started (dut : FifoTop .tb) : (started dut).Counted .zero :=
  Bench.Counted.cycle_low (n := .zero) { dut } rfl rfl

lemma report (hne : requests ≠ [])
    (h : schedule (State.step uvmBench)
      (State.init (runPhase data numReads requests) .start dut) acts = some s)
    (hfin : s.finished = true) : run FifoEnvironment.send {} s.written =
      { mon := (run Bench.cycle (started dut) (heard acts data numReads requests)).mon
        scb := (run Bench.cycle (started dut) (heard acts data numReads requests)).scb
        cov := run FifoCoverage.write {} ((started dut).items (heard acts data numReads requests)) } := by
  rw [written_finished hne h hfin]
  exact run_send { dut } {} (.start :: heard acts data numReads requests)

lemma tally_heard (acts : List Act) (data : List (BitVec 8)) (numReads : ℕ)
    (requests : List Request) :
    tally Traffic.skipped Traffic.next .zero (heard acts data numReads requests) =
      data.length - 8 + (numReads - min data.length 8) +
        tally Request.refused Request.accepted
          ⟨min data.length 8, min numReads (min data.length 8)⟩ (State.passedOn acts requests) := by
  have hw := Traffic.run_fifoWriteSeq (Nat.zero_le 8) data
  have hr := Traffic.run_fifoReadSeq (Nat.zero_le (min data.length 8)) numReads
  have htw := Traffic.tally_fifoWriteSeq (Nat.zero_le 8) data
  have htr := Traffic.tally_fifoReadSeq (Nat.zero_le (min data.length 8)) numReads
  rw [Nat.zero_add] at hw hr htw htr
  have hzero : Counts.zero = ⟨0, 0⟩ := rfl
  rw [heard, hzero, tally_append, tally_append, run_append, hw, hr, htw, htr,
    Traffic.tally_fifoRandomSeq]

lemma exists_heard (acts : List Act) (data : List (BitVec 8)) (numReads : ℕ)
    (requests : List Request) (range : DataRange) :
    (∃ d ∈ heard acts data numReads requests,
        d.rstN = true ∧ d.wrEn = true ∧ DataRange.of d.wrData = range) ↔
      (∃ v ∈ data, DataRange.of v = range) ∨
        ∃ r ∈ State.passedOn acts requests, r.wrEn = true ∧ DataRange.of r.wrData = range := by
  constructor
  · rintro ⟨d, hd, -, hw, hrange⟩
    rcases List.mem_append.mp hd with hd | hd
    · rcases List.mem_append.mp hd with hd | hd
      · obtain ⟨v, hv, rfl⟩ := List.mem_map.mp hd
        exact .inl ⟨v, hv, hrange⟩
      · rw [List.eq_of_mem_replicate hd] at hw
        cases hw
    · obtain ⟨r, hr, rfl⟩ := List.mem_map.mp hd
      exact .inr ⟨r, hr, hw, hrange⟩
  · rintro (⟨v, hv, hrange⟩ | ⟨r, hr, hw, hrange⟩)
    · have hmem := List.mem_map_of_mem (f := fun v => DrvCb.mk true true v false) hv
      exact ⟨_, List.mem_append_left _ (List.mem_append_left _ hmem), rfl, rfl, hrange⟩
    · have hmem := List.mem_map_of_mem (f := fun r => DrvCb.mk true r.wrEn r.wrData r.rdEn) hr
      exact ⟨_, List.mem_append_right _ hmem, rfl, hw, hrange⟩

theorem test_report (dut : FifoTop .tb) (data : List (BitVec 8)) (numReads : ℕ)
    (requests : List Request) (hne : requests ≠ []) (acts : List Act)
    (s : State DrvCb DrvCb (FifoTop .tb) MonCb)
    (h : schedule (State.step uvmBench)
      (State.init (runPhase data numReads requests) .start dut) acts = some s)
    (hfin : s.finished = true) :
    let scb := (run FifoEnvironment.send {} s.written).scb
    let last := State.passedOn acts requests
    let rejected := data.length - 8 + (numReads - min data.length 8) +
      tally Request.refused Request.accepted
        ⟨min data.length 8, min numReads (min data.length 8)⟩ last
    scb.failCnt = 0 ∧ scb.skipCnt = .ofNat 32 (1 + rejected) ∧
      scb.passCnt = .ofNat 32 (data.length + numReads + last.length - rejected) := by
  have hc := counted_started dut
  have hlen : (heard acts data numReads requests).length =
      data.length + numReads + (State.passedOn acts requests).length := by
    simp [heard, fifoWriteSeq, fifoReadSeq, fifoRandomSeq, Nat.add_assoc]
  rw [report hne h hfin]
  refine ⟨?_, ?_, ?_⟩
  · exact (run_invariant hc.lockstep (fun _ d h => h.cycle d) _).failCnt
  · have hskip := hc.run_skipCnt (heard acts data numReads requests)
    rw [tally_heard] at hskip
    rw [BitVec.ofNat_add]
    exact hskip
  · have hpass := hc.run_passCnt (heard acts data numReads requests)
    rw [Traffic.tally_passed, tally_heard, hlen] at hpass
    exact hpass.trans (BitVec.zero_add _)

def ninePatterns : List (BitVec 8) := [0, 84, 85, 169, 170, 255, 1, 2, 3]

theorem test_report_unknown : ∃ acts s,
    schedule (State.step uvmBench)
      (State.init (runPhase ninePatterns 9 [⟨true, true, 7⟩]) .start ⟨⟨.x, 5, 3⟩, fun _ => .allX⟩)
        acts = some s ∧
      s.finished = true ∧ (run FifoEnvironment.send {} s.written).scb.failCnt = 0 := by
  have hstart : schedule (State.step uvmBench) (State.init (runPhase ninePatterns 9
    [⟨true, true, 7⟩]) .start ⟨⟨.x, 5, 3⟩, fun _ => .allX⟩) [] = some _ := rfl
  obtain ⟨acts, s, h, hfin⟩ := State.can_finish hstart
  exact ⟨acts, s, h, hfin, (test_report _ _ _ _ (by simp) acts s h hfin).1⟩

theorem coverage_closed (dut : FifoTop .tb) (data : List (BitVec 8)) (numReads : ℕ)
    (requests : List Request) (hdata : 9 ≤ data.length) (hreads : 9 ≤ numReads)
    (hne : requests ≠ []) (acts : List Act) (s : State DrvCb DrvCb (FifoTop .tb) MonCb)
    (h : schedule (State.step uvmBench)
      (State.init (runPhase data numReads requests) .start dut) acts = some s)
    (hfin : s.finished = true) (bin : Bin) :
    0 < (run FifoEnvironment.send {} s.written).cov.hits bin ↔ ∀ range, bin = .wrData range →
      (∃ v ∈ data, DataRange.of v = range) ∨
        ∃ r ∈ State.passedOn acts requests, r.wrEn = true ∧ DataRange.of r.wrData = range := by
  rw [report hne h hfin, (counted_started dut).hits_items, Nat.zero_add, List.count_pos_iff]
  by_cases hbin : ∃ range, bin = .wrData range
  · obtain ⟨range, rfl⟩ := hbin
    rw [Traffic.mem_bins_of_data, exists_heard]
    exact ⟨fun hex _ hr => Bin.wrData.inj hr ▸ hex, fun hall => hall range rfl⟩
  · refine iff_of_true ?_ fun range hr => absurd ⟨range, hr⟩ hbin
    rw [heard, Traffic.bins_append]
    apply List.mem_append_left
    exact Traffic.bins_directed hdata hreads fun range hr => hbin ⟨range, hr⟩

theorem coverage_closed_wrap : ∃ acts s,
    schedule (State.step uvmBench)
      (State.init (runPhase ninePatterns 9 [⟨true, true, 7⟩]) .start ⟨⟨.x, 5, 3⟩, fun _ => .allX⟩)
        acts = some s ∧
      s.finished = true ∧ 0 < (run FifoEnvironment.send {} s.written).cov.hits (.rdWrap true) := by
  have hstart : schedule (State.step uvmBench) (State.init (runPhase ninePatterns 9
    [⟨true, true, 7⟩]) .start ⟨⟨.x, 5, 3⟩, fun _ => .allX⟩) [] = some _ := rfl
  obtain ⟨acts, s, h, hfin⟩ := State.can_finish hstart
  refine ⟨acts, s, h, hfin, (coverage_closed _ _ _ _ (by decide) (by decide) (by simp) acts s h hfin
    (.rdWrap true)).mpr ?_⟩
  intro range hr
  cases hr

theorem bench_follows_processes (dut : FifoTop .tb) (data : List (BitVec 8)) (numReads : ℕ)
    (requests : List Request) (acts : List Act) :
    schedule (State.step uvmBench) (State.init (runPhase data numReads requests) .start dut) acts =
      (schedule (State.step .bare) (Phases.State.init (fifoWriteSeq data) (fifoReadSeq numReads)
        (fifoRandomSeq requests)) acts).map (State.filled uvmBench .start dut) ∧
    ∀ s : Phases.State DrvCb, (s.filled uvmBench .start dut).finished = s.finished ∧
      (run FifoEnvironment.send {} (s.filled uvmBench .start dut).written).scb =
        (run Bench.cycle { dut } (s.written.map (·.getD .start))).scb := by
  refine ⟨State.schedule_filled uvmBench .start dut _ acts, fun s => ⟨rfl, ?_⟩⟩
  have hshown : State.shown uvmBench .start = (·.getD .start) := by
    funext o
    cases o <;> rfl
  rw [State.filled, hshown]
  exact congrArg FifoEnvironment.scb (run_send { dut } {} (s.written.map (·.getD .start)))

end FifoTest

end VerilogEx.FifoBench
