import VerilogEx.CounterUvm.Scoreboard
import VerilogEx.Uvm.Progress

/-! The whole of `tb_counter_uvm`: `counter_test` waits for two clock edges after its last
item, so that no item is lost, and the verdicts do not depend on which process runs first. -/

namespace VerilogEx.CounterUvm

open Hdl Uvm

structure CounterIf where
  rstN : Logic
  enable : Logic
  deriving DecidableEq

-- Before the first item the pins have never been driven.
def CounterIf.undriven : CounterIf := ⟨.x, .x⟩

def counterResetSequence : List Pins := List.replicate 5 ⟨false, true⟩

def counterSequence (enables : List Bool) : List Pins :=
  List.replicate 3 ⟨false, false⟩ ++ enables.map fun enable => ⟨true, enable⟩

def bench : Bench Pins CounterIf Counter CounterSeqItem where
  drive item := ⟨.ofBool item.rstN, .ofBool item.enable⟩
  next c pins := c.step pins.rstN pins.enable
  sample c pins := .ofPins pins.rstN pins.enable c.counter c.oTick

namespace CounterTest

def runPhase (enables : List Bool) : List (Stmt Pins) :=
  [.raiseObjection, .start counterResetSequence, .dropObjection,
    .raiseObjection, .start (counterSequence enables), .posedge, .posedge, .dropObjection]

def items (enables : List Bool) : List Pins := counterResetSequence ++ counterSequence enables

lemma ticks_runPhase (enables : List Bool) :
    ticks (runPhase enables) = (items enables).map some ++ [none, none] := by
  simp [runPhase, ticks, items]

lemma samples_eq (c : Counter) (ps : List Pins) :
    bench.samples c (ps.map bench.drive) = samples c ps := by
  induction ps generalizing c with
  | nil => rfl
  | cons p ps ih => exact congrArg (_ :: ·) (ih (c.edge p))

lemma observed_driven (c : Counter) (p : Pins) (ts : List (Option Pins)) :
    bench.observed (bench.drive p, c) ts = samples c (held p ts) := by
  rw [bench.observed_driven, samples_eq]

def firstSample (c : Counter) : CounterSeqItem := .ofPins .x .x c.counter c.oTick

def allSamples (c : Counter) (enables : List Bool) : List CounterSeqItem :=
  firstSample c ::
    samples (c.step .x .x) (items enables ++ [(items enables).getLastD ⟨false, true⟩])

lemma observed_runPhase (c : Counter) (enables : List Bool) :
    bench.observed (.undriven, c) (ticks (runPhase enables)) = allSamples c enables := by
  have hitems : items enables = ⟨false, true⟩ :: (items enables).tail := rfl
  rw [ticks_runPhase, allSamples, hitems, List.getLastD_cons]
  have hdriven := observed_driven (c.step .x .x) ⟨false, true⟩
    ((items enables).tail.map some ++ [none, none])
  rw [held_items_wait_twice] at hdriven
  exact congrArg (firstSample c :: ·) hdriven

lemma map_pins_samples (c : Counter) (ps : List Pins) :
    (samples c ps).map CounterSeqItem.pins = ps := by
  induction ps generalizing c with
  | nil => rfl
  | cons p ps ih => rw [samples, List.map_cons, pins_ofPins, ih]

lemma right_allSamples (c : Counter) (enables : List Bool) : RightTrace (allSamples c enables) := by
  rw [rightTrace_iff]
  refine ⟨nofun, nofun, right_samples ?_ _⟩
  exact Counter.counts_reset _ [⟨false, false⟩] rfl

section

variable {c : Counter} {enables : List Bool} {acts : List Act}
  {s : State Pins CounterIf Counter CounterSeqItem}

lemma map_pins_allSamples (c : Counter) (hne : enables ≠ []) : (allSamples c enables).map
    CounterSeqItem.pins = ⟨false, false⟩ :: items enables ++ [⟨true, enables.getLast hne⟩] := by
  have hlast : (items enables).getLastD ⟨false, true⟩ = ⟨true, enables.getLast hne⟩ := by
    obtain ⟨es, e, rfl⟩ := (List.eq_nil_or_concat' enables).resolve_left hne
    have hsplit : items (es ++ [e]) = items es ++ [⟨true, e⟩] := by simp [items, counterSequence]
    rw [hsplit, List.getLastD_concat, List.getLast_concat]
  rw [allSamples, List.map_cons, map_pins_samples, hlast]
  rfl

lemma delivered (hne : enables ≠ [])
    (h : schedule (State.step bench) (State.init (runPhase enables) .undriven c) acts = some s)
    (hfin : s.finished = true) : s.written.map CounterSeqItem.pins =
      ⟨false, false⟩ :: items enables ++
        if .monitor ∈ State.sinceEdge acts then [⟨true, enables.getLast hne⟩] else [] := by
  rw [(State.outcome h hfin).2.2, State.passedOn_map, observed_runPhase, map_pins_allSamples c hne,
    State.passedOn_snoc]

lemma passes_written
    (h : schedule (State.step bench) (State.init (runPhase enables) .undriven c) acts = some s)
    (hfin : s.finished = true) :
    Along CounterScoreboard.Passes CounterScoreboard.write {} s.written := by
  rw [(State.outcome h hfin).2.2, observed_runPhase]
  apply Along.of_prefix (State.passedOn_prefix _ _)
  exact (passes_along_iff _).mpr (right_allSamples c enables)

lemma countP_pins (f : Pins → Bool) (written : List CounterSeqItem) :
    written.countP (fun item => f item.pins) = (written.map CounterSeqItem.pins).countP f := by
  rw [List.countP_map]
  rfl

theorem test_verdict (c : Counter) (enables : List Bool) (hne : enables ≠ []) (acts : List Act)
    (s : State Pins CounterIf Counter CounterSeqItem)
    (h : schedule (State.step bench) (State.init (runPhase enables) .undriven c) acts = some s)
    (hfin : s.finished = true) :
    let again := if .monitor ∈ State.sinceEdge acts then [enables.getLast hne] else []
    let scb := run CounterScoreboard.write {} s.written
    s.written.map CounterSeqItem.pins =
        ⟨false, false⟩ :: items enables ++ again.map (fun enable => ⟨true, enable⟩) ∧
      scb.failCnt = 0 ∧ scb.skipCnt = 9 ∧
        scb.passCnt = .ofNat 32 (enables.length + again.length) := by
  have hdelivered := delivered hne h hfin
  have hpass := passes_written h hfin
  refine ⟨?_, ?_, ?_, ?_⟩
  · rw [hdelivered]
    split_ifs <;> rfl
  · exact fails_run_of_along CounterScoreboard.failCnt CounterScoreboard.failCnt_pass hpass
  · have hcount : s.written.countP (fun item => !item.rstN) = 9 := by
      apply (countP_pins (fun p => !p.rstN) s.written).trans
      rw [hdelivered]
      split_ifs <;> simp [items, counterResetSequence, counterSequence, List.countP_map]
    rw [count_run_of_along CounterScoreboard.skipCnt (fun item => !item.rstN)
      (fun b item _ => b.skipCnt_write item) hpass, hcount]
    rfl
  · have hcount : s.written.countP CounterSeqItem.rstN = enables.length +
        (if .monitor ∈ State.sinceEdge acts then [enables.getLast hne] else []).length := by
      apply (countP_pins Pins.rstN s.written).trans
      rw [hdelivered]
      split_ifs <;> simp [items, counterResetSequence, counterSequence, List.countP_map]
    rw [count_run_of_along CounterScoreboard.passCnt CounterSeqItem.rstN
      CounterScoreboard.passCnt_write hpass, hcount]
    exact BitVec.zero_add _

theorem test_verdict_unknown :
    ∃ acts s, schedule (State.step bench)
        (State.init (runPhase [true, false]) .undriven ⟨.allX, .x⟩) acts = some s ∧
      s.finished = true ∧ (run CounterScoreboard.write {} s.written).failCnt = 0 := by
  have hstart : schedule (State.step bench)
      (State.init (runPhase [true, false]) .undriven ⟨.allX, .x⟩) [] = some _ := rfl
  obtain ⟨acts, s, h, hfin⟩ := State.can_finish hstart
  exact ⟨acts, s, h, hfin, (test_verdict ⟨.allX, .x⟩ [true, false] (by simp) acts s h hfin).2.1⟩

lemma cost_runPhase (enables : List Bool) :
    programCost (runPhase enables) = 6 * enables.length + 62 := by
  simp [runPhase, Stmt.cost, counterResetSequence, counterSequence, programCost]
  omega

theorem test_ends (c : Counter) (enables : List Bool) (acts : List Act)
    (s : State Pins CounterIf Counter CounterSeqItem)
    (h : schedule (State.step bench) (State.init (runPhase enables) .undriven c) acts = some s) :
    acts.length ≤ 6 * enables.length + 62 ∧
      (∃ more t, schedule (State.step bench) (State.init (runPhase enables) .undriven c)
        (acts ++ more) = some t ∧ t.finished = true) ∧
      (s.finished = true → acts.count .posedge = enables.length + 10) := by
  have hcost := State.length_add_cost h
  rw [cost_runPhase] at hcost
  refine ⟨by omega, State.can_finish h, fun hfin => ?_⟩
  rw [(State.outcome h hfin).1, ticks_runPhase]
  simp [items, counterResetSequence, counterSequence]

theorem test_ends_undriven :
    ∃ acts s, schedule (State.step bench)
        (State.init (runPhase [true]) .undriven ⟨.allX, .x⟩) acts = some s ∧
      s.finished = true ∧ acts.length ≤ 68 ∧ acts.count .posedge = 11 := by
  have hstart : schedule (State.step bench)
      (State.init (runPhase [true]) .undriven ⟨.allX, .x⟩) [] = some _ := rfl
  obtain ⟨acts, s, h, hfin⟩ := State.can_finish hstart
  obtain ⟨hlen, -, hedges⟩ := test_ends ⟨.allX, .x⟩ [true] acts s h
  exact ⟨acts, s, h, hfin, hlen, hedges hfin⟩

end

end CounterTest

end VerilogEx.CounterUvm
