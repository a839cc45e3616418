import VerilogEx.AdderUvm.Scoreboard
import VerilogEx.Uvm.Progress

/-! The whole of `tb_adder_uvm`: `adder_test` ends with its last item, whose sum is
therefore never checked. -/

namespace VerilogEx.AdderUvm

open Hdl Uvm

structure AdderIf where
  a : Vec 8
  b : Vec 8
  deriving DecidableEq

-- The driver clears the pins before the first item.
def AdderIf.cleared : AdderIf := ⟨.ofBits 0, .ofBits 0⟩

def bench : Bench SeqItem AdderIf Unit SeqItem where
  drive item := ⟨.ofBits item.a, .ofBits item.b⟩
  next _ _ := ()
  sample _ pins := ⟨pins.a.toBits, pins.b.toBits, adder pins.a pins.b⟩

namespace AdderTest

def runPhase (items : List SeqItem) : List (Stmt SeqItem) :=
  [.raiseObjection, .start items, .dropObjection]

def summed (item : SeqItem) : SeqItem :=
  ⟨item.a, item.b, .ofBits (item.a.setWidth 9 + item.b.setWidth 9)⟩

lemma sample_drive (item : SeqItem) : bench.sample () (bench.drive item) = summed item := by
  simp [bench, summed, adder]

lemma right_summed (item : SeqItem) : (summed item).Right := by
  refine ⟨Vec.known_ofBits _, ?_⟩
  rw [summed, Vec.toBits_ofBits, BitVec.toNat_add_of_lt] <;> simp <;> omega

lemma samples_drive (items : List SeqItem) :
    bench.samples () (items.map bench.drive) = items.map summed := by
  induction items with
  | nil => rfl
  | cons item items ih =>
    rw [List.map_cons, List.map_cons, ← sample_drive]
    exact congrArg (_ :: ·) ih

lemma observed_driven (item : SeqItem) (ts : List (Option SeqItem)) :
    bench.observed (bench.drive item, ()) ts = (held item ts).map summed := by
  rw [bench.observed_driven, samples_drive]

lemma ticks_runPhase (items : List SeqItem) : ticks (runPhase items) = items.map some := by
  simp [runPhase, ticks]

-- The pins before the first item are those of an item of two zeros.
lemma observed_runPhase (items : List SeqItem) :
    bench.observed (.cleared, ()) (ticks (runPhase items)) =
      (⟨0, 0, .allX⟩ :: items).dropLast.map summed := by
  have hdriven := observed_driven ⟨0, 0, .allX⟩ (items.map some)
  rw [held_items] at hdriven
  rw [ticks_runPhase]
  exact hdriven

lemma cost_runPhase (items : List SeqItem) : programCost (runPhase items) = 6 * items.length + 3 := by
  simp [runPhase, Stmt.cost, programCost]
  omega

section

variable {items : List SeqItem} {last : SeqItem} {acts : List Act}
  {s : State SeqItem AdderIf Unit SeqItem}

lemma written_finished
    (h : schedule (State.step bench) (State.init (runPhase (items ++ [last])) .cleared ()) acts = some s)
    (hfin : s.finished = true) :
    s.written = State.passedOn acts ((⟨0, 0, .allX⟩ :: items).map summed) := by
  rw [(State.outcome h hfin).2.2, observed_runPhase, ← List.cons_append, List.dropLast_concat]

lemma right_passedOn (acts : List Act) (samples : List SeqItem) :
    Along rightAt AdderScoreboard.write {} (State.passedOn acts (samples.map summed)) := by
  rw [along_rightAt]
  intro data hd
  obtain ⟨item, -, rfl⟩ := List.mem_map.mp ((State.passedOn_prefix acts _).subset hd)
  exact right_summed item

end

theorem last_unchecked (items : List SeqItem) (last : SeqItem) (acts : List Act)
    (s : State SeqItem AdderIf Unit SeqItem)
    (h : schedule (State.step bench) (State.init (runPhase (items ++ [last])) .cleared ()) acts = some s) :
    acts.length ≤ 6 * items.length + 9 ∧
      (∃ more t, schedule (State.step bench) (State.init (runPhase (items ++ [last])) .cleared ())
        (acts ++ more) = some t ∧ t.finished = true) ∧
      (s.finished = true →
        let scb := run AdderScoreboard.write {} s.written
        s.written = State.passedOn acts ((⟨0, 0, .allX⟩ :: items).map summed) ∧
          acts.count .posedge = items.length + 1 ∧ scb.failCnt = 0 ∧
          scb.passCnt = .ofNat 32 (items.length + if .monitor ∈ State.sinceEdge acts then 1 else 0)) := by
  have hcost := State.length_add_cost h
  rw [cost_runPhase, List.length_append, List.length_singleton] at hcost
  refine ⟨by omega, State.can_finish h, fun hfin => ?_⟩
  have hwritten := written_finished h hfin
  have hright := right_passedOn acts (⟨0, 0, .allX⟩ :: items)
  rw [← hwritten] at hright
  have hfail := fails_run_of_along AdderScoreboard.failCnt failCnt_right hright
  refine ⟨hwritten, ?_, hfail, ?_⟩
  · rw [(State.outcome h hfin).1, ticks_runPhase]
    simp
  · have hcounts := counts_run {} s.written
    have hlen : s.written.length =
        items.length + if .monitor ∈ State.sinceEdge acts then 1 else 0 := by
      rw [hwritten, State.passedOn]
      split_ifs <;> simp
    rw [hfail, hlen] at hcounts
    simpa using hcounts

def overflowing : List SeqItem := [⟨255, 255, .allX⟩] ++ [⟨1, 2, .allX⟩]

theorem last_unchecked_overflow :
    ∃ acts s, schedule (State.step bench) (State.init (runPhase overflowing) .cleared ()) acts =
        some s ∧ s.finished = true ∧
      s.written = State.passedOn acts [⟨0, 0, .ofBits 0⟩, ⟨255, 255, .ofBits 510⟩] ∧
      acts.count .posedge = 2 ∧ (run AdderScoreboard.write {} s.written).failCnt = 0 := by
  have hstart : schedule (State.step bench)
      (State.init (runPhase overflowing) .cleared ()) [] = some _ := rfl
  obtain ⟨acts, s, h, hfin⟩ := State.can_finish hstart
  obtain ⟨-, -, hend⟩ := last_unchecked [⟨255, 255, .allX⟩] ⟨1, 2, .allX⟩ acts s h
  obtain ⟨hwritten, hedges, hfail, -⟩ := hend hfin
  exact ⟨acts, s, h, hfin, hwritten, hedges, hfail⟩

end AdderTest

end VerilogEx.AdderUvm
