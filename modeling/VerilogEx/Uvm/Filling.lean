import VerilogEx.Uvm.Progress

/-! The processes of a bench never look at its items: they run in the same way when the
pins hold the items themselves and there is no device. A whole bench is filled in from
such a run. -/

namespace VerilogEx.Uvm

open Hdl

variable {ι π σ ω : Type*}

namespace Bench

-- `none` on the pins stands for the values they start with.
def bare : Bench ι (Option ι) Unit (Option ι) where
  drive := some
  next _ _ := ()
  sample _ o := o

lemma samples_bare (ps : List (Option ι)) : (bare : Bench ι _ _ _).samples () ps = ps := by
  induction ps with
  | nil => rfl
  | cons p ps ih => exact congrArg (p :: ·) ih

end Bench

namespace State

section

variable (b : Bench ι π σ ω) (pins : π) (device : σ) (s : State ι (Option ι) Unit (Option ι))

def shown (o : Option ι) : π := o.elim pins b.drive

def due : List (Option ι) := s.written ++ s.sampled.toList

def filled : State ι π σ ω where
  test := s.test
  driver := s.driver
  request := s.request
  itemDone := s.itemDone
  pins := shown b pins s.pins
  device := run b.next device (s.due.map (shown b pins))
  sampled := s.sampled.map fun o =>
    b.sample (run b.next device (s.written.map (shown b pins))) (shown b pins o)
  taken := s.taken
  written := b.samples device (s.written.map (shown b pins))

lemma finished_filled : (s.filled b pins device).finished = s.finished := rfl

lemma testStep_filled :
    (s.filled b pins device).testStep = s.testStep.map (filled b pins device) := by
  obtain ⟨test, driver, request, itemDone, ps, device', sampled, taken, written⟩ := s
  cases test with
  | next rest =>
    cases rest with
    | nil => rfl
    | cons stmt rest =>
      cases stmt with
      | start items => cases items <;> rfl
      | raiseObjection => rfl
      | posedge => rfl
      | dropObjection => rfl
  | finishItem items rest => cases itemDone <;> rfl
  | atClk woken rest => cases woken <;> rfl

lemma driverStep_filled :
    (s.filled b pins device).driverStep b = (s.driverStep .bare).map (filled b pins device) := by
  obtain ⟨test, driver, request, itemDone, ps, device', sampled, taken, written⟩ := s
  cases driver with
  | getNextItem => cases request <;> rfl
  | atClk woken i => cases woken <;> rfl

lemma monitorStep_filled :
    (s.filled b pins device).monitorStep = s.monitorStep.map (filled b pins device) := by
  obtain ⟨test, driver, request, itemDone, ps, device', sampled, taken, written⟩ := s
  cases sampled with
  | none => rfl
  | some o => simp [monitorStep, filled, due, Bench.samples_snoc]

lemma clockStep_filled :
    (s.filled b pins device).clockStep b = (s.clockStep .bare).map (filled b pins device) := by
  rw [clockStep, testStep_filled, driverStep_filled, monitorStep_filled, Option.isNone_map,
    Option.isNone_map, Option.isNone_map, clockStep]
  split
  next hquiet =>
    have hnone : s.sampled = none := by
      simp only [Bool.and_eq_true] at hquiet
      simpa [monitorStep] using hquiet.2
    simp [filled, due, hnone, run_snoc, Bench.bare]
  next => rfl

lemma step_filled (a : Act) :
    (s.filled b pins device).step b a = (s.step .bare a).map (filled b pins device) := by
  unfold step
  rw [finished_filled]
  split
  · rfl
  · cases a with
    | posedge => exact clockStep_filled b pins device s
    | test => exact testStep_filled b pins device s
    | driver => exact driverStep_filled b pins device s
    | monitor => exact monitorStep_filled b pins device s

theorem schedule_filled (program : List (Stmt ι)) (acts : List Act) :
    schedule (step b) (init program pins device) acts =
      (schedule (step .bare) (init program none ()) acts).map (filled b pins device) :=
  schedule_map (step_filled b pins device) (init program none ()) acts

end

end State

end VerilogEx.Uvm
