import Mathlib.Tactic.Common

/-! The three processes of `run_phase` in `tb_ram_uvm`: `ram_test` sends the items of
its sequence, `ram_driver` drives one of them at each falling edge of the clock and
`ram_monitor` samples the pins one time unit after each rising edge. The order in
which the processes that can run take their turns is left open. -/

namespace VerilogEx.RamUvm.Phases

variable {α : Type*}

inductive Test (α : Type*)
  | raiseObjection (items : List α)
  | body (items : List α)
  | finishItem (items : List α)
  | dropObjection
  | done
  deriving DecidableEq

inductive Driver (α : Type*)
  | getNextItem
  | atNegedge (woken : Bool) (item : α)
  deriving DecidableEq

inductive Monitor
  | atPosedge (woken : Bool)
  | delay (woken : Bool)
  deriving DecidableEq

-- The instants of a clock period at which something happens, time 0 among the falling edges.
inductive Instant
  | falling
  | rising
  | unitLater
  deriving DecidableEq

-- `none` on the pins stands for the values the interface starts with.
structure State (α : Type*) where
  test : Test α
  driver : Driver α := .getNextItem
  monitor : Monitor := .atPosedge false
  time : Instant := .falling
  request : Option α := none
  itemDone : Bool := false
  driven : Option α := none
  pins : Option α := none
  written : List (Option α) := []
  deriving DecidableEq

inductive Act
  | tick
  | test
  | driver
  | monitor
  deriving DecidableEq

namespace State

variable (s : State α)

def testStep : Option (State α) :=
  match s.test with
  | .raiseObjection items => some { s with test := .body items }
  | .body [] => some { s with test := .dropObjection }
  | .body (i :: is) => some { s with test := .finishItem is, request := some i, itemDone := false }
  | .finishItem is => if s.itemDone then some { s with test := .body is } else none
  | .dropObjection => some { s with test := .done }
  | .done => none

def driverStep : Option (State α) :=
  match s.driver, s.request with
  | .getNextItem, none => none
  | .getNextItem, some i => some { s with driver := .atNegedge false i, request := none }
  | .atNegedge true i, _ => some { s with driver := .getNextItem, driven := some i, itemDone := true }
  | .atNegedge false _, _ => none

def monitorStep : Option (State α) :=
  match s.monitor with
  | .atPosedge true => some { s with monitor := .delay false }
  | .delay true => some { s with monitor := .atPosedge false, written := s.written ++ [s.pins] }
  | _ => none

def clockStep : Option (State α) :=
  if s.testStep.isNone && s.driverStep.isNone && s.monitorStep.isNone then
    match s.time with
    | .falling => some { s with
        time := .rising
        pins := s.driven
        monitor := match s.monitor with
          | .atPosedge _ => .atPosedge true
          | m => m }
    | .rising => some { s with
        time := .unitLater
        pins := s.driven
        monitor := match s.monitor with
          | .delay _ => .delay true
          | m => m }
    | .unitLater => some { s with
        time := .falling
        pins := s.driven
        driver := match s.driver with
          | .atNegedge _ i => .atNegedge true i
          | d => d }
  else none

def finished : Bool :=
  match s.test with
  | .done => true
  | _ => false

def step (a : Act) : Option (State α) :=
  if s.finished then none
  else match a with
    | .tick => s.clockStep
    | .test => s.testStep
    | .driver => s.driverStep
    | .monitor => s.monitorStep

def init (items : List α) : State α := { test := .raiseObjection items }

-- What the scoreboard was given, without the samples taken before the first drive.
def transactions : List (Option α) := s.written.dropWhile Option.isNone

variable {s} {t : State α}

lemma testStep_cases (h : s.testStep = some t) :
    (∃ items, s.test = .raiseObjection items ∧ t = { s with test := .body items }) ∨
    (s.test = .body [] ∧ t = { s with test := .dropObjection }) ∨
    (∃ i is, s.test = .body (i :: is) ∧
      t = { s with test := .finishItem is, request := some i, itemDone := false }) ∨
    (∃ is, s.test = .finishItem is ∧ s.itemDone = true ∧ t = { s with test := .body is }) ∨
    (s.test = .dropObjection ∧ t = { s with test := .done }) := by
  unfold testStep at h
  split at h
  case h_1 items ht => exact .inl ⟨items, ht, (Option.some.inj h).symm⟩
  case h_2 ht => exact .inr (.inl ⟨ht, (Option.some.inj h).symm⟩)
  case h_3 i is ht => exact .inr (.inr (.inl ⟨i, is, ht, (Option.some.inj h).symm⟩))
  case h_4 is ht =>
    obtain ⟨hd, h⟩ := Option.ite_none_right_eq_some.mp h
    exact .inr (.inr (.inr (.inl ⟨is, ht, hd, (Option.some.inj h).symm⟩)))
  case h_5 ht => exact .inr (.inr (.inr (.inr ⟨ht, (Option.some.inj h).symm⟩)))
  case h_6 => cases h

lemma driverStep_cases (h : s.driverStep = some t) :
    (∃ i, s.driver = .getNextItem ∧ s.request = some i ∧
      t = { s with driver := .atNegedge false i, request := none }) ∨
    (∃ i, s.driver = .atNegedge true i ∧
      t = { s with driver := .getNextItem, driven := some i, itemDone := true }) := by
  unfold driverStep at h
  split at h
  case h_1 => cases h
  case h_2 i hd hr => exact .inl ⟨i, hd, hr, (Option.some.inj h).symm⟩
  case h_3 i hd => exact .inr ⟨i, hd, (Option.some.inj h).symm⟩
  case h_4 => cases h

lemma monitorStep_cases (h : s.monitorStep = some t) :
    (s.monitor = .atPosedge true ∧ t = { s with monitor := .delay false }) ∨
    (s.monitor = .delay true ∧
      t = { s with monitor := .atPosedge false, written := s.written ++ [s.pins] }) := by
  unfold monitorStep at h
  split at h
  case h_1 hm => exact .inl ⟨hm, (Option.some.inj h).symm⟩
  case h_2 hm => exact .inr ⟨hm, (Option.some.inj h).symm⟩
  case h_3 => cases h

lemma quiet_test (hfin : s.finished = false) (h : s.testStep = none) :
    (∃ items, s.test = .finishItem items) ∧ s.itemDone = false := by
  unfold testStep at h
  split at h
  case h_4 items ht =>
    refine ⟨⟨items, ht⟩, ?_⟩
    simpa using h
  case h_6 ht => simp [finished, ht] at hfin
  all_goals cases h

lemma quiet_driver (h : s.driverStep = none) :
    (s.driver = .getNextItem ∧ s.request = none) ∨ ∃ i, s.driver = .atNegedge false i := by
  unfold driverStep at h
  split at h
  case h_1 hd hr => exact .inl ⟨hd, hr⟩
  case h_4 i hd => exact .inr ⟨i, hd⟩
  all_goals cases h

lemma quiet_monitor (h : s.monitorStep = none) :
    s.monitor = .atPosedge false ∨ s.monitor = .delay false := by
  unfold monitorStep at h
  split at h
  case h_1 | h_2 => cases h
  case h_3 hp hd =>
    cases hm : s.monitor with
    | atPosedge woken =>
      cases woken
      · exact .inl rfl
      · exact absurd hm hp
    | delay woken =>
      cases woken
      · exact .inr rfl
      · exact absurd hm hd

end State

end VerilogEx.RamUvm.Phases
