import Mathlib.Tactic.Common

/-! Test benches around a clocked device: a test sends the items of its sequences, a
driver drives one of them at each clock edge, and a monitor samples the pins and the
device at each clock edge. The order in which the processes woken by one edge run is
left open. -/

namespace VerilogEx.Uvm

variable {ι π σ ω : Type*}

-- `sample` is what the monitor reads at an edge, of the pins and the device before it.
structure Bench (ι π σ ω : Type*) where
  drive : ι → π
  next : σ → π → σ
  sample : σ → π → ω

inductive Stmt (ι : Type*)
  | raiseObjection
  | start (items : List ι)
  | posedge
  | dropObjection
  deriving DecidableEq

inductive Test (ι : Type*)
  | next (rest : List (Stmt ι))
  | finishItem (items : List ι) (rest : List (Stmt ι))
  | atClk (woken : Bool) (rest : List (Stmt ι))
  deriving DecidableEq

inductive Driver (ι : Type*)
  | getNextItem
  | atClk (woken : Bool) (item : ι)
  deriving DecidableEq

structure State (ι π σ ω : Type*) where
  test : Test ι
  driver : Driver ι := .getNextItem
  request : Option ι := none
  itemDone : Bool := false
  pins : π
  device : σ
  sampled : Option ω := none
  taken : List ι := []
  written : List ω := []
  deriving DecidableEq

inductive Act
  | posedge
  | test
  | driver
  | monitor
  deriving DecidableEq

namespace State

variable (b : Bench ι π σ ω) (s : State ι π σ ω)

def testStep : Option (State ι π σ ω) :=
  match s.test with
  | .next [] => none
  | .next (.raiseObjection :: rest) => some { s with test := .next rest }
  | .next (.dropObjection :: rest) => some { s with test := .next rest }
  | .next (.start [] :: rest) => some { s with test := .next rest }
  | .next (.start (i :: is) :: rest) =>
    some { s with test := .finishItem is rest, request := some i, itemDone := false }
  | .next (.posedge :: rest) => some { s with test := .atClk false rest }
  | .finishItem is rest => if s.itemDone then some { s with test := .next (.start is :: rest) } else none
  | .atClk true rest => some { s with test := .next rest }
  | .atClk false _ => none

def driverStep : Option (State ι π σ ω) :=
  match s.driver, s.request with
  | .getNextItem, none => none
  | .getNextItem, some i =>
    some { s with driver := .atClk false i, request := none, taken := s.taken ++ [i] }
  | .atClk true i, _ => some { s with driver := .getNextItem, pins := b.drive i, itemDone := true }
  | .atClk false _, _ => none

def monitorStep : Option (State ι π σ ω) :=
  s.sampled.map fun v => { s with sampled := none, written := s.written ++ [v] }

-- The clock ticks when no process can run, and wakes whoever waits for the edge.
def clockStep : Option (State ι π σ ω) :=
  if s.testStep.isNone && (s.driverStep b).isNone && s.monitorStep.isNone then
    some { s with
      test := match s.test with
        | .atClk _ rest => .atClk true rest
        | t => t
      driver := match s.driver with
        | .atClk _ i => .atClk true i
        | d => d
      device := b.next s.device s.pins
      sampled := some (b.sample s.device s.pins) }
  else none

-- The last statement drops the final objection, and then nothing runs any more.
def finished : Bool :=
  match s.test with
  | .next [] => true
  | _ => false

def step (a : Act) : Option (State ι π σ ω) :=
  if s.finished then none
  else match a with
    | .posedge => s.clockStep b
    | .test => s.testStep
    | .driver => s.driverStep b
    | .monitor => s.monitorStep

def init (program : List (Stmt ι)) (pins : π) (device : σ) : State ι π σ ω :=
  { test := .next program, pins, device }

variable {b s} {t : State ι π σ ω}

lemma testStep_cases (h : s.testStep = some t) :
    (∃ stmt rest, s.test = .next (stmt :: rest) ∧
      (stmt = .raiseObjection ∨ stmt = .dropObjection ∨ stmt = .start []) ∧
      t = { s with test := .next rest }) ∨
    (∃ i is rest, s.test = .next (.start (i :: is) :: rest) ∧
      t = { s with test := .finishItem is rest, request := some i, itemDone := false }) ∨
    (∃ rest, s.test = .next (.posedge :: rest) ∧ t = { s with test := .atClk false rest }) ∨
    (∃ is rest, s.test = .finishItem is rest ∧ s.itemDone = true ∧
      t = { s with test := .next (.start is :: rest) }) ∨
    (∃ rest, s.test = .atClk true rest ∧ t = { s with test := .next rest }) := by
  unfold testStep at h
  split at h
  case h_1 => cases h
  case h_2 rest ht => exact .inl ⟨_, rest, ht, .inl rfl, (Option.some.inj h).symm⟩
  case h_3 rest ht => exact .inl ⟨_, rest, ht, .inr (.inl rfl), (Option.some.inj h).symm⟩
  case h_4 rest ht => exact .inl ⟨_, rest, ht, .inr (.inr rfl), (Option.some.inj h).symm⟩
  case h_5 i is rest ht => exact .inr (.inl ⟨i, is, rest, ht, (Option.some.inj h).symm⟩)
  case h_6 rest ht => exact .inr (.inr (.inl ⟨rest, ht, (Option.some.inj h).symm⟩))
  case h_7 is rest ht =>
    obtain ⟨hd, h⟩ := Option.ite_none_right_eq_some.mp h
    exact .inr (.inr (.inr (.inl ⟨is, rest, ht, hd, (Option.some.inj h).symm⟩)))
  case h_8 rest ht => exact .inr (.inr (.inr (.inr ⟨rest, ht, (Option.some.inj h).symm⟩)))
  case h_9 => cases h

lemma driverStep_cases (h : s.driverStep b = some t) :
    (∃ i, s.driver = .getNextItem ∧ s.request = some i ∧
      t = { s with driver := .atClk false i, request := none, taken := s.taken ++ [i] }) ∨
    (∃ i, s.driver = .atClk true i ∧
      t = { s with driver := .getNextItem, pins := b.drive i, itemDone := true }) := by
  unfold driverStep at h
  split at h
  case h_1 => cases h
  case h_2 i hd hr => exact .inl ⟨i, hd, hr, (Option.some.inj h).symm⟩
  case h_3 i hd => exact .inr ⟨i, hd, (Option.some.inj h).symm⟩
  case h_4 => cases h

lemma monitorStep_cases (h : s.monitorStep = some t) :
    ∃ v, s.sampled = some v ∧ t = { s with sampled := none, written := s.written ++ [v] } := by
  obtain ⟨v, hv, rfl⟩ := Option.map_eq_some_iff.mp h
  exact ⟨v, hv, rfl⟩

lemma quiet_test (hfin : s.finished = false) (h : s.testStep = none) :
    (∃ items rest, s.test = .finishItem items rest ∧ s.itemDone = false) ∨
      ∃ rest, s.test = .atClk false rest := by
  unfold testStep at h
  split at h
  case h_1 ht => simp [finished, ht] at hfin
  case h_7 items rest ht =>
    refine .inl ⟨items, rest, ht, ?_⟩
    simpa using h
  case h_9 rest ht => exact .inr ⟨rest, ht⟩
  all_goals cases h

lemma quiet_driver (h : s.driverStep b = none) :
    (s.driver = .getNextItem ∧ s.request = none) ∨ ∃ i, s.driver = .atClk false i := by
  unfold driverStep at h
  split at h
  case h_1 hd hr => exact .inl ⟨hd, hr⟩
  case h_4 i hd => exact .inr ⟨i, hd⟩
  all_goals cases h

lemma finished_iff : s.finished = true ↔ s.test = .next [] := by
  unfold finished
  split
  case h_1 ht => exact iff_of_true rfl ht
  case h_2 hn => exact iff_of_false Bool.false_ne_true hn

end State

end VerilogEx.Uvm
