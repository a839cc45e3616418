import VerilogEx.Uvm.Delivery

/-! Every run of a bench ends: each step of a process and each clock edge uses up one unit
of what the test has left to do, and until the end one of them can always be taken. -/

namespace VerilogEx.Uvm

open Hdl

variable {ι π σ ω : Type*}

def Stmt.cost : Stmt ι → ℕ
  | .start items => 6 * items.length + 1
  | .posedge => 4
  | .raiseObjection => 1
  | .dropObjection => 1

def programCost : List (Stmt ι) → ℕ
  | [] => 0
  | stmt :: rest => stmt.cost + programCost rest

def Test.cost : Test ι → ℕ
  | .next rest => programCost rest
  | .finishItem items rest => 6 * items.length + 2 + programCost rest
  | .atClk false rest => 3 + programCost rest
  | .atClk true rest => 1 + programCost rest

def Driver.cost : Driver ι → ℕ
  | .getNextItem => 0
  | .atClk false _ => 3
  | .atClk true _ => 1

@[simp] lemma programCost_cons (stmt : Stmt ι) (rest : List (Stmt ι)) :
    programCost (stmt :: rest) = stmt.cost + programCost rest := rfl

namespace State

def cost (s : State ι π σ ω) : ℕ :=
  s.test.cost + s.driver.cost + 4 * s.request.toList.length + s.sampled.toList.length

variable {b : Bench ι π σ ω} {s t : State ι π σ ω}

lemma cost_testStep (hh : s.Handshake) (h : s.testStep = some t) : t.cost + 1 = s.cost := by
  rcases testStep_cases h with ⟨stmt, rest, ht, hs, rfl⟩ | ⟨i, is, rest, ht, rfl⟩ |
    ⟨rest, ht, rfl⟩ | ⟨is, rest, ht, hd, rfl⟩ | ⟨rest, ht, rfl⟩
  · rcases hs with rfl | rfl | rfl <;> simp [cost, ht, Test.cost, Stmt.cost] <;> omega
  · obtain ⟨-, hr⟩ := hh.idle (by simp [ht])
    simp [cost, ht, hr, Test.cost, Stmt.cost]
    omega
  · simp [cost, ht, Test.cost, Stmt.cost]
    omega
  · simp [cost, ht, Test.cost, Stmt.cost]
    omega
  · simp [cost, ht, Test.cost]
    omega

lemma cost_driverStep (h : s.driverStep b = some t) : t.cost + 1 = s.cost := by
  rcases driverStep_cases h with ⟨i, hd, hr, rfl⟩ | ⟨i, hd, rfl⟩
  · simp [cost, hd, hr, Driver.cost]
    omega
  · simp [cost, hd, Driver.cost]
    omega

lemma cost_monitorStep (h : s.monitorStep = some t) : t.cost + 1 = s.cost := by
  obtain ⟨v, hv, rfl⟩ := monitorStep_cases h
  simp [cost, hv]

lemma cost_clockStep (hh : s.Handshake) (hfin : s.finished = false) (h : s.clockStep b = some t) :
    t.cost + 1 = s.cost := by
  obtain ⟨hnone, ⟨items, rest, i, ht, -, hd, hr, rfl⟩ | ⟨rest, ht, hd, hr, rfl⟩⟩ :=
    clockStep_cases hh hfin h
  · simp [cost, ht, hd, hr, hnone, Driver.cost]
  · simp [cost, ht, hd, hr, hnone, Test.cost]
    omega

lemma cost_step (hh : s.Handshake) {a : Act} (h : s.step b a = some t) : t.cost + 1 = s.cost := by
  obtain ⟨hfin, h⟩ := Option.ite_none_left_eq_some.mp h
  cases a with
  | posedge => exact cost_clockStep hh (by simpa using hfin) h
  | test => exact cost_testStep hh h
  | driver => exact cost_driverStep h
  | monitor => exact cost_monitorStep h

lemma exists_step (b : Bench ι π σ ω) (hfin : s.finished = false) : ∃ a t, s.step b a = some t := by
  cases htest : s.testStep with
  | some t => exact ⟨.test, t, by simpa [step, hfin] using htest⟩
  | none =>
    cases hdriver : s.driverStep b with
    | some t => exact ⟨.driver, t, by simpa [step, hfin] using hdriver⟩
    | none =>
      cases hmonitor : s.monitorStep with
      | some t => exact ⟨.monitor, t, by simpa [step, hfin] using hmonitor⟩
      | none =>
        have hclock : (s.clockStep b).isSome = true := by
          simp [clockStep, htest, hdriver, hmonitor]
        obtain ⟨t, ht⟩ := Option.isSome_iff_exists.mp hclock
        exact ⟨.posedge, t, by simpa [step, hfin] using ht⟩

variable {program : List (Stmt ι)} {pins : π} {device : σ} {acts : List Act}

theorem length_add_cost (h : schedule (step b) (init program pins device) acts = some s) :
    acts.length + s.cost = programCost program := by
  have hboth : (∃ done, s.Follows b (pins, device) (ticks program) done) ∧
      acts.length + s.cost = programCost program := by
    refine schedule_induction (P := fun acts s => (∃ done, s.Follows b (pins, device)
      (ticks program) done) ∧ acts.length + s.cost = programCost program) ?_ ?_ h
    · exact ⟨⟨[], Follows.init b program pins device⟩, by simp [cost, init, Test.cost, Driver.cost]⟩
    · rintro acts s a t ⟨⟨done, hf⟩, hlen⟩ hs
      obtain ⟨us, -, hf'⟩ := hf.step hs
      have hcost := cost_step hf.handshake hs
      refine ⟨⟨_, hf'⟩, ?_⟩
      rw [List.length_append, List.length_singleton]
      omega
  exact hboth.2

theorem can_finish (h : schedule (step b) (init program pins device) acts = some s) :
    ∃ more t, schedule (step b) (init program pins device) (acts ++ more) = some t ∧
      t.finished = true := by
  induction hn : s.cost using Nat.strong_induction_on generalizing s acts with
  | _ n ih =>
    cases hfin : s.finished with
    | true => exact ⟨[], s, by simpa using h, hfin⟩
    | false =>
      obtain ⟨a, t, hs⟩ := exists_step b hfin
      have hnext : schedule (step b) (init program pins device) (acts ++ [a]) = some t := by
        rw [schedule_snoc, h]
        exact hs
      have hlen := length_add_cost h
      have hlen' := length_add_cost hnext
      rw [List.length_append, List.length_singleton] at hlen'
      obtain ⟨more, u, hmore, hu⟩ := ih t.cost (by omega) hnext rfl
      exact ⟨a :: more, u, by simpa using hmore, hu⟩

end State

end VerilogEx.Uvm
