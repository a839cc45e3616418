import VerilogEx.Uvm.Filling

/-! The three processes of `run_phase` in `tb_fifo_uvm`, whatever their items hold. When the
last objection is dropped the scoreboard has every item that was driven, provided the
monitor ran first on the last clock edge. -/

namespace VerilogEx.FifoBench.Phases

open Hdl Uvm

variable {α : Type*}

def runPhase (writes reads randoms : List α) : List (Stmt α) :=
  [.raiseObjection, .start writes, .dropObjection,
    .raiseObjection, .start reads, .dropObjection,
    .raiseObjection, .start randoms, .posedge, .dropObjection]

lemma ticks_runPhase (writes reads randoms : List α) :
    ticks (runPhase writes reads randoms) = (writes ++ reads ++ randoms).map some ++ [none] := by
  simp [runPhase, ticks]

lemma cost_runPhase (writes reads randoms : List α) :
    programCost (runPhase writes reads randoms) = 6 * (writes ++ reads ++ randoms).length + 13 := by
  simp [runPhase, programCost, Stmt.cost]
  omega

-- The pins hold the item driven last, and nothing before the first one.
abbrev State (α : Type*) := Uvm.State α (Option α) Unit (Option α)

namespace State

def init (writes reads randoms : List α) : State α :=
  Uvm.State.init (runPhase writes reads randoms) none ()

def Delivered (s : State α) : Prop := s.written.filterMap id = s.taken

instance [DecidableEq α] (s : State α) : Decidable s.Delivered :=
  inferInstanceAs (Decidable (_ = _))

section

variable {writes reads randoms : List α} {acts : List Act} {s : State α}

lemma written_finished
    (h : schedule (Uvm.State.step .bare) (init writes reads randoms) acts = some s)
    (hfin : s.finished = true) :
    s.written = Uvm.State.passedOn acts (none :: (writes ++ reads ++ randoms).map some) := by
  have hticks : (ticks (runPhase writes reads randoms)).map (Option.map some) =
      ((writes ++ reads ++ randoms).map some).map some ++ [none] := by
    rw [ticks_runPhase, List.map_append, List.map_map, List.map_map]
    rfl
  rw [(Uvm.State.outcome h hfin).2.2, Bench.observed_held, Bench.samples_bare, Bench.bare, hticks,
    held_items_wait]

lemma taken_finished
    (h : schedule (Uvm.State.step .bare) (init writes reads randoms) acts = some s)
    (hfin : s.finished = true) : s.taken = writes ++ reads ++ randoms := by
  rw [Uvm.State.taken_of_finished h hfin, ticks_runPhase]
  simp [List.filterMap_append, List.filterMap_map]

end

lemma filterMap_samples (items : List α) : (none :: items.map some).filterMap id = items := by
  simp [List.filterMap_map]

theorem delivered_iff (writes reads randoms : List α) (hne : writes ++ reads ++ randoms ≠ [])
    {acts : List Act} {s : State α}
    (h : schedule (Uvm.State.step .bare) (init writes reads randoms) acts = some s)
    (hfin : s.finished = true) :
    s.taken = writes ++ reads ++ randoms ∧
      (s.Delivered ↔ .monitor ∈ Uvm.State.sinceEdge acts) := by
  have htaken := taken_finished h hfin
  refine ⟨htaken, ?_⟩
  rw [Delivered, htaken, written_finished h hfin, Uvm.State.passedOn]
  split
  next hm => exact iff_of_true (filterMap_samples _) hm
  next hm =>
    refine iff_of_false (fun hd => ?_) hm
    rw [List.dropLast_cons_of_ne_nil (by simpa using hne), ← List.map_dropLast,
      filterMap_samples] at hd
    have hlen := congrArg List.length hd
    have hpos := List.length_pos_iff.mpr hne
    rw [List.length_dropLast] at hlen
    omega

def upToLastEdge : List Act :=
  .test :: .test :: .driver :: .posedge :: .driver :: .monitor :: (List.replicate 8 .test ++
    .driver :: .posedge :: .driver :: .monitor :: .test :: .test :: .test :: [.posedge])

def monitorFirst : State ℕ where
  test := .next []
  itemDone := true
  pins := some 2
  device := ()
  taken := [1, 2]
  written := [none, some 1, some 2]

def testFirst : State ℕ :=
  { monitorFirst with sampled := some (some 2), written := [none, some 1] }

theorem delivered_iff_monitor_first :
    monitorFirst.taken = [1] ++ [] ++ [2] ∧ (monitorFirst.Delivered ↔
      .monitor ∈ Uvm.State.sinceEdge (upToLastEdge ++ [.monitor, .test, .test])) :=
  delivered_iff [1] [] [2] (by decide) (by decide) rfl

theorem test_first_loses_item :
    ¬∀ (writes reads randoms : List ℕ) (acts : List Act) (s : State ℕ),
      writes ++ reads ++ randoms ≠ [] →
        schedule (Uvm.State.step .bare) (init writes reads randoms) acts = some s →
          s.finished = true → s.Delivered := by
  intro h
  have hd := h [1] [] [2] (upToLastEdge ++ [.test, .test]) testFirst (by decide) (by decide) rfl
  exact absurd hd (by decide)

theorem fifo_test_ends (writes reads randoms : List α) (acts : List Act) (s : State α)
    (h : schedule (Uvm.State.step .bare) (init writes reads randoms) acts = some s) :
    acts.length ≤ 6 * (writes ++ reads ++ randoms).length + 13 ∧
      (∃ more t, schedule (Uvm.State.step .bare) (init writes reads randoms) (acts ++ more) =
        some t ∧ t.finished = true) ∧
      (s.finished = true → acts.count .posedge = (writes ++ reads ++ randoms).length + 1) := by
  have hcost := Uvm.State.length_add_cost h
  rw [cost_runPhase] at hcost
  refine ⟨by omega, Uvm.State.can_finish h, fun hfin => ?_⟩
  rw [(Uvm.State.outcome h hfin).1, ticks_runPhase, List.length_append, List.length_map,
    List.length_singleton]

theorem fifo_test_ends_idle : ∃ more t,
    schedule (Uvm.State.step .bare) (init [1, 2] [3] []) ([.test, .test] ++ more) = some t ∧
      t.finished = true :=
  (fifo_test_ends [1, 2] [3] [] [.test, .test] _ rfl).2.1

end State

end VerilogEx.FifoBench.Phases
