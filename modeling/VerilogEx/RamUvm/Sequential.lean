import VerilogEx.RamUvm.Phases

/-! No two processes of `tb_ram_uvm` can ever run at the same time: `ram_test` has a single
schedule, and cannot end early, late or never. -/

namespace VerilogEx.RamUvm.Phases

open Hdl

variable {α : Type*}

def itemActs : List Act := [.driver, .tick, .monitor, .tick, .monitor, .tick, .driver]

def bodyActs : List α → List Act
  | [] => [.test, .test]
  | _ :: items => .test :: itemActs ++ .test :: bodyActs items

def onlySchedule (items : List α) : List Act := .test :: bodyActs items

lemma length_onlySchedule (items : List α) : (onlySchedule items).length = 9 * items.length + 3 := by
  have hbody : (bodyActs items).length = 9 * items.length + 2 := by
    induction items with
    | nil => rfl
    | cons i items ih =>
      simp only [bodyActs, itemActs, List.length_append, List.length_cons, ih, List.length_nil]
      omega
  rw [onlySchedule, List.length_cons, hbody]

def Test.acts : Test α → List Act
  | .raiseObjection items => .test :: bodyActs items
  | .body items => bodyActs items
  | .finishItem items => .test :: bodyActs items
  | .dropObjection => [.test]
  | .done => []

def Driver.acts : Driver α → Instant → Monitor → List Act
  | .getNextItem, _, _ => []
  | .atNegedge true _, _, _ => itemActs.drop 6
  | .atNegedge false _, .falling, _ => itemActs.drop 1
  | .atNegedge false _, .rising, .atPosedge _ => itemActs.drop 2
  | .atNegedge false _, .rising, .delay _ => itemActs.drop 3
  | .atNegedge false _, .unitLater, .delay _ => itemActs.drop 4
  | .atNegedge false _, .unitLater, .atPosedge _ => itemActs.drop 5

namespace State

def left (s : State α) : List Act :=
  (if s.request.isSome then itemActs else s.driver.acts s.time s.monitor) ++ s.test.acts

variable {s t : State α} {stream done : List α}

namespace Inv

lemma left_testStep (hi : Inv stream done s) (h : s.testStep = some t) :
    s.left = .test :: t.left := by
  rcases testStep_cases h with ⟨items, ht, rfl⟩ | ⟨ht, rfl⟩ | ⟨i, is, ht, rfl⟩ |
    ⟨is, ht, hdone, rfl⟩ | ⟨ht, rfl⟩
  · obtain ⟨hd, hr⟩ := hi.idle (by simp [ht])
    simp only [left, hd, hr, ht]
    rfl
  · obtain ⟨hd, hr⟩ := hi.idle (by simp [ht])
    simp only [left, hd, hr, ht]
    rfl
  · obtain ⟨hd, hr⟩ := hi.idle (by simp [ht])
    simp only [left, hd, hr, ht]
    rfl
  · obtain ⟨hd, hr⟩ := (hi.handshake.underway ht).of_done hdone
    simp only [left, hd, hr, ht]
    rfl
  · obtain ⟨hd, hr⟩ := hi.idle (by simp [ht])
    simp only [left, hd, hr, ht]
    rfl

lemma left_driverStep (hi : Inv stream done s) (h : s.driverStep = some t) :
    s.left = .driver :: t.left := by
  rcases driverStep_cases h with ⟨i, hd, hr, rfl⟩ | ⟨i, hd, rfl⟩
  · obtain ⟨htime, -⟩ := hi.timing.falling (by rw [hd]; exact id)
    simp only [left, hr, htime]
    rfl
  · obtain ⟨-, -, hr⟩ := hi.handshake.of_driver (by simp [hd])
    simp only [left, hr, hd]
    rfl

lemma left_monitorStep (hi : Inv stream done s) (h : s.monitorStep = some t) :
    s.left = .monitor :: t.left := by
  have hdriver : s.driver.Waiting → ∃ i, s.driver = .atNegedge false i ∧ s.request = none := by
    intro hw
    cases hd : s.driver with
    | getNextItem =>
      rw [hd] at hw
      exact hw.elim
    | atNegedge woken i =>
      rw [hd] at hw
      obtain rfl : woken = false := hw
      exact ⟨i, rfl, (hi.handshake.of_driver (by simp [hd])).2.2⟩
  rcases monitorStep_cases h with ⟨hm, rfl⟩ | ⟨hm, rfl⟩
  · obtain ⟨htime, hw, -⟩ := hi.timing.rising hm
    obtain ⟨i, hd, hr⟩ := hdriver hw
    simp only [left, hr, hd, htime, hm]
    rfl
  · obtain ⟨htime, hw, -⟩ := hi.timing.unitLater hm
    obtain ⟨i, hd, hr⟩ := hdriver hw
    simp only [left, hr, hd, htime, hm]
    rfl

lemma left_clockStep (hi : Inv stream done s) (hfin : s.finished = false)
    (h : s.clockStep = some t) : s.left = .tick :: t.left := by
  have hquiet : s.monitorStep = none := by
    obtain ⟨hq, -⟩ := Option.ite_none_right_eq_some.mp h
    simp only [Bool.and_eq_true, Option.isNone_iff_eq_none] at hq
    exact hq.2
  obtain ⟨i, hd, hcases⟩ := clockStep_cases hi.handshake hi.timing hfin h
  obtain ⟨-, -, hr⟩ := hi.handshake.of_driver (by simp [hd])
  rcases hcases with ⟨htime, rfl⟩ | ⟨htime, rfl⟩ | ⟨htime, hm, rfl⟩
  · simp only [left, hr, hd, htime]
    rfl
  · have hm : s.monitor = .delay false := by
      have hwait := hi.timing
      rw [Timing, htime] at hwait
      rcases hwait.2.2 with hm | hm
      · simp [State.monitorStep, hm] at hquiet
      · exact hm
    simp only [left, hr, hd, htime, hm]
    rfl
  · simp only [left, hr, hd, htime, hm]
    rfl

lemma left_step (hi : Inv stream done s) {a : Act} (h : s.step a = some t) :
    s.left = a :: t.left := by
  obtain ⟨hfin, h⟩ := Option.ite_none_left_eq_some.mp h
  cases a with
  | tick => exact hi.left_clockStep (by simpa using hfin) h
  | test => exact hi.left_testStep h
  | driver => exact hi.left_driverStep h
  | monitor => exact hi.left_monitorStep h

end Inv

variable {items : List α} {acts : List Act}

lemma left_of_schedule (h : schedule step (init items) acts = some s) :
    acts ++ s.left = onlySchedule items ∧ (s.finished = true → s.left = []) := by
  have hboth : (∃ done, Inv items done s) ∧ acts ++ s.left = onlySchedule items := by
    refine schedule_induction
      (P := fun acts s => (∃ done, Inv items done s) ∧ acts ++ s.left = onlySchedule items) ?_ ?_ h
    · exact ⟨⟨[], Inv.init items⟩, rfl⟩
    · rintro acts s a t ⟨⟨done, hi⟩, hleft⟩ hs
      refine ⟨hi.step hs, ?_⟩
      rw [← hleft, hi.left_step hs, List.append_assoc]
      rfl
  obtain ⟨⟨done, hi⟩, hleft⟩ := hboth
  refine ⟨hleft, fun hfin => ?_⟩
  have ht : s.test = .done := by
    cases ht : s.test with
    | done => rfl
    | _ => simp [finished, ht] at hfin
  obtain ⟨hd, hr⟩ := hi.idle (by simp [ht])
  simp only [left, hd, hr, ht]
  rfl

lemma only_schedule_ends (items : List α) :
    ∃ s, schedule step (init items) (onlySchedule items) = some s ∧ s.finished = true := by
  obtain ⟨acts, s, h, hfin⟩ := phase_ends items
  obtain ⟨hleft, hnil⟩ := left_of_schedule h
  rw [hnil hfin, List.append_nil] at hleft
  rw [← hleft]
  exact ⟨s, h, hfin⟩

theorem only_schedule (items : List α) (acts : List Act) :
    ((∃ s, schedule step (init items) acts = some s) ↔ acts <+: onlySchedule items) ∧
      ((∃ s, schedule step (init items) acts = some s ∧ s.finished = true) ↔
        acts = onlySchedule items) ∧
      (onlySchedule items).length = 9 * items.length + 3 := by
  refine ⟨⟨?_, ?_⟩, ⟨?_, ?_⟩, length_onlySchedule items⟩
  · rintro ⟨s, h⟩
    exact ⟨s.left, (left_of_schedule h).1⟩
  · rintro ⟨rest, hrest⟩
    obtain ⟨s, h, -⟩ := only_schedule_ends items
    rw [← hrest] at h
    exact schedule_of_append h
  · rintro ⟨s, h, hfin⟩
    obtain ⟨hleft, hnil⟩ := left_of_schedule h
    rw [← hleft, hnil hfin, List.append_nil]
  · rintro rfl
    exact only_schedule_ends items

end State

end VerilogEx.RamUvm.Phases
