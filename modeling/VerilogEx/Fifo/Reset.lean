import VerilogEx.Fifo.Pointers

/-! Reset hides the past of the FIFO, although it leaves the memory alone: what
lies between the pointers was written after the reset. -/

namespace VerilogEx.Fifo

open Hdl Queues

namespace FifoTop

variable {p : FifoParams} {s t : FifoTop p}

structure Agree (s t : FifoTop p) : Prop where
  ctrl : s.ctrl = t.ctrl
  stored : ∀ i < count s.ctrl.wrPtr s.ctrl.rdPtr,
    Memory.read s.regs (slot s.ctrl.rdPtr i).toNat = Memory.read t.regs (slot s.ctrl.rdPtr i).toNat

lemma slot_step (hr : s.ctrl.rstN = .one) (pins : Pins p.dataWidth) (i : ℕ) :
    slot (s.step (.edge pins)).ctrl.rdPtr i =
      slot s.ctrl.rdPtr (i + (s.ctrl.rdValid pins.rdEn).isTrue.toNat) := by
  rw [ctrl_step, FifoCtrl.step_high _ pins hr]
  cases (s.ctrl.rdValid pins.rdEn).isTrue
  · rfl
  · exact (slot_succ _ i).symm

lemma regs_edge (pins : Pins p.dataWidth) : (s.step (.edge pins)).regs =
    if (s.ctrl.wrValid pins.wrEn).isTrue then
      Memory.write s.regs s.ctrl.wrAddr.toNat pins.wrData else s.regs := rfl

lemma Agree.edge (h : s.Agree t) (hs : s.ctrl.Sound) (hr : s.ctrl.rstN = .one)
    (pins : Pins p.dataWidth) : (s.step (.edge pins)).Agree (t.step (.edge pins)) := by
  refine ⟨by rw [ctrl_step, ctrl_step, h.ctrl], fun i hi => ?_⟩
  have hc := hs.count_step hr pins
  rw [ctrl_step] at hi
  rw [slot_step hr, regs_edge, regs_edge, ← h.ctrl]
  generalize hj : i + (s.ctrl.rdValid pins.rdEn).isTrue.toNat = j
  cases hw : (s.ctrl.wrValid pins.wrEn).isTrue with
  | false =>
    rw [hw, Bool.toNat_false] at hc
    exact h.stored j (by omega)
  | true =>
    rw [hw, Bool.toNat_true] at hc
    apply Memory.read_write_congr
    intro hne
    apply h.stored j
    have hlast : j ≠ count s.ctrl.wrPtr s.ctrl.rdPtr := by
      rintro rfl
      exact hne (by rw [slot_count]; rfl)
    omega

lemma Agree.edges (h : s.Agree t) (hs : s.ctrl.Sound) (hr : s.ctrl.rstN = .one)
    (inputs : List (Pins p.dataWidth)) :
    (run step s (inputs.map .edge)).Agree (run step t (inputs.map .edge)) := by
  induction inputs generalizing s t with
  | nil => exact h
  | cons pins inputs ih =>
    apply ih (h.edge hs hr pins)
    · rw [ctrl_step]
      exact hs.edge pins
    · rw [ctrl_step]
      exact hr

lemma Agree.rdData (h : s.Agree t) (he : s.empty = .zero) : s.rdData = t.rdData := by
  have hne : s.ctrl.wrPtr ≠ s.ctrl.rdPtr := by
    intro heq
    rw [empty, FifoCtrl.empty_eq, heq] at he
    simp at he
  have hpos : 0 < count s.ctrl.wrPtr s.ctrl.rdPtr :=
    Nat.pos_of_ne_zero fun hz => hne (count_eq_zero.mp hz)
  have h0 := h.stored 0 hpos
  rw [slot_zero] at h0
  rw [FifoTop.rdData, FifoTop.rdData, ← h.ctrl]
  exact h0

def Cleared (s : FifoTop p) : Prop :=
  s.ctrl.rstN = .zero → s.ctrl.wrPtr = 0 ∧ s.ctrl.rdPtr = 0

lemma cleared_step (h : s.Cleared) (e : Event p.dataWidth) : (s.step e).Cleared := by
  intro hz
  rw [ctrl_step] at hz ⊢
  cases e with
  | edge pins =>
    have hz' : s.ctrl.rstN = .zero := hz
    rw [FifoCtrl.step_low _ pins hz']
    exact ⟨rfl, rfl⟩
  | rst level =>
    cases level with
    | true => cases hz
    | false =>
      simp only [FifoCtrl.step]
      split_ifs with h'
      · exact h h'
      · exact ⟨rfl, rfl⟩

lemma cleared_run (s : FifoTop p) (events : List (Event p.dataWidth)) :
    (run step s.powerUp events).Cleared :=
  run_invariant (I := Cleared) (fun hz => by cases hz) (fun _ e h => cleared_step h e) events

lemma Cleared.release (h : s.Cleared) (hz : s.ctrl.rstN = .zero) :
    (s.step (.rst true)).ctrl = { rstN := .one, wrPtr := 0, rdPtr := 0 } := by
  obtain ⟨hw, hd⟩ := h hz
  rw [ctrl_step]
  simp [FifoCtrl.step, hw, hd]

theorem reset_hides_history (p : FifoParams) (s₁ s₂ : FifoTop p)
    (history₁ history₂ : List (Event p.dataWidth))
    (h₁ : (run step s₁.powerUp history₁).ctrl.rstN = .zero)
    (h₂ : (run step s₂.powerUp history₂).ctrl.rstN = .zero)
    (inputs : List (Pins p.dataWidth)) (pins : Pins p.dataWidth) :
    let t₁ := run step s₁.powerUp (history₁ ++ .rst true :: inputs.map .edge)
    let t₂ := run step s₂.powerUp (history₂ ++ .rst true :: inputs.map .edge)
    t₁.full = t₂.full ∧ t₁.empty = t₂.empty ∧
      t₁.ctrl.wrValid pins.wrEn = t₂.ctrl.wrValid pins.wrEn ∧
      t₁.ctrl.rdValid pins.rdEn = t₂.ctrl.rdValid pins.rdEn ∧
      (t₁.empty = .zero → t₁.rdData = t₂.rdData) := by
  have hc₁ := (cleared_run s₁ history₁).release h₁
  have hc₂ := (cleared_run s₂ history₂).release h₂
  have hs : (step (run step s₁.powerUp history₁) (.rst true)).ctrl.Sound := by
    rw [hc₁]
    exact ⟨Or.inr rfl, fun hz => (by cases hz), by simp⟩
  have h : Agree (step (run step s₁.powerUp history₁) (.rst true))
      (step (run step s₂.powerUp history₂) (.rst true)) := by
    refine ⟨hc₁.trans hc₂.symm, fun i hi => ?_⟩
    rw [hc₁, count_self] at hi
    omega
  have ha := h.edges hs (by rw [hc₁]) inputs
  simp only [run_append, run_cons]
  refine ⟨?_, ?_, ?_, ?_, ha.rdData⟩
  · exact congrArg FifoCtrl.full ha.ctrl
  · exact congrArg FifoCtrl.empty ha.ctrl
  · rw [ha.ctrl]
  · rw [ha.ctrl]

theorem reset_hides_history_tb :
    (run step (powerUp (p := .tb) ⟨⟨.x, 9, 2⟩, fun _ => .allX⟩)
        ([.rst false, .edge ⟨.one, .ofBits 7, .zero⟩] ++
          .rst true :: [⟨.one, .ofBits 72, .zero⟩].map .edge)).rdData =
      (run step (powerUp (p := .tb) ⟨⟨.x, 0, 0⟩, fun _ => .allZ⟩)
        ([.rst false] ++ .rst true :: [⟨.one, .ofBits 72, .zero⟩].map .edge)).rdData :=
  (reset_hides_history .tb ⟨⟨.x, 9, 2⟩, fun _ => .allX⟩ ⟨⟨.x, 0, 0⟩, fun _ => .allZ⟩
    [.rst false, .edge ⟨.one, .ofBits 7, .zero⟩] [.rst false] rfl rfl
    [⟨.one, .ofBits 72, .zero⟩] ⟨.zero, .allX, .one⟩).2.2.2.2 rfl

end FifoTop

end VerilogEx.Fifo
