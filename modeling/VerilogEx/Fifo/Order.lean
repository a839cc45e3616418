import VerilogEx.Fifo.Refinement

/-! What goes in and what comes out: the words read since the last reset are those written
since, in order, up to the ones that are still stored. -/

namespace VerilogEx.Fifo

open Hdl Queues

structure Log (w : ℕ) where
  written : List (Vec w) := []
  read : List (Vec w) := []

namespace Log

variable {p : FifoParams} (l : Log p.dataWidth) (s : FifoTop p)

def step : Event p.dataWidth → Log p.dataWidth
  | .edge pins =>
    if s.ctrl.rstN = .zero then {}
    else
      { written := l.written ++ if (s.ctrl.wrValid pins.wrEn).isTrue then [pins.wrData] else []
        read := l.read ++ if (s.ctrl.rdValid pins.rdEn).isTrue then [s.rdData] else [] }
  | .rst true => l
  | .rst false => {}

end Log

namespace FifoTop

variable {p : FifoParams}

def loggedStep (s : FifoTop p × Log p.dataWidth) (e : Event p.dataWidth) :
    FifoTop p × Log p.dataWidth :=
  (s.1.step e, s.2.step s.1 e)

lemma contents_pop (s : FifoTop p) (pins : Pins p.dataWidth) :
    s.contents = (if (s.ctrl.rdValid pins.rdEn).isTrue then [s.rdData] else []) ++
      if pins.pop then s.contents.tail else s.contents := by
  have hvalid := s.ctrl.isTrue_rdValid pins.rdEn
  have hempty := s.contents_eq_nil
  cases hr : pins.rdEn.isTrue
  · simp [hvalid, Pins.pop, hr]
  · by_cases hnil : s.contents = []
    · simp [hvalid, Pins.pop, hr, hnil, hempty.mp hnil]
    · have hne : s.ctrl.wrPtr ≠ s.ctrl.rdPtr := mt hempty.mpr hnil
      simp [hvalid, Pins.pop, hr, hne, s.rdData_eq_head hnil]

lemma contents_push (hp : p.depth = 2 ^ p.addrWidth) {s : FifoTop p} (h : s.ctrl.Sound)
    (pins : Pins p.dataWidth) :
    (if (s.ctrl.wrValid pins.wrEn).isTrue then [pins.wrData] else []) =
      if s.contents.length < p.depth then pins.push.toList else [] := by
  have hlt := h.lt_iff
  rw [s.length_contents, hp]
  by_cases hfull : count s.ctrl.wrPtr s.ctrl.rdPtr = 2 ^ p.addrWidth
  · simp [hfull]
  · rw [if_pos (hlt.mpr hfull)]
    cases hw : pins.wrEn.isTrue <;> simp [Pins.push, hw, hfull]

structure InOrder (s : FifoTop p × Log p.dataWidth) : Prop where
  sound : s.1.ctrl.Sound
  order : s.2.written = s.2.read ++ s.1.contents

lemma inOrder_low {t : FifoTop p} (h : t.ctrl.Sound) (hz : t.ctrl.rstN = .zero) :
    InOrder (t, {}) :=
  ⟨h, (t.contents_of_cleared (h.cleared hz)).symm⟩

variable {s : FifoTop p × Log p.dataWidth}

lemma InOrder.edge (hp : p.depth = 2 ^ p.addrWidth) (h : InOrder s) (pins : Pins p.dataWidth) :
    InOrder (loggedStep s (.edge pins)) := by
  have hs : (s.1.step (.edge pins)).ctrl.Sound := by
    rw [ctrl_step]
    exact h.sound.edge pins
  rcases h.sound.level with hz | ho
  · have hlow : loggedStep s (.edge pins) = (s.1.step (.edge pins), {}) := by
      simp [loggedStep, Log.step, hz]
    rw [hlow]
    exact inOrder_low hs hz
  · have hne : ¬s.1.ctrl.rstN = .zero := by simp [ho]
    refine ⟨hs, ?_⟩
    rw [loggedStep, Log.step, if_neg hne]
    dsimp only
    have horder := h.order
    rw [contents_pop s.1 pins] at horder
    rw [contents_edge hp h.sound ho, contents_push hp h.sound, horder]
    simp only [List.append_assoc]

lemma InOrder.step (hp : p.depth = 2 ^ p.addrWidth) (h : InOrder s) (e : Event p.dataWidth) :
    InOrder (loggedStep s e) := by
  have hs : (s.1.step e).ctrl.Sound := by
    rw [ctrl_step]
    exact h.sound.step e
  cases e with
  | edge pins => exact h.edge hp pins
  | rst level =>
    cases level with
    | true => exact ⟨hs, h.order⟩
    | false =>
      apply inOrder_low hs
      rw [ctrl_step, FifoCtrl.step]
      split_ifs with hz
      · exact hz
      · rfl

theorem first_in_first_out (p : FifoParams) (k : ℕ) (hp : p.depth = 2 ^ k) (s : FifoTop p)
    (l : Log p.dataWidth) (events : List (Event p.dataWidth)) :
    let t := run loggedStep (s.powerUp, l) (.rst false :: events)
    t.2.written = t.2.read ++ t.1.contents ∧ t.2.read <+: t.2.written ∧
      t.2.written.length ≤ t.2.read.length + p.depth := by
  have hd := p.depth_of_pow hp
  have h : InOrder (run loggedStep (s.inReset, {}) events) :=
    run_invariant (inOrder_low s.sound_inReset rfl) (fun _ e h => h.step hd e) events
  have hbound := h.sound.bound
  refine ⟨h.order, ⟨_, h.order.symm⟩, ?_⟩
  rw [← length_contents, ← hd] at hbound
  refine (congrArg List.length h.order).trans_le ?_
  rw [List.length_append]
  exact Nat.add_le_add_left hbound _

theorem first_in_first_out_tb :
    (run loggedStep (powerUp (p := .tb) ⟨⟨.x, 5, 3⟩, fun _ => .allX⟩, {}) (.rst false ::
      [.rst true, .edge ⟨.one, .ofBits 7, .zero⟩, .edge ⟨.one, .ofBits 8, .one⟩])).2.read <+:
    (run loggedStep (powerUp (p := .tb) ⟨⟨.x, 5, 3⟩, fun _ => .allX⟩, {}) (.rst false ::
      [.rst true, .edge ⟨.one, .ofBits 7, .zero⟩, .edge ⟨.one, .ofBits 8, .one⟩])).2.written :=
  (first_in_first_out .tb 3 rfl ⟨⟨.x, 5, 3⟩, fun _ => .allX⟩ {}
    [.rst true, .edge ⟨.one, .ofBits 7, .zero⟩, .edge ⟨.one, .ofBits 8, .one⟩]).2.1

end FifoTop

end VerilogEx.Fifo
