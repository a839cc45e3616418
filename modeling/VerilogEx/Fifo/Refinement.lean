import VerilogEx.Fifo.Pointers

/-! For a power of two as depth, `fifo_top` is a bounded queue that reset empties. -/

namespace VerilogEx.Fifo

open Hdl Queues

structure QueueSpec (p : FifoParams) where
  rstN : Logic
  queue : BoundedQueue (Vec p.dataWidth) p.depth

namespace QueueSpec

variable {p : FifoParams}

def start : QueueSpec p := ⟨.zero, .nil⟩

def step (q : QueueSpec p) : Event p.dataWidth → QueueSpec p
  | .edge pins => if q.rstN = .zero then q else { q with queue := q.queue.cycle pins.push pins.pop }
  | .rst true => { q with rstN := .one }
  | .rst false => start

end QueueSpec

namespace FifoTop

variable {p : FifoParams} (s : FifoTop p)

def ring : Ring p.addrWidth (Vec p.dataWidth) := s.ctrl.ring fun a => Memory.read s.regs a.toNat

def contents : List (Vec p.dataWidth) := s.ring.items

lemma length_contents : s.contents.length = count s.ctrl.wrPtr s.ctrl.rdPtr := s.ring.length_items

lemma contents_eq_nil : s.contents = [] ↔ s.ctrl.wrPtr = s.ctrl.rdPtr := s.ring.items_eq_nil

lemma empty_iff_contents : s.empty = .one ↔ s.contents = [] := by
  rw [contents_eq_nil]
  exact s.ctrl.empty_iff

lemma full_iff_contents : s.full = .one ↔ s.contents.length = 2 ^ p.addrWidth := by
  rw [length_contents]
  exact s.ctrl.full_iff

lemma rdData_eq_head (h : s.contents ≠ []) : s.rdData = s.contents.head h :=
  (s.ring.head_items h).symm

lemma contents_of_cleared (h : s.ctrl.wrPtr = 0 ∧ s.ctrl.rdPtr = 0) : s.contents = [] := by
  rw [contents_eq_nil, h.1, h.2]

variable {s}

lemma ring_edge (hp : p.depth = 2 ^ p.addrWidth) (h : s.ctrl.Sound) (hr : s.ctrl.rstN = .one)
    (pins : Pins p.dataWidth) : (s.step (.edge pins)).ring = s.ring.cycle pins.push pins.pop := by
  obtain ⟨hw, hd⟩ := h.step_ring hr s.ring.mem pins pins.isSome_push
  apply Queues.Ring.ext _ hw hd
  funext a
  have ha : s.ctrl.wrAddr.toNat < p.depth := by
    rw [hp]
    exact s.ctrl.wrAddr.isLt
  have hold : s.ring.mem a = Memory.read s.regs a.toNat := rfl
  have hnew : (s.step (.edge pins)).ring.mem a = Memory.read (RegisterFile.alwaysFf s.regs
    (s.ctrl.wrValid pins.wrEn) s.ctrl.wrAddr pins.wrData) a.toNat := rfl
  have hcnt : count s.ring.wr s.ring.rd < 2 ^ p.addrWidth ↔
    ¬count s.ctrl.wrPtr s.ctrl.rdPtr = 2 ^ p.addrWidth := h.lt_iff
  rw [hnew]
  by_cases hv : pins.wrEn.isTrue = true
  · by_cases hf : count s.ctrl.wrPtr s.ctrl.rdPtr = 2 ^ p.addrWidth
    · simp [RegisterFile.alwaysFf, Ring.cycle, Pins.push, hv, hf, hcnt, hold]
    · have he : a.toNat = s.ctrl.wrAddr.toNat ↔ a = s.ring.wr.setWidth p.addrWidth :=
        ⟨fun he => BitVec.eq_of_toNat_eq he, fun he => congrArg BitVec.toNat he⟩
      simp [RegisterFile.alwaysFf, Ring.cycle, Ring.push, Pins.push, hv, hf, hcnt, hold,
        Memory.read_write, ha, he]
  · simp [RegisterFile.alwaysFf, Ring.cycle, Pins.push, hv, hold]

lemma contents_edge (hp : p.depth = 2 ^ p.addrWidth) (h : s.ctrl.Sound)
    (hr : s.ctrl.rstN = .one) (pins : Pins p.dataWidth) :
    (s.step (.edge pins)).contents = (if pins.pop then s.contents.tail else s.contents) ++
      (if s.contents.length < p.depth then pins.push.toList else []) := by
  have hv : s.ring.Valid := h.bound
  unfold contents
  rw [ring_edge hp h hr, Ring.items_cycle _ _ _ hv, BoundedQueue.items_cycle, hp]
  rfl

structure Refines (s : FifoTop p) (q : QueueSpec p) : Prop where
  level : s.ctrl.rstN = q.rstN
  sound : s.ctrl.Sound
  items : s.contents = q.queue.items

lemma refines_start (s : FifoTop p) : s.inReset.Refines .start :=
  ⟨rfl, s.sound_inReset, s.inReset.contents_of_cleared ⟨rfl, rfl⟩⟩

lemma Refines.cleared {q : QueueSpec p} (h : s.Refines q) (hz : s.ctrl.rstN = .zero) :
    q.queue = .nil := by
  apply BoundedQueue.ext
  rw [← h.items, s.contents_of_cleared (h.sound.cleared hz)]
  rfl

lemma Refines.step (hp : p.depth = 2 ^ p.addrWidth) {q : QueueSpec p} (h : s.Refines q)
    (e : Event p.dataWidth) : (s.step e).Refines (q.step e) := by
  have hs : (s.step e).ctrl.Sound := by
    rw [ctrl_step]
    exact h.sound.step e
  cases e with
  | edge pins =>
    rcases h.sound.level with hz | ho
    · have hq : q.step (.edge pins) = q := by simp [QueueSpec.step, ← h.level, hz]
      have hc : (s.step (.edge pins)).ctrl.rstN = .zero := hz
      refine ⟨by rw [hq]; exact h.level, hs, ?_⟩
      rw [hq, h.cleared hz, contents_of_cleared _ (hs.cleared hc)]
      rfl
    · have hq : q.step (.edge pins) = { q with queue := q.queue.cycle pins.push pins.pop } := by
        simp [QueueSpec.step, ← h.level, ho]
      refine ⟨by rw [hq]; exact h.level, hs, ?_⟩
      rw [contents_edge hp h.sound ho, hq, h.items, BoundedQueue.items_cycle]
  | rst level =>
    cases level with
    | true => exact ⟨rfl, hs, h.items⟩
    | false =>
      have hz : (s.step (.rst false)).ctrl.rstN = .zero := by
        rw [ctrl_step]
        simp only [FifoCtrl.step]
        split_ifs with hz
        · exact hz
        · rfl
      exact ⟨hz, hs, contents_of_cleared _ (hs.cleared hz)⟩

theorem refines_run (hp : p.depth = 2 ^ p.addrWidth) (s : FifoTop p)
    (events : List (Event p.dataWidth)) :
    (s.resetRun events).Refines (run QueueSpec.step .start events) :=
  run_simulation s.refines_start (fun _ _ e h => h.step hp e) events

lemma Refines.flags (hp : p.depth = 2 ^ p.addrWidth) {q : QueueSpec p} (h : s.Refines q) :
    (s.empty = .one ↔ q.queue.items = []) ∧
      (s.full = .one ↔ q.queue.items.length = p.depth) := by
  rw [empty_iff_contents, full_iff_contents, h.items, ← hp]
  exact ⟨Iff.rfl, Iff.rfl⟩

lemma Refines.rdData {q : QueueSpec p} (h : s.Refines q) (hne : q.queue.items ≠ []) :
    s.rdData = q.queue.items.head hne := by
  rw [rdData_eq_head s (by rwa [h.items])]
  simp only [h.items]

lemma Refines.items_edge {q : QueueSpec p} (h : s.Refines q) (ho : s.ctrl.rstN = .one)
    (pins : Pins p.dataWidth) : (q.step (.edge pins)).queue.items =
      (if pins.rdEn = .one ∧ q.queue.items ≠ [] then q.queue.items.tail else q.queue.items) ++
      (if pins.wrEn = .one ∧ q.queue.items.length ≠ p.depth then [pins.wrData] else []) := by
  have hq : (q.step (.edge pins)).queue = q.queue.cycle pins.push pins.pop := by
    simp [QueueSpec.step, ← h.level, ho]
  have hb := q.queue.bound
  have hlt : q.queue.items.length < p.depth ↔ q.queue.items.length ≠ p.depth := by omega
  rw [hq, BoundedQueue.items_cycle]
  congr 1
  · cases hi : q.queue.items <;> simp [Pins.pop, Logic.isTrue_iff]
  · simp only [hlt, Pins.push, Logic.isTrue_iff]
    split_ifs <;> simp_all

theorem refines_bounded_queue (p : FifoParams) (k : ℕ) (_ : 1 ≤ k) (hp : p.depth = 2 ^ k)
    (s : FifoTop p) :
    ∃ Q : List (Event p.dataWidth) → BoundedQueue (Vec p.dataWidth) p.depth, Q [] = .nil ∧
      ∀ events, let t := s.resetRun events
        (t.ctrl.rstN = .zero ∧ Q events = .nil ∨ t.ctrl.rstN = .one ∧
          (t.empty = .one ↔ (Q events).items = []) ∧
          (t.full = .one ↔ (Q events).items.length = p.depth) ∧
          (∀ h : (Q events).items ≠ [], t.rdData = (Q events).items.head h) ∧
          ∀ pins, (Q (events ++ [.edge pins])).items =
            (if pins.rdEn = .one ∧ (Q events).items ≠ [] then (Q events).items.tail
              else (Q events).items) ++
            (if pins.wrEn = .one ∧ (Q events).items.length ≠ p.depth then [pins.wrData] else [])) ∧
        (∀ pins, t.ctrl.rstN = .zero → Q (events ++ [.edge pins]) = .nil) ∧
        Q (events ++ [.rst true]) = Q events ∧ Q (events ++ [.rst false]) = .nil := by
  have hd := p.depth_of_pow hp
  refine ⟨fun events => (run QueueSpec.step .start events).queue, rfl, fun events => ?_⟩
  have h := refines_run hd s events
  simp only [run_snoc]
  refine ⟨?_, fun pins hz => (h.step hd (.edge pins)).cleared hz, rfl, rfl⟩
  rcases h.sound.level with hz | ho
  · exact Or.inl ⟨hz, h.cleared hz⟩
  · exact Or.inr ⟨ho, (h.flags hd).1, (h.flags hd).2, h.rdData, h.items_edge ho⟩

theorem refines_bounded_queue_tb :
    (FifoTop.resetRun (p := .tb) ⟨⟨.x, 5, 3⟩, fun _ => .allX⟩
      [.rst true, .edge ⟨.one, .ofBits 72, .zero⟩]).rdData = .ofBits 72 := by
  obtain ⟨Q, hnil, h⟩ := refines_bounded_queue .tb 3 (by decide) rfl ⟨⟨.x, 5, 3⟩, fun _ => .allX⟩
  have hrst : Q [.rst true] = .nil := (h []).2.2.1.trans hnil
  rcases (h [.rst true]).1 with ⟨hz, _⟩ | ⟨_, _, _, _, hedge⟩
  · cases hz
  · have hq : (Q [.rst true, .edge ⟨.one, .ofBits 72, .zero⟩]).items = [.ofBits 72] := by
      apply (hedge ⟨.one, .ofBits 72, .zero⟩).trans
      rw [hrst]
      rfl
    rcases (h [.rst true, .edge ⟨.one, .ofBits 72, .zero⟩]).1 with ⟨hz, _⟩ | ⟨_, _, _, hhead, _⟩
    · cases hz
    · have hne : (Q [.rst true, .edge ⟨.one, .ofBits 72, .zero⟩]).items ≠ [] := by
        rw [hq]
        exact List.cons_ne_nil _ _
      apply (hhead hne).trans
      simp only [hq, List.head_cons]

end FifoTop

end VerilogEx.Fifo
