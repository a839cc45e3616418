import VerilogEx.Fifo.Refinement

/-! Schedules that issue the same writes and the same number of reads, none of them
rejected, read the same words and end in the same state. -/

namespace VerilogEx.Fifo

open Hdl Queues

section

variable {w : ℕ}

def writes (schedule : List (Pins w)) : List (Vec w) := schedule.filterMap Pins.push

def reads (schedule : List (Pins w)) : ℕ := schedule.countP Pins.pop

@[simp] lemma writes_nil : writes ([] : List (Pins w)) = [] := rfl

@[simp] lemma reads_nil : reads ([] : List (Pins w)) = 0 := rfl

lemma writes_cons (pins : Pins w) (schedule : List (Pins w)) :
    writes (pins :: schedule) = pins.push.toList ++ writes schedule := by
  unfold writes
  rw [List.filterMap_cons]
  cases pins.push <;> rfl

lemma reads_cons (pins : Pins w) (schedule : List (Pins w)) :
    reads (pins :: schedule) = pins.pop.toNat + reads schedule := by
  unfold reads
  rw [List.countP_cons, Nat.add_comm]
  cases pins.pop <;> rfl

end

namespace FifoTop

variable {p : FifoParams}

def Accepted (s : FifoTop p) : List (Pins p.dataWidth) → Prop
  | [] => True
  | pins :: schedule => (pins.wrEn = .one → s.full ≠ .one) ∧ (pins.rdEn = .one → s.empty ≠ .one) ∧
      Accepted (s.step (.edge pins)) schedule

def observed (s : FifoTop p) : List (Pins p.dataWidth) → List (Vec p.dataWidth)
  | [] => []
  | pins :: schedule =>
    (if pins.rdEn = .one then [s.rdData] else []) ++ observed (s.step (.edge pins)) schedule

def store {k : ℕ} (regs : RegisterFile p.depth p.dataWidth) (wr : BitVec (k + 1)) :
    List (Vec p.dataWidth) → RegisterFile p.depth p.dataWidth
  | [] => regs
  | v :: vs => store (Memory.write regs (wr.setWidth k).toNat v) (wr + 1) vs

variable {s : FifoTop p}

lemma Accepted.pointers {pins : Pins p.dataWidth} {schedule : List (Pins p.dataWidth)}
    (h : s.Accepted (pins :: schedule)) (hr : s.ctrl.rstN = .one) :
    (s.step (.edge pins)).ctrl =
      { rstN := .one
        wrPtr := s.ctrl.wrPtr + BitVec.ofNat _ pins.push.toList.length
        rdPtr := s.ctrl.rdPtr + BitVec.ofNat _ pins.pop.toNat } := by
  obtain ⟨hw, hd, _⟩ := h
  rw [ctrl_step, FifoCtrl.step_high _ pins hr]
  have hfull : pins.wrEn.isTrue = true → count s.ctrl.wrPtr s.ctrl.rdPtr ≠ 2 ^ p.addrWidth :=
    fun ht he => hw ((Logic.isTrue_iff _).mp ht) (s.ctrl.full_iff.mpr he)
  have hempty : pins.rdEn.isTrue = true → s.ctrl.wrPtr ≠ s.ctrl.rdPtr :=
    fun ht he => hd ((Logic.isTrue_iff _).mp ht) (s.ctrl.empty_iff.mpr he)
  congr 1
  · cases ht : pins.wrEn.isTrue
    · simp [Pins.push, ht]
    · simp [Pins.push, ht, hfull ht]
  · cases ht : pins.rdEn.isTrue
    · simp [Pins.pop, ht]
    · simp [Pins.pop, ht, hempty ht]

lemma ofNat_length_append {n : ℕ} (xs ys : List (Vec p.dataWidth)) :
    BitVec.ofNat n (xs ++ ys).length = BitVec.ofNat n xs.length + BitVec.ofNat n ys.length := by
  rw [List.length_append, BitVec.ofNat_add]

lemma Accepted.run_pointers {schedule : List (Pins p.dataWidth)} (h : s.Accepted schedule)
    (hr : s.ctrl.rstN = .one) : (run step s (schedule.map .edge)).ctrl =
      { rstN := .one
        wrPtr := s.ctrl.wrPtr + BitVec.ofNat _ (writes schedule).length
        rdPtr := s.ctrl.rdPtr + BitVec.ofNat _ (reads schedule) } := by
  induction schedule generalizing s with
  | nil => simp [← hr]
  | cons pins schedule ih =>
    have hc := h.pointers hr
    rw [List.map_cons, run_cons, ih h.2.2 (by rw [hc]), hc, writes_cons, reads_cons,
      ofNat_length_append, BitVec.ofNat_add]
    simp only [BitVec.add_assoc]

lemma Accepted.regs_edge {pins : Pins p.dataWidth} {schedule : List (Pins p.dataWidth)}
    (h : s.Accepted (pins :: schedule)) :
    (s.step (.edge pins)).regs = store s.regs s.ctrl.wrPtr pins.push.toList := by
  have hfull : pins.wrEn.isTrue = true → count s.ctrl.wrPtr s.ctrl.rdPtr ≠ 2 ^ p.addrWidth :=
    fun ht he => h.1 ((Logic.isTrue_iff _).mp ht) (s.ctrl.full_iff.mpr he)
  change RegisterFile.alwaysFf _ _ _ _ = _
  cases ht : pins.wrEn.isTrue
  · simp [RegisterFile.alwaysFf, Pins.push, ht, store]
  · simp [RegisterFile.alwaysFf, Pins.push, ht, store, hfull ht, FifoCtrl.wrAddr]

lemma store_append {k : ℕ} (regs : RegisterFile p.depth p.dataWidth) (wr : BitVec (k + 1))
    (xs ys : List (Vec p.dataWidth)) : store regs wr (xs ++ ys) =
      store (store regs wr xs) (wr + BitVec.ofNat _ xs.length) ys := by
  induction xs generalizing regs wr with
  | nil => simp [store]
  | cons x xs ih =>
    have he : wr + 1 + BitVec.ofNat (k + 1) xs.length = wr + BitVec.ofNat _ (xs.length + 1) := by
      rw [BitVec.add_assoc, BitVec.ofNat_add, BitVec.add_comm 1]
      rfl
    simp only [List.cons_append, store, ih, List.length_cons, he]

lemma Accepted.run_regs {schedule : List (Pins p.dataWidth)} (h : s.Accepted schedule)
    (hr : s.ctrl.rstN = .one) : (run step s (schedule.map .edge)).regs =
      store s.regs s.ctrl.wrPtr (writes schedule) := by
  induction schedule generalizing s with
  | nil => rfl
  | cons pins schedule ih =>
    have hc := h.pointers hr
    rw [List.map_cons, run_cons, ih h.2.2 (by rw [hc]), h.regs_edge, hc, writes_cons, store_append]

lemma Accepted.contents_edge {pins : Pins p.dataWidth} {schedule : List (Pins p.dataWidth)}
    (h : s.Accepted (pins :: schedule)) (hp : p.depth = 2 ^ p.addrWidth) (hs : s.ctrl.Sound)
    (hr : s.ctrl.rstN = .one) : (s.step (.edge pins)).contents =
      (if pins.pop then s.contents.tail else s.contents) ++ pins.push.toList := by
  rw [FifoTop.contents_edge hp hs hr]
  congr 1
  cases ht : pins.wrEn.isTrue
  · simp [Pins.push, ht]
  · have hne : s.contents.length ≠ 2 ^ p.addrWidth := fun he =>
      h.1 ((Logic.isTrue_iff _).mp ht) (s.full_iff_contents.mpr he)
    have hb := hs.bound
    rw [← length_contents] at hb
    rw [if_pos (by omega)]

lemma Accepted.observed_eq {schedule : List (Pins p.dataWidth)} (h : s.Accepted schedule)
    (hp : p.depth = 2 ^ p.addrWidth) (hs : s.ctrl.Sound) (hr : s.ctrl.rstN = .one) :
    s.observed schedule = (s.contents ++ writes schedule).take (reads schedule) := by
  induction schedule generalizing s with
  | nil => simp [observed]
  | cons pins schedule ih =>
    have hc := h.pointers hr
    have hs' : (s.step (.edge pins)).ctrl.Sound := by
      rw [ctrl_step]
      exact hs.edge pins
    rw [observed, ih h.2.2 hs' (by rw [hc]), h.contents_edge hp hs hr, writes_cons, reads_cons]
    cases ht : pins.pop
    · have hrd : pins.rdEn ≠ .one := fun he => by simp [Pins.pop, he, Logic.isTrue] at ht
      simp [hrd]
    · have hrd : pins.rdEn = .one := (Logic.isTrue_iff _).mp ht
      have hne : s.contents ≠ [] := fun he => h.2.1 hrd (s.empty_iff_contents.mpr he)
      obtain ⟨v, vs, hv⟩ := List.exists_cons_of_ne_nil hne
      have hhead : s.rdData = v := by
        rw [rdData_eq_head s hne]
        simp only [hv, List.head_cons]
      simp [hrd, hhead, hv, Nat.add_comm 1]

theorem interleaving_independent (p : FifoParams) (k : ℕ) (_ : 1 ≤ k) (hp : p.depth = 2 ^ k)
    (s : FifoTop p) (events : List (Event p.dataWidth))
    (hr : (s.resetRun events).ctrl.rstN = .one) (words : List (Vec p.dataWidth)) (n : ℕ)
    (σ τ : List (Pins p.dataWidth)) (hσ : (s.resetRun events).Accepted σ)
    (hτ : (s.resetRun events).Accepted τ) (hwσ : writes σ = words) (hwτ : writes τ = words)
    (hnσ : reads σ = n) (hnτ : reads τ = n) :
    (s.resetRun events).observed σ = (s.resetRun events).observed τ ∧
      (s.resetRun (events ++ σ.map .edge)).ctrl.wrPtr =
        (s.resetRun (events ++ τ.map .edge)).ctrl.wrPtr ∧
      (s.resetRun (events ++ σ.map .edge)).ctrl.rdPtr =
        (s.resetRun (events ++ τ.map .edge)).ctrl.rdPtr ∧
      (s.resetRun (events ++ σ.map .edge)).regs = (s.resetRun (events ++ τ.map .edge)).regs := by
  have hd := p.depth_of_pow hp
  have hs := s.sound_run events
  have happ : ∀ schedule : List (Pins p.dataWidth), s.resetRun (events ++ schedule.map .edge) =
      run step (s.resetRun events) (schedule.map .edge) := fun schedule => run_append _ _ _ _
  rw [happ, happ, hσ.run_pointers hr, hτ.run_pointers hr, hσ.run_regs hr, hτ.run_regs hr,
    hσ.observed_eq hd hs hr, hτ.observed_eq hd hs hr, hwσ, hwτ, hnσ, hnτ]
  exact ⟨rfl, rfl, rfl, rfl⟩

theorem interleaving_independent_tb :
    (resetRun (p := .tb) ⟨⟨.x, 0, 0⟩, fun _ => .allX⟩ ([.rst true] ++
        [⟨.one, .ofBits 7, .zero⟩, ⟨.one, .ofBits 8, .one⟩].map .edge)).regs =
      (resetRun (p := .tb) ⟨⟨.x, 0, 0⟩, fun _ => .allX⟩ ([.rst true] ++
        [⟨.one, .ofBits 7, .zero⟩, ⟨.zero, .allX, .one⟩, ⟨.one, .ofBits 8, .zero⟩].map .edge)).regs :=
  (interleaving_independent .tb 3 (by decide) rfl ⟨⟨.x, 0, 0⟩, fun _ => .allX⟩ [.rst true] rfl
    [.ofBits 7, .ofBits 8] 1
    [⟨.one, .ofBits 7, .zero⟩, ⟨.one, .ofBits 8, .one⟩]
    [⟨.one, .ofBits 7, .zero⟩, ⟨.zero, .allX, .one⟩, ⟨.one, .ofBits 8, .zero⟩]
    (by simp [Accepted]; decide) (by simp [Accepted]; decide) rfl rfl rfl rfl).2.2.2

end FifoTop

end VerilogEx.Fifo
