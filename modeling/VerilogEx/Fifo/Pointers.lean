import VerilogEx.Fifo.Rtl
import VerilogEx.Queues.Ring

/-! What the pointers of `fifo_ctrl` mean: the flags, one step and every run. -/

namespace VerilogEx.Fifo

open Hdl Queues

namespace FifoParams

variable (p : FifoParams)

lemma depth_of_pow {k : ℕ} (h : p.depth = 2 ^ k) : p.depth = 2 ^ p.addrWidth := by
  have hk : p.addrWidth = k := by
    rw [p.addrWidth_eq, h]
    exact Nat.clog_pow 2 k (by omega)
  rw [hk, h]

lemma depth_le : p.depth ≤ 2 ^ p.addrWidth := by
  rw [p.addrWidth_eq]
  exact Nat.le_pow_clog (by omega) _

lemma depth_lt (h : ¬∃ k, p.depth = 2 ^ k) : p.depth < 2 ^ p.addrWidth :=
  lt_of_le_of_ne p.depth_le fun he => h ⟨_, he⟩

end FifoParams

namespace Pins

variable {w : ℕ} (pins : Pins w)

def push : Option (Vec w) := if pins.wrEn.isTrue then some pins.wrData else none

def pop : Bool := pins.rdEn.isTrue

@[simp] lemma isSome_push : pins.push.isSome = pins.wrEn.isTrue := by
  unfold push
  split_ifs with h <;> simp [h]

end Pins

namespace FifoCtrl

variable {addrWidth w : ℕ} {α : Type*} (c : FifoCtrl addrWidth)

lemma empty_eq : c.empty = .ofBool (decide (c.wrPtr = c.rdPtr)) := rfl

lemma full_eq : c.full = .ofBool (decide (count c.wrPtr c.rdPtr = 2 ^ addrWidth)) := by
  simp [full, Logic.and_ofBool, count_eq_capacity, Bool.decide_and, bne, beq_eq_decide]

lemma empty_iff : c.empty = .one ↔ c.wrPtr = c.rdPtr := by simp [empty_eq]

lemma full_iff : c.full = .one ↔ count c.wrPtr c.rdPtr = 2 ^ addrWidth := by simp [full_eq]

@[simp] lemma isTrue_wrValid (wrEn : Logic) : (c.wrValid wrEn).isTrue =
    (wrEn.isTrue && !decide (count c.wrPtr c.rdPtr = 2 ^ addrWidth)) := by
  simp [wrValid, full_eq]

@[simp] lemma isTrue_rdValid (rdEn : Logic) :
    (c.rdValid rdEn).isTrue = (rdEn.isTrue && !decide (c.wrPtr = c.rdPtr)) := by
  simp [rdValid, empty_eq]

lemma wrValid_one (wrEn : Logic) : c.wrValid wrEn = .one ↔ wrEn = .one ∧ c.full ≠ .one := by
  rw [← Logic.isTrue_iff, isTrue_wrValid, ne_eq, full_iff, ← Logic.isTrue_iff]
  simp

lemma rdValid_one (rdEn : Logic) : c.rdValid rdEn = .one ↔ rdEn = .one ∧ c.wrPtr ≠ c.rdPtr := by
  rw [← Logic.isTrue_iff, isTrue_rdValid, ← Logic.isTrue_iff]
  simp

structure Sound : Prop where
  level : c.rstN = .zero ∨ c.rstN = .one
  cleared : c.rstN = .zero → c.wrPtr = 0 ∧ c.rdPtr = 0
  bound : count c.wrPtr c.rdPtr ≤ 2 ^ addrWidth

def ring (mem : BitVec addrWidth → α) : Ring addrWidth α := ⟨mem, c.wrPtr, c.rdPtr⟩

@[simp] lemma step_rstN (pins : Pins w) : (c.step (.edge pins)).rstN = c.rstN := rfl

lemma step_low (pins : Pins w) (h : c.rstN = .zero) :
    c.step (.edge pins) = { rstN := .zero, wrPtr := 0, rdPtr := 0 } := by
  simp [step, wrPtrFf, rdPtrFf, h]

lemma step_high (pins : Pins w) (h : c.rstN = .one) : c.step (.edge pins) =
    { rstN := .one
      wrPtr := if (c.wrValid pins.wrEn).isTrue then c.wrPtr + 1 else c.wrPtr
      rdPtr := if (c.rdValid pins.rdEn).isTrue then c.rdPtr + 1 else c.rdPtr } := by
  simp [step, wrPtrFf, rdPtrFf, h]

variable {c}

lemma Sound.eq_of_low (h : c.Sound) (hz : c.rstN = .zero) :
    c = { rstN := .zero, wrPtr := 0, rdPtr := 0 } := by
  obtain ⟨hw, hd⟩ := h.cleared hz
  cases c
  subst hz hw hd
  rfl

lemma Sound.lt_iff (h : c.Sound) :
    count c.wrPtr c.rdPtr < 2 ^ addrWidth ↔ ¬count c.wrPtr c.rdPtr = 2 ^ addrWidth := by
  have hb := h.bound
  omega

lemma Sound.step_ring (h : c.Sound) (hr : c.rstN = .one) (mem : BitVec addrWidth → α)
    (pins : Pins w) {v : Option α} (hv : v.isSome = pins.wrEn.isTrue) :
    (c.step (.edge pins)).wrPtr = ((c.ring mem).cycle v pins.pop).wr ∧
      (c.step (.edge pins)).rdPtr = ((c.ring mem).cycle v pins.pop).rd := by
  rw [step_high c pins hr]
  exact ⟨if_congr (by simp [ring, hv, h.lt_iff]) rfl rfl,
    if_congr (by simp [ring, Pins.pop]) rfl rfl⟩

lemma Sound.count_step (h : c.Sound) (hr : c.rstN = .one) (pins : Pins w) :
    count (c.step (.edge pins)).wrPtr (c.step (.edge pins)).rdPtr +
        (c.rdValid pins.rdEn).isTrue.toNat =
      count c.wrPtr c.rdPtr + (c.wrValid pins.wrEn).isTrue.toNat := by
  have hb := h.bound
  have hk := two_pow_pos addrWidth
  have hp : 2 ^ (addrWidth + 1) = 2 ^ addrWidth + 2 ^ addrWidth := by ring
  have hpop : (c.rdValid pins.rdEn).isTrue = true → c.wrPtr ≠ c.rdPtr := by
    simp only [isTrue_rdValid, Bool.and_eq_true, Bool.not_eq_true', decide_eq_false_iff_not]
    exact And.right
  have hpush : (c.wrValid pins.wrEn).isTrue = true →
      count (c.wrPtr + 1) c.rdPtr = count c.wrPtr c.rdPtr + 1 := by
    simp only [isTrue_wrValid, Bool.and_eq_true, Bool.not_eq_true', decide_eq_false_iff_not]
    intro hw
    exact count_succ_left (by omega)
  have hz : c.wrPtr ≠ c.rdPtr → count c.wrPtr c.rdPtr ≠ 0 := fun hne he => hne (count_eq_zero.mp he)
  rw [step_high c pins hr]
  cases hw : (c.wrValid pins.wrEn).isTrue <;> cases hd : (c.rdValid pins.rdEn).isTrue
  · simp
  · have hne := hpop hd
    have hpos := hz hne
    simp only [if_true, Bool.false_eq_true, if_false, count_succ_right hne, Bool.toNat_true,
      Bool.toNat_false]
    omega
  · simpa using hpush hw
  · have hne : c.wrPtr + 1 ≠ c.rdPtr := by
      intro he
      have hc := hpush hw
      rw [he, count_self] at hc
      omega
    simp only [if_true, count_succ_right hne, hpush hw]
    rfl

lemma Sound.edge (h : c.Sound) (pins : Pins w) : (c.step (.edge pins)).Sound := by
  rcases h.level with hz | ho
  · rw [step_low c pins hz]
    exact ⟨Or.inl rfl, fun _ => ⟨rfl, rfl⟩, by simp⟩
  · refine ⟨Or.inr ho, fun hz => ?_, ?_⟩
    · rw [step_rstN, ho] at hz
      cases hz
    · obtain ⟨hw, hd⟩ := h.step_ring ho (fun _ => ()) pins
        (v := if pins.wrEn.isTrue then some () else none) (by split_ifs <;> simp_all)
      rw [hw, hd]
      exact Ring.valid_cycle _ _ _ h.bound

lemma Sound.rst (h : c.Sound) (level : Bool) : (c.step (w := w) (.rst level)).Sound := by
  cases level with
  | true => exact ⟨Or.inr rfl, fun hz => (by cases hz), h.bound⟩
  | false =>
    by_cases hz : c.rstN = .zero
    · simpa [step, hz] using h
    · simp only [step, hz, if_false]
      exact ⟨Or.inl rfl, fun _ => ⟨rfl, rfl⟩, by simp⟩

lemma Sound.step (h : c.Sound) (e : Event w) : (c.step e).Sound := by
  cases e with
  | edge pins => exact h.edge pins
  | rst level => exact h.rst level

end FifoCtrl

structure Counts where
  writes : ℕ
  reads : ℕ

namespace Counts

variable {addrWidth w : ℕ}

def zero : Counts := ⟨0, 0⟩

def step (n : Counts) (c : FifoCtrl addrWidth) : Event w → Counts
  | .edge pins => if c.rstN = .zero then zero else
      { writes := n.writes + (c.wrValid pins.wrEn).isTrue.toNat
        reads := n.reads + (c.rdValid pins.rdEn).isTrue.toNat }
  | .rst true => n
  | .rst false => zero

end Counts

namespace FifoCtrl

variable {addrWidth w : ℕ}

def countedStep (s : FifoCtrl addrWidth × Counts) (e : Event w) : FifoCtrl addrWidth × Counts :=
  (s.1.step e, s.2.step s.1 e)

structure Tallied (s : FifoCtrl addrWidth × Counts) : Prop where
  sound : s.1.Sound
  wrPtr : s.1.wrPtr = BitVec.ofNat _ s.2.writes
  rdPtr : s.1.rdPtr = BitVec.ofNat _ s.2.reads
  total : s.2.writes = s.2.reads + count s.1.wrPtr s.1.rdPtr

lemma Tallied.full_iff {s : FifoCtrl addrWidth × Counts} (h : Tallied s) :
    s.1.full = .one ↔ s.2.writes = s.2.reads + 2 ^ addrWidth := by
  have ht := h.total
  rw [s.1.full_iff]
  omega

lemma ofNat_add_toNat {n : ℕ} (k : ℕ) (b : Bool) : BitVec.ofNat n (k + b.toNat) =
    if b then BitVec.ofNat n k + 1 else BitVec.ofNat n k := by
  cases b
  · rfl
  · exact BitVec.ofNat_add k 1

lemma tallied_cleared (level : Logic) (hl : level = .zero ∨ level = .one) :
    Tallied ((⟨level, 0, 0⟩, .zero) : FifoCtrl addrWidth × Counts) :=
  ⟨⟨hl, fun _ => ⟨rfl, rfl⟩, by simp⟩, rfl, rfl, by simp [Counts.zero]⟩

lemma Tallied.edge {s : FifoCtrl addrWidth × Counts} (h : Tallied s) (pins : Pins w) :
    Tallied (countedStep s (.edge pins)) := by
  rcases h.sound.level with hz | ho
  · have he : countedStep s (.edge pins) = (⟨.zero, 0, 0⟩, .zero) := by
      simp [countedStep, Counts.step, step_low _ pins hz, hz]
    rw [he]
    exact tallied_cleared _ (Or.inl rfl)
  · have hn : (countedStep s (.edge pins)).2 =
        { writes := s.2.writes + (s.1.wrValid pins.wrEn).isTrue.toNat
          reads := s.2.reads + (s.1.rdValid pins.rdEn).isTrue.toNat } := by
      simp [countedStep, Counts.step, ho]
    have hc := h.sound.count_step ho pins
    have ht := h.total
    refine ⟨h.sound.edge pins, ?_, ?_, ?_⟩
    · rw [hn, ofNat_add_toNat, ← h.wrPtr]
      simp [countedStep, step_high _ pins ho]
    · rw [hn, ofNat_add_toNat, ← h.rdPtr]
      simp [countedStep, step_high _ pins ho]
    · rw [hn]
      change _ = _ + count (s.1.step (.edge pins)).wrPtr (s.1.step (.edge pins)).rdPtr
      dsimp only
      omega

lemma Tallied.step {s : FifoCtrl addrWidth × Counts} (h : Tallied s) (e : Event w) :
    Tallied (countedStep s e) := by
  cases e with
  | edge pins => exact h.edge pins
  | rst level =>
    cases level with
    | true => exact ⟨h.sound.rst (w := w) true, h.wrPtr, h.rdPtr, h.total⟩
    | false =>
      have he : countedStep s (.rst false : Event w) = (⟨.zero, 0, 0⟩, .zero) := by
        simp only [countedStep, Counts.step, FifoCtrl.step]
        split_ifs with hz
        · rw [h.sound.eq_of_low hz]
        · rfl
      rw [he]
      exact tallied_cleared _ (Or.inl rfl)

variable (addrWidth)

def countedRun (events : List (Event w)) : FifoCtrl addrWidth × Counts :=
  run countedStep (⟨.zero, 0, 0⟩, .zero) events

theorem tallied_run (events : List (Event w)) : Tallied (countedRun addrWidth events) :=
  run_invariant (tallied_cleared _ (Or.inl rfl)) (fun _ e h => h.step e) events

lemma fst_countedRun (events : List (Event w)) :
    (countedRun addrWidth events).1 = run step ⟨.zero, 0, 0⟩ events :=
  run_simulation (R := fun (s : FifoCtrl addrWidth × Counts) c => s.1 = c) rfl
    (fun _ _ e h => congrArg (step · e) h) events

structure CountsCorrectly (c : FifoCtrl addrWidth) (n : Counts) : Prop where
  wrPtr : c.wrPtr.toNat = n.writes % 2 ^ (addrWidth + 1)
  rdPtr : c.rdPtr.toNat = n.reads % 2 ^ (addrWidth + 1)
  reads_le : n.reads ≤ n.writes
  writes_le : n.writes ≤ n.reads + 2 ^ addrWidth
  empty : c.empty = .one ↔ n.writes = n.reads
  full : c.full = .one ↔ n.writes = n.reads + 2 ^ addrWidth
  exclusive : ¬(c.full = .one ∧ c.empty = .one)
  acceptable : c.wrValid .one = .one ∨ c.rdValid .one = .one
  noOverwrite : ∀ wrEn, c.wrValid wrEn = .one →
    ∀ i, n.reads ≤ i → i < n.writes → c.wrAddr.toNat ≠ i % 2 ^ addrWidth

variable {addrWidth} {s : FifoCtrl addrWidth × Counts}

lemma Tallied.empty_iff (h : Tallied s) : s.1.empty = .one ↔ s.2.writes = s.2.reads := by
  have ht := h.total
  rw [s.1.empty_iff, ← count_eq_zero]
  omega

lemma Tallied.not_full_and_empty (h : Tallied s) : ¬(s.1.full = .one ∧ s.1.empty = .one) := by
  have hk := two_pow_pos addrWidth
  rw [h.full_iff, h.empty_iff]
  omega

lemma Tallied.acceptable (h : Tallied s) :
    s.1.wrValid .one = .one ∨ s.1.rdValid .one = .one := by
  by_cases hf : s.1.full = .one
  · apply Or.inr
    apply (s.1.rdValid_one _).mpr
    exact ⟨rfl, fun he => h.not_full_and_empty ⟨hf, s.1.empty_iff.mpr he⟩⟩
  · apply Or.inl
    exact (s.1.wrValid_one _).mpr ⟨rfl, hf⟩

lemma Tallied.wrAddr (h : Tallied s) : s.1.wrAddr.toNat = s.2.writes % 2 ^ addrWidth := by
  have hd : 2 ^ addrWidth ∣ 2 ^ (addrWidth + 1) := Nat.pow_dvd_pow 2 (Nat.le_succ addrWidth)
  rw [FifoCtrl.wrAddr, h.wrPtr, BitVec.toNat_setWidth, BitVec.toNat_ofNat]
  exact Nat.mod_mod_of_dvd _ hd

lemma Tallied.noOverwrite (h : Tallied s) {wrEn : Logic} (hv : s.1.wrValid wrEn = .one) {i : ℕ}
    (hr : s.2.reads ≤ i) (hw : i < s.2.writes) : s.1.wrAddr.toNat ≠ i % 2 ^ addrWidth := by
  have hf := ((s.1.wrValid_one _).mp hv).2
  have ht := h.total
  have hb := h.sound.bound
  rw [ne_eq, h.full_iff] at hf
  rw [h.wrAddr]
  exact mod_ne_mod hw (by omega)

theorem counts_forever (addrWidth : ℕ) (c : FifoCtrl addrWidth) (n : Counts)
    (events : List (Event w)) :
    let s := run countedStep ({ c with rstN := .x }, n) (.rst false :: events)
    CountsCorrectly addrWidth s.1 s.2 := by
  have h := tallied_run addrWidth events
  have ht := h.total
  have hb := h.sound.bound
  exact {
    wrPtr := by
      change (countedRun addrWidth events).1.wrPtr.toNat = _
      rw [h.wrPtr]
      rfl
    rdPtr := by
      change (countedRun addrWidth events).1.rdPtr.toNat = _
      rw [h.rdPtr]
      rfl
    reads_le := Nat.le.intro ht.symm
    writes_le := ht.trans_le (Nat.add_le_add_left hb _)
    empty := h.empty_iff
    full := h.full_iff
    exclusive := h.not_full_and_empty
    acceptable := h.acceptable
    noOverwrite := fun _ hv _ hr hw => h.noOverwrite hv hr hw }

end FifoCtrl

namespace FifoTop

variable {p : FifoParams} (s : FifoTop p)

lemma ctrl_step (e : Event p.dataWidth) : (s.step e).ctrl = s.ctrl.step e := by cases e <;> rfl

lemma ctrl_run (events : List (Event p.dataWidth)) :
    (run step s events).ctrl = run FifoCtrl.step s.ctrl events :=
  run_simulation (R := fun (t : FifoTop p) c => t.ctrl = c) rfl
    (fun t _ e h => h ▸ ctrl_step t e) events

lemma sound_inReset : s.inReset.ctrl.Sound := ⟨Or.inl rfl, fun _ => ⟨rfl, rfl⟩, by simp [inReset]⟩

lemma ctrl_resetRun (events : List (Event p.dataWidth)) :
    (s.resetRun events).ctrl = (FifoCtrl.countedRun p.addrWidth events).1 := by
  rw [FifoCtrl.fst_countedRun]
  exact ctrl_run s.inReset events

theorem sound_run (events : List (Event p.dataWidth)) : (s.resetRun events).ctrl.Sound := by
  rw [ctrl_resetRun]
  exact (FifoCtrl.tallied_run _ events).sound

end FifoTop

end VerilogEx.Fifo
