import VerilogEx.Fifo.Pointers

/-! The pointers of `fifo_ctrl` wrap at `2 ^ addrWidth` whatever the depth, so the
FIFO honours its depth for the powers of two and, for any other depth, in the runs
that never bring the write pointer to an address outside the memory. -/

namespace VerilogEx.Fifo

open Hdl Queues

namespace FifoTop

variable {p : FifoParams}

structure Honours (c : FifoCtrl p.addrWidth) (n : Counts) : Prop where
  capacity : n.writes ≤ n.reads + p.depth
  full : c.full = .one ↔ n.writes = n.reads + p.depth

structure InRange (c : FifoCtrl p.addrWidth) (pins : Pins p.dataWidth) : Prop where
  write : c.wrValid pins.wrEn = .one → c.wrAddr.toNat < p.depth
  read : c.rdValid pins.rdEn = .one → c.rdAddr.toNat < p.depth

def HonoursDepth (s : FifoTop p) (events : List (Event p.dataWidth)) : Prop :=
  ∀ pre, pre <+: events →
    Honours (s.resetRun pre).ctrl (FifoCtrl.countedRun p.addrWidth pre).2 ∧
      ∀ pins, pre ++ [.edge pins] <+: events → InRange (s.resetRun pre).ctrl pins

/-- The write pointer stands just past the memory, with every word since the reset still
unread or with a further write requested. -/
def Strays (s : FifoTop p) (events : List (Event p.dataWidth)) : Prop :=
  ∃ pre, pre <+: events ∧ (s.resetRun pre).ctrl.wrPtr.toNat = p.depth ∧
    ((s.resetRun pre).ctrl.rdPtr = 0 ∨
      ∃ pins, pre ++ [.edge pins] <+: events ∧ pins.wrEn = .one)

section

variable {c : FifoCtrl p.addrWidth × Counts}

open FifoCtrl

lemma honours_of_pow (h : Tallied c) (hp : p.depth = 2 ^ p.addrWidth) : Honours c.1 c.2 := by
  have ht := h.total
  have hb := h.sound.bound
  refine ⟨by omega, ?_⟩
  rw [h.full_iff, hp]

lemma inRange_of_pow (c : FifoCtrl p.addrWidth) (hp : p.depth = 2 ^ p.addrWidth)
    (pins : Pins p.dataWidth) : InRange c pins := by
  refine ⟨fun _ => ?_, fun _ => ?_⟩
  · rw [hp]
    exact c.wrAddr.isLt
  · rw [hp]
    exact c.rdAddr.isLt

lemma toNat_of_fits (h : Tallied c) (hd : p.depth < 2 ^ p.addrWidth) (hw : c.2.writes ≤ p.depth) :
    c.1.wrPtr.toNat = c.2.writes ∧ c.1.rdPtr.toNat = c.2.reads ∧
      c.1.wrAddr.toNat = c.2.writes ∧ c.1.rdAddr.toNat = c.2.reads := by
  have ht := h.total
  have hp : 2 ^ (p.addrWidth + 1) = 2 ^ p.addrWidth + 2 ^ p.addrWidth := by ring
  have hwp : c.1.wrPtr.toNat = c.2.writes := by
    rw [h.wrPtr, BitVec.toNat_ofNat, Nat.mod_eq_of_lt (by omega)]
  have hrp : c.1.rdPtr.toNat = c.2.reads := by
    rw [h.rdPtr, BitVec.toNat_ofNat, Nat.mod_eq_of_lt (by omega)]
  refine ⟨hwp, hrp, ?_, ?_⟩
  · rw [wrAddr, BitVec.toNat_setWidth, hwp, Nat.mod_eq_of_lt (by omega)]
  · rw [rdAddr, BitVec.toNat_setWidth, hrp, Nat.mod_eq_of_lt (by omega)]

end

open FifoCtrl in
lemma fits_of_not_strays {s : FifoTop p} {events : List (Event p.dataWidth)}
    (hd : p.depth < 2 ^ p.addrWidth) (hs : ¬s.Strays events) (pre : List (Event p.dataWidth))
    (hpre : pre <+: events) :
    (countedRun p.addrWidth pre).2.writes ≤ p.depth := by
  induction pre using List.reverseRecOn with
  | nil => exact Nat.zero_le _
  | append_singleton pre e ih =>
    have hle := ih ((List.prefix_append pre [e]).trans hpre)
    have ht := tallied_run p.addrWidth pre
    have hp := toNat_of_fits ht hd hle
    have hrun : countedRun p.addrWidth (pre ++ [e]) = countedStep (countedRun _ pre) e :=
      run_snoc _ _ _ _
    rw [hrun]
    cases e with
    | rst level => cases level <;> simp [countedStep, Counts.step, Counts.zero, hle]
    | edge pins =>
      simp only [countedStep, Counts.step]
      split_ifs
      · exact Nat.zero_le _
      · cases hw : ((countedRun p.addrWidth pre).1.wrValid pins.wrEn).isTrue
        · simpa using hle
        · have hone := ((wrValid_one _ _).mp ((Logic.isTrue_iff _).mp hw)).1
          have hne : (countedRun p.addrWidth pre).2.writes ≠ p.depth := by
            intro he
            apply hs ⟨pre, (List.prefix_append pre _).trans hpre, ?_, Or.inr ⟨pins, hpre, hone⟩⟩
            rw [ctrl_resetRun, hp.1, he]
          simp only [Bool.toNat_true]
          omega

open FifoCtrl in
lemma honoursDepth_of_not_strays {s : FifoTop p} {events : List (Event p.dataWidth)}
    (hd : p.depth < 2 ^ p.addrWidth) (hs : ¬s.Strays events) : s.HonoursDepth events := by
  intro pre hpre
  have hle := fits_of_not_strays hd hs pre hpre
  have ht := tallied_run p.addrWidth pre
  have htot := ht.total
  obtain ⟨hwp, hrp, hwa, hra⟩ := toNat_of_fits ht hd hle
  rw [ctrl_resetRun]
  refine ⟨⟨by omega, ?_⟩, fun pins hpins => ⟨fun hv => ?_, fun hv => ?_⟩⟩
  · -- Neither side can hold: the first needs more words than were written.
    rw [ht.full_iff]
    refine ⟨fun h => by omega, fun h => ?_⟩
    refine (hs ⟨pre, hpre, ?_, Or.inl ?_⟩).elim
    · rw [ctrl_resetRun]
      omega
    · have hz : (countedRun p.addrWidth pre).2.reads = 0 := by omega
      rw [ctrl_resetRun, ht.rdPtr, hz]
      rfl
  · have hne : (countedRun p.addrWidth pre).2.writes ≠ p.depth := by
      intro he
      apply hs ⟨pre, hpre, ?_, Or.inr ⟨pins, hpins, ((wrValid_one _ _).mp hv).1⟩⟩
      rw [ctrl_resetRun, hwp, he]
    omega
  · have hne : (countedRun p.addrWidth pre).1.wrPtr.toNat ≠
        (countedRun p.addrWidth pre).1.rdPtr.toNat :=
      fun he => ((rdValid_one _ _).mp hv).2 (BitVec.eq_of_toNat_eq he)
    omega

open FifoCtrl in
lemma not_strays_of_honoursDepth {s : FifoTop p} {events : List (Event p.dataWidth)}
    (hd : p.depth < 2 ^ p.addrWidth) (h : s.HonoursDepth events) : ¬s.Strays events := by
  rintro ⟨pre, hpre, hw, hcase⟩
  have ht := tallied_run p.addrWidth pre
  obtain ⟨hh, hr⟩ := h pre hpre
  have hp : 2 ^ (p.addrWidth + 1) = 2 ^ p.addrWidth + 2 ^ p.addrWidth := by ring
  have hfull := hh.full
  rw [ctrl_resetRun] at hw hcase hr hfull
  -- The depth is below the capacity of the pointers, so `full` never meets it.
  have hnot : ¬(countedRun p.addrWidth pre).1.full = .one := by
    intro hf
    have hn := hfull.mp hf
    rw [ht.full_iff] at hf
    omega
  rcases hcase with hz | ⟨pins, hpins, hone⟩
  · have hc : count (countedRun p.addrWidth pre).1.wrPtr
        (countedRun p.addrWidth pre).1.rdPtr = p.depth := by
      rw [hz]
      simpa [count] using hw
    have htot := ht.total
    exact hnot (hfull.mpr (by omega))
  · have hlt := (hr pins hpins).write ((wrValid_one _ _).mpr ⟨hone, hnot⟩)
    rw [wrAddr, BitVec.toNat_setWidth, hw, Nat.mod_eq_of_lt hd] at hlt
    omega

def write (w : ℕ) : Event w := .edge ⟨.one, .allX, .zero⟩

def fill (w n : ℕ) : List (Event w) := .rst true :: List.replicate n (write w)

open FifoCtrl in
lemma counts_fill (p : FifoParams) {n : ℕ} (hn : n ≤ 2 ^ p.addrWidth) :
    (countedRun p.addrWidth (fill p.dataWidth n)).1.rstN = .one ∧
      (countedRun p.addrWidth (fill p.dataWidth n)).2 = ⟨n, 0⟩ := by
  induction n with
  | zero => exact ⟨rfl, rfl⟩
  | succ n ih =>
    obtain ⟨hr, hc⟩ := ih (by omega)
    have hrun : countedRun p.addrWidth (fill p.dataWidth (n + 1)) =
        countedStep (countedRun _ (fill p.dataWidth n)) (write p.dataWidth) := by
      rw [fill, List.replicate_succ', ← List.cons_append]
      exact run_snoc _ _ _ _
    have ht := tallied_run p.addrWidth (fill p.dataWidth n)
    have hfull : ¬(countedRun p.addrWidth (fill p.dataWidth n)).1.full = .one := by
      rw [ht.full_iff, hc]
      dsimp only
      omega
    have hw : ((countedRun p.addrWidth (fill p.dataWidth n)).1.wrValid .one).isTrue =
        true := by
      rw [Logic.isTrue_iff, wrValid_one]
      exact ⟨rfl, hfull⟩
    rw [hrun]
    refine ⟨hr, ?_⟩
    simp only [countedStep, Counts.step, write, hr, hc, hw, isTrue_rdValid]
    rfl

lemma strays_fill (s : FifoTop p) (hd : p.depth < 2 ^ p.addrWidth) :
    s.Strays (fill p.dataWidth p.depth) := by
  obtain ⟨_, hc⟩ := counts_fill p p.depth_le
  have ht := FifoCtrl.tallied_run p.addrWidth (fill p.dataWidth p.depth)
  have hw := toNat_of_fits ht hd (by rw [hc])
  refine ⟨fill p.dataWidth p.depth, List.prefix_rfl, ?_, Or.inl ?_⟩
  · rw [ctrl_resetRun, hw.1, hc]
  · rw [ctrl_resetRun, ht.rdPtr, hc]
    rfl

theorem depth_honoured_iff (p : FifoParams) :
    (∀ (s : FifoTop p) (events : List (Event p.dataWidth)),
      s.HonoursDepth events ↔ (∃ k, p.depth = 2 ^ k) ∨ ¬s.Strays events) ∧
    ((∀ (s : FifoTop p) (events : List (Event p.dataWidth)), s.HonoursDepth events) ↔
      ∃ k, p.depth = 2 ^ k) := by
  have hpow : (∃ k, p.depth = 2 ^ k) → ∀ (s : FifoTop p) events, s.HonoursDepth events := by
    rintro ⟨k, hk⟩ s events pre _
    rw [ctrl_resetRun]
    exact ⟨honours_of_pow (FifoCtrl.tallied_run _ pre) (p.depth_of_pow hk),
      fun pins _ => inRange_of_pow _ (p.depth_of_pow hk) pins⟩
  refine ⟨fun s events => ⟨fun h => ?_, ?_⟩, fun h => ?_, hpow⟩
  · by_cases hk : ∃ k, p.depth = 2 ^ k
    · exact Or.inl hk
    · exact Or.inr (not_strays_of_honoursDepth (p.depth_lt hk) h)
  · rintro (hk | hs)
    · exact hpow hk s events
    · by_cases hk : ∃ k, p.depth = 2 ^ k
      · exact hpow hk s events
      · exact honoursDepth_of_not_strays (p.depth_lt hk) hs
  · by_contra hk
    let s : FifoTop p := ⟨⟨.x, 0, 0⟩, fun _ => .allX⟩
    exact not_strays_of_honoursDepth (p.depth_lt hk) (h s _) (s.strays_fill (p.depth_lt hk))

def depthThree : FifoParams where
  dataWidth := 16
  depth := 3
  addrWidth := 2
  dataWidth_pos := by decide
  depth_ge := by decide
  addrWidth_eq := by decide

theorem depth_three_loses_word : ¬∀ (p : FifoParams) (s : FifoTop p)
    (events : List (Event p.dataWidth)), s.HonoursDepth events := by
  intro h
  let word (n : ℕ) : Event 16 := .edge ⟨.one, .ofBits (.ofNat 16 n), .zero⟩
  have hr := (h depthThree ⟨⟨.x, 0, 0⟩, fun _ => .allX⟩
    [.rst true, word 65, word 66, word 67, word 68]
    [.rst true, word 65, word 66, word 67] ⟨[word 68], rfl⟩).2
    ⟨.one, .ofBits 68, .zero⟩ List.prefix_rfl
  exact absurd (hr.write (by decide)) (by decide)

end FifoTop

end VerilogEx.Fifo
