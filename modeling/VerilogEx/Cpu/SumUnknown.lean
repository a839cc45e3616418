import VerilogEx.Cpu.SumLoop

/-! The summing processor with unknown bits in its registers, as they are at power-up. -/

namespace VerilogEx.Cpu.Sum.DedicatedCpu

open Hdl ControlUnit

section

variable (c : BitVec 3) (a sum : Vec 8)

lemma aluResult_unknown : aluResult ⟨.ofBits c, a, sum⟩ =
    a.add (if c = 3#3 then sum else .ofBits 1) := by
  by_cases h : c = 3#3 <;> simp [aluResult, alusrcMuxout, mux2x1, alu, h]

lemma step_unknown : (⟨.ofBits c, a, sum⟩ : DedicatedCpu).step .one =
    ⟨nState (.ofBits c) (lt10 a),
      if c = 0#3 then .ofBits 0 else if c = 2#3 then a.add (.ofBits 1) else a,
      if c = 0#3 then .ofBits 0 else if c = 3#3 then a.add sum else sum⟩ := by
  have hr := aluResult_unknown c a sum
  ext1
  · rfl
  · simp only [step, asrcMuxout, hr, register, mux2x1]
    by_cases h2 : c = 2#3 <;> by_cases h0 : c = 0#3 <;> simp [h0, h2]
  · simp only [step, sumsrcMuxout, hr, register, mux2x1]
    by_cases h3 : c = 3#3 <;> by_cases h0 : c = 0#3 <;> simp [h0, h3]

lemma unknown_s0 : (⟨s0, a, sum⟩ : DedicatedCpu).step .one = holding s1 0 0 := step_unknown 0 a sum

lemma unknown_s1 : (⟨s1, a, sum⟩ : DedicatedCpu).step .one =
    ⟨if (lt10 a).isTrue then s2 else s4, a, sum⟩ := step_unknown 1 a sum

lemma unknown_s2 : (⟨s2, a, sum⟩ : DedicatedCpu).step .one = ⟨s3, a.add (.ofBits 1), sum⟩ :=
  step_unknown 2 a sum

lemma unknown_s3 : (⟨s3, a, sum⟩ : DedicatedCpu).step .one = ⟨s1, a, a.add sum⟩ :=
  step_unknown 3 a sum

lemma unknown_s4 : (⟨s4, a, sum⟩ : DedicatedCpu).step .one = ⟨s4, a, sum⟩ := step_unknown 4 a sum

end

lemma add_unknown_right {a b : Vec 8} (h : ¬b.Known) : a.add b = .allX := by
  rw [Vec.add, if_neg fun hk => h hk.2]

section

variable {a sum : Vec 8}

lemma ends_s4_unknown (a sum : Vec 8) : EndsInS4 ⟨s4, a, sum⟩ ⟨s4, a, sum⟩ 0 :=
  endsAfter_zero rfl (unknown_s4 a sum)

lemma ends_s1_stop (h : (lt10 a).isTrue = false) : EndsInS4 ⟨s1, a, sum⟩ ⟨s4, a, sum⟩ 1 := by
  have hs : (⟨s1, a, sum⟩ : DedicatedCpu).step .one = ⟨s4, a, sum⟩ := by
    rw [unknown_s1, h]
    rfl
  exact (ends_s4_unknown a sum).of_step hs (show s1 ≠ s4 by decide)

lemma ends_s1_unknown (h : ¬a.Known) : EndsInS4 ⟨s1, a, sum⟩ ⟨s4, a, sum⟩ 1 := by
  apply ends_s1_stop
  rw [lt10, lessThanTen, Vec.lt, if_neg fun hk => h hk.1]
  rfl

lemma not_known_allX : ¬(Vec.allX : Vec 8).Known := by decide

lemma ends_s1_sum_unknown {a : BitVec 8} (hsum : ¬sum.Known) (ha : a.toNat ≤ 10) :
    EndsInS4 ⟨s1, .ofBits a, sum⟩ ⟨s4, .ofBits 10, if a.toNat = 10 then sum else .allX⟩
      (3 * (10 - a.toNat) + 1) := by
  generalize hk : 10 - a.toNat = k
  induction k generalizing a sum with
  | zero =>
    obtain rfl : a = 10 := BitVec.eq_of_toNat_eq (show a.toNat = 10 by omega)
    exact ends_s1_stop rfl
  | succ k ih =>
    have hlt : a.toNat < 10 := by omega
    have hnext := toNat_add_one hlt
    have hrest := ih not_known_allX (a := a + 1) (by omega) (by omega)
    rw [ite_self] at hrest
    rw [if_neg (by omega)]
    have hs1 : (⟨s1, .ofBits a, sum⟩ : DedicatedCpu).step .one = ⟨s2, .ofBits a, sum⟩ := by
      rw [unknown_s1, lt10, lessThanTen_ofBits, ult_ten, decide_eq_true hlt]
      rfl
    have hs2 := unknown_s2 (.ofBits a) sum
    rw [Vec.add_ofBits] at hs2
    have hs3 := unknown_s3 (.ofBits (a + 1)) sum
    rw [add_unknown_right hsum] at hs3
    have h3 := hrest.of_step hs3 (show s3 ≠ s4 by decide)
    have h2 := h3.of_step hs2 (show s2 ≠ s4 by decide)
    exact h2.of_step hs1 (show s1 ≠ s4 by decide)

lemma ends_s1_any (a sum : Vec 8) : ∃ t, ∃ n ≤ 31, EndsInS4 ⟨s1, a, sum⟩ t n := by
  by_cases ha : a.Known
  · obtain ⟨b, rfl⟩ : ∃ b, a = .ofBits b := ⟨_, (Vec.eq_ofBits_iff a _).mpr ⟨ha, rfl⟩⟩
    by_cases hsum : sum.Known
    · obtain ⟨v, rfl⟩ : ∃ v, sum = .ofBits v := ⟨_, (Vec.eq_ofBits_iff sum _).mpr ⟨hsum, rfl⟩⟩
      exact ends_s1 b v
    · rcases Nat.lt_or_ge 10 b.toNat with h | h
      · refine ⟨_, 1, by omega, ends_s1_stop ?_⟩
        rw [lt10, lessThanTen_ofBits, ult_ten, decide_eq_false (by omega)]
        rfl
      · exact ⟨_, _, by omega, ends_s1_sum_unknown hsum h⟩
  · exact ⟨_, 1, by omega, ends_s1_unknown ha⟩

lemma ends_listed_unknown (c : BitVec 3) (hc : c.toNat ≤ 4) (a sum : Vec 8) :
    ∃ t, ∃ n ≤ 33, EndsInS4 ⟨.ofBits c, a, sum⟩ t n := by
  have hcases : c = 0#3 ∨ c = 1#3 ∨ c = 2#3 ∨ c = 3#3 ∨ c = 4#3 := by
    revert c
    decide
  rcases hcases with rfl | rfl | rfl | rfl | rfl
  · obtain ⟨t, n, hn, h⟩ := ends_s1 0 0
    exact ⟨t, n + 1, by omega, h.of_step (unknown_s0 a sum) (show s0 ≠ s4 by decide)⟩
  · obtain ⟨t, n, hn, h⟩ := ends_s1_any a sum
    exact ⟨t, n, by omega, h⟩
  · obtain ⟨t, n, hn, h⟩ := ends_s1_any (a.add (.ofBits 1)) ((a.add (.ofBits 1)).add sum)
    have h3 := h.of_step (unknown_s3 (a.add (.ofBits 1)) sum) (show s3 ≠ s4 by decide)
    exact ⟨t, n + 1 + 1, by omega, h3.of_step (unknown_s2 a sum) (show s2 ≠ s4 by decide)⟩
  · obtain ⟨t, n, hn, h⟩ := ends_s1_any a (a.add sum)
    exact ⟨t, n + 1, by omega, h.of_step (unknown_s3 a sum) (show s3 ≠ s4 by decide)⟩
  · exact ⟨_, 0, by omega, ends_s4_unknown a sum⟩

end

section

variable {s : DedicatedCpu} (h : ∀ c : BitVec 3, c.toNat ≤ 4 → s.cState ≠ .ofBits c)

lemma isTrue_cond (b : Logic) : (b.cond .one .zero).isTrue = b.isTrue := by
  cases b <;> rfl

lemma isTrue_or (a b : Logic) : (a.or b).isTrue = (a.isTrue || b.isTrue) := by
  cases a <;> cases b <;> rfl

lemma cond_x_allZ {w : ℕ} (v : Vec w) : Vec.cond .x v .allZ = .allX := by
  simp [Vec.cond, Vec.allZ, Vec.allX]

include h

lemma isTrue_eq_listed {c : BitVec 3} (hc : c.toNat ≤ 4) :
    (s.cState.eq (.ofBits c)).isTrue = false := by
  rw [Bool.eq_false_iff, ne_eq, Vec.isTrue_eq]
  exact fun he => h c hc he.2

lemma step_not_listed : s.step .one = s := by
  have haload : (aLoad s.cState).isTrue = false := by
    rw [aLoad, isTrue_cond, isTrue_or, s0, s2, isTrue_eq_listed h (by decide),
      isTrue_eq_listed h (by decide)]
    rfl
  have hsumload : (sumLoad s.cState).isTrue = false := by
    rw [sumLoad, isTrue_cond, isTrue_or, s0, s3, isTrue_eq_listed h (by decide),
      isTrue_eq_listed h (by decide)]
    rfl
  ext1
  · have h0 : s.cState ≠ s0 := h 0 (by decide)
    have h1 : s.cState ≠ s1 := h 1 (by decide)
    have h2 : s.cState ≠ s2 := h 2 (by decide)
    have h3 : s.cState ≠ s3 := h 3 (by decide)
    have h4 : s.cState ≠ s4 := h 4 (by decide)
    change nState s.cState _ = s.cState
    rw [nState, if_neg h0, if_neg h1, if_neg h2, if_neg h3, if_neg h4]
  · change loadable .one _ _ _ = _
    rw [loadable, haload]
    rfl
  · change loadable .one _ _ _ = _
    rw [loadable, hsumload]
    rfl

lemma out_not_listed : s.out = Vec.allZ ∨ s.out = Vec.allX := by
  have hcontrol : (outControl s.cState).isTrue = false := by
    rw [outControl, isTrue_cond, s4, isTrue_eq_listed h (by decide)]
  unfold out
  cases hc : outControl s.cState with
  | one =>
    rw [hc] at hcontrol
    exact absurd hcontrol (by decide)
  | zero => exact .inl rfl
  | x => exact .inr (cond_x_allZ s.sumregOut)
  | z => exact .inr (cond_x_allZ s.sumregOut)

end

theorem power_up (s : DedicatedCpu) :
    (∀ c : BitVec 3, c.toNat ≤ 4 → s.cState = .ofBits c → ∃ t, ∃ n ≤ 33, s.HaltsAfter t n) ∧
    (s.cState = s1 → ¬s.aregOut.Known → s.HaltsAfter ⟨s4, s.aregOut, s.sumregOut⟩ 1) ∧
    (∀ a : BitVec 8, s.cState = s1 → s.aregOut = .ofBits a → a.toNat < 10 → ¬s.sumregOut.Known →
      s.HaltsAfter ⟨s4, .ofBits 10, .allX⟩ (3 * (10 - a.toNat) + 1)) ∧
    ((∀ c : BitVec 3, c.toNat ≤ 4 → s.cState ≠ .ofBits c) →
      ∀ m, s.held m = s ∧ (s.out = Vec.allZ ∨ s.out = Vec.allX)) := by
  obtain ⟨cs, areg, sumreg⟩ := s
  refine ⟨?_, ?_, ?_, ?_⟩
  · rintro c hc rfl
    obtain ⟨t, n, hn, h⟩ := ends_listed_unknown c hc areg sumreg
    exact ⟨t, n, hn, h.haltsAfter⟩
  · rintro rfl ha
    exact (ends_s1_unknown ha).haltsAfter
  · rintro a rfl rfl ha hsum
    have h := ends_s1_sum_unknown hsum ha.le
    rw [if_neg ha.ne] at h
    exact h.haltsAfter
  · intro h m
    refine ⟨?_, out_not_listed h⟩
    rw [held_eq]
    exact Function.iterate_fixed (step_not_listed h) m

theorem power_up_sum_unknown :
    (⟨s1, .ofBits 3, .allX⟩ : DedicatedCpu).HaltsAfter ⟨s4, .ofBits 10, .allX⟩ (3 * (10 - 3) + 1) :=
  (power_up ⟨s1, .ofBits 3, .allX⟩).2.2.1 3 rfl rfl (by decide) (by decide)

end VerilogEx.Cpu.Sum.DedicatedCpu
