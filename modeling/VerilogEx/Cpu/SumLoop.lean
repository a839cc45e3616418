import Mathlib.Algebra.BigOperators.Intervals
import VerilogEx.Cpu.SumRtl
import VerilogEx.Hdl.Halting

/-! The loop of the summing processor from any state, with no reset to start it: the
edges it takes to S4 and what the registers hold there. -/

namespace VerilogEx.Cpu.Sum.DedicatedCpu

open Hdl ControlUnit

section

variable (s t : DedicatedCpu)

def held (m : ℕ) : DedicatedCpu := s.edges (List.replicate m true)

def HaltsAfter (n : ℕ) : Prop :=
  ∀ m, ((s.held m).cState = s4 ↔ n ≤ m) ∧ (n ≤ m → s.held m = t)

abbrev EndsInS4 (n : ℕ) : Prop :=
  EndsAfter (fun s : DedicatedCpu => s.step .one) (fun s => s.cState = s4) s n t

lemma held_eq (m : ℕ) : s.held m = (fun s : DedicatedCpu => s.step .one)^[m] s :=
  run_replicate _ s m true

variable {s t}

lemma EndsInS4.haltsAfter {n : ℕ} (h : s.EndsInS4 t n) : s.HaltsAfter t n := by
  intro m
  rw [held_eq]
  exact h m

end

section

variable {a sum : BitVec 8}

lemma ends_s4 : (holding s4 a sum).EndsInS4 (holding s4 a sum) 0 :=
  endsAfter_zero rfl (step_s4 a sum)

lemma ends_s1_of_ge (h : 10 ≤ a.toNat) : (holding s1 a sum).EndsInS4 (holding s4 a sum) 1 := by
  have hs : (holding s1 a sum).step .one = holding s4 a sum := by
    rw [step_s1, ult_ten, decide_eq_false (by omega)]
    rfl
  exact ends_s4.of_step hs (by decide : s1 ≠ s4)

def total (a sum : BitVec 8) : BitVec 8 :=
  .ofNat 8 (sum.toNat + ∑ i ∈ Finset.Icc (a.toNat + 1) 10, i)

lemma total_eq (a sum : BitVec 8) :
    total a sum = sum + BitVec.ofNat 8 (∑ i ∈ Finset.Icc (a.toNat + 1) 10, i) := by
  rw [total, BitVec.ofNat_add, BitVec.ofNat_toNat, BitVec.setWidth_eq]

lemma toNat_add_one (h : a.toNat < 10) : (a + 1).toNat = a.toNat + 1 := by
  rw [BitVec.toNat_add_of_lt] <;> simp
  omega

lemma total_step (h : a.toNat < 10) : total (a + 1) (a + 1 + sum) = total a sum := by
  have hsum : ∑ i ∈ Finset.Icc (a.toNat + 1) 10, i =
      a.toNat + 1 + ∑ i ∈ Finset.Icc (a.toNat + 1 + 1) 10, i := by
    rw [← Finset.insert_Icc_succ_left_eq_Icc (by omega), Finset.sum_insert (by simp)]
    rfl
  have ha : BitVec.ofNat 8 (a.toNat + 1) = a + 1 := by
    rw [BitVec.ofNat_add, BitVec.ofNat_toNat, BitVec.setWidth_eq]
    rfl
  rw [total_eq, total_eq, toNat_add_one h, hsum, BitVec.ofNat_add, ha, ← BitVec.add_assoc,
    BitVec.add_comm (a + 1) sum]

lemma ends_s1_of_lt (h : a.toNat ≤ 10) :
    (holding s1 a sum).EndsInS4 (holding s4 10 (total a sum)) (3 * (10 - a.toNat) + 1) := by
  generalize hk : 10 - a.toNat = k
  induction k generalizing a sum with
  | zero =>
    obtain rfl : a = 10 := BitVec.eq_of_toNat_eq (show a.toNat = 10 by omega)
    have ht : total 10 sum = sum := by
      rw [total_eq]
      simp
    rw [ht]
    exact ends_s1_of_ge (by decide)
  | succ k ih =>
    have ha : a.toNat < 10 := by omega
    have hrest : (holding s1 (a + 1) (a + 1 + sum)).EndsInS4
        (holding s4 10 (total (a + 1) (a + 1 + sum))) (3 * k + 1) := by
      apply ih
      · rw [toNat_add_one ha]
        omega
      · rw [toNat_add_one ha]
        omega
    rw [total_step ha] at hrest
    have hs1 : (holding s1 a sum).step .one = holding s2 a sum := by
      rw [step_s1, ult_ten, decide_eq_true ha]
      rfl
    have h3 := hrest.of_step (step_s3 (a + 1) sum) (by decide : s3 ≠ s4)
    have h2 := h3.of_step (step_s2 a sum) (by decide : s2 ≠ s4)
    exact h2.of_step hs1 (by decide : s1 ≠ s4)

lemma ends_s1 (a sum : BitVec 8) : ∃ t, ∃ n ≤ 31, (holding s1 a sum).EndsInS4 t n := by
  rcases Nat.lt_or_ge a.toNat 10 with h | h
  · exact ⟨_, _, by omega, ends_s1_of_lt h.le⟩
  · exact ⟨_, 1, by omega, ends_s1_of_ge h⟩

lemma ends_listed (c : BitVec 3) (hc : c.toNat ≤ 4) (a sum : BitVec 8) :
    ∃ t, ∃ n ≤ 33, (holding (.ofBits c) a sum).EndsInS4 t n := by
  have hcases : c = 0#3 ∨ c = 1#3 ∨ c = 2#3 ∨ c = 3#3 ∨ c = 4#3 := by
    revert c
    decide
  rcases hcases with rfl | rfl | rfl | rfl | rfl
  · obtain ⟨t, n, hn, h⟩ := ends_s1 0 0
    exact ⟨t, n + 1, by omega, h.of_step (step_s0 a sum) (by decide : s0 ≠ s4)⟩
  · obtain ⟨t, n, hn, h⟩ := ends_s1 a sum
    exact ⟨t, n, by omega, h⟩
  · obtain ⟨t, n, hn, h⟩ := ends_s1 (a + 1) (a + 1 + sum)
    have h3 := h.of_step (step_s3 (a + 1) sum) (by decide : s3 ≠ s4)
    exact ⟨t, n + 1 + 1, by omega, h3.of_step (step_s2 a sum) (by decide : s2 ≠ s4)⟩
  · obtain ⟨t, n, hn, h⟩ := ends_s1 a (a + sum)
    exact ⟨t, n + 1, by omega, h.of_step (step_s3 a sum) (by decide : s3 ≠ s4)⟩
  · exact ⟨_, 0, by omega, ends_s4⟩

end

-- The `case` has no branch for the other codes, and no register loads in them.
lemma unlisted (c : BitVec 3) (hc : 4 < c.toNat) :
    (∀ lt10, nState (.ofBits c) lt10 = .ofBits c) ∧ aLoad (.ofBits c) = .zero ∧
      sumLoad (.ofBits c) = .zero ∧ outControl (.ofBits c) = .zero := by
  have hcases : c = 5#3 ∨ c = 6#3 ∨ c = 7#3 := by
    revert c
    decide
  refine ⟨fun lt10 => ?_, ?_⟩
  · rcases hcases with rfl | rfl | rfl <;> rfl
  · rcases hcases with rfl | rfl | rfl <;> decide

lemma step_unlisted (c : BitVec 3) (hc : 4 < c.toNat) (a sum : Vec 8) :
    (⟨.ofBits c, a, sum⟩ : DedicatedCpu).step .one = ⟨.ofBits c, a, sum⟩ := by
  obtain ⟨hn, ha, hsum, -⟩ := unlisted c hc
  ext1
  · exact hn _
  · change register .one (aLoad (.ofBits c)) _ a = a
    rw [ha]
    rfl
  · change register .one (sumLoad (.ofBits c)) _ sum = sum
    rw [hsum]
    rfl

theorem loop_ends :
    (∀ c : BitVec 3, c.toNat ≤ 4 → ∀ a sum : BitVec 8,
      ∃ t, ∃ n ≤ 33, (holding (.ofBits c) a sum).HaltsAfter t n) ∧
    (∀ a sum : BitVec 8, 10 ≤ a.toNat → (holding s1 a sum).HaltsAfter (holding s4 a sum) 1) ∧
    (∀ a sum : BitVec 8, a.toNat < 10 → (holding s1 a sum).HaltsAfter
      (holding s4 10 (.ofNat 8 (sum.toNat + ∑ i ∈ Finset.Icc (a.toNat + 1) 10, i)))
      (3 * (10 - a.toNat) + 1)) ∧
    (∀ c : BitVec 3, 4 < c.toNat → ∀ (a sum : Vec 8) (m : ℕ),
      (⟨.ofBits c, a, sum⟩ : DedicatedCpu).held m = ⟨.ofBits c, a, sum⟩ ∧
        (held ⟨.ofBits c, a, sum⟩ m).out = Vec.allZ) := by
  refine ⟨fun c hc a sum => ?_, fun a sum h => (ends_s1_of_ge h).haltsAfter,
    fun a sum h => (ends_s1_of_lt h.le).haltsAfter, fun c hc a sum m => ?_⟩
  · obtain ⟨t, n, hn, h⟩ := ends_listed c hc a sum
    exact ⟨t, n, hn, h.haltsAfter⟩
  · have hheld : (⟨.ofBits c, a, sum⟩ : DedicatedCpu).held m = ⟨.ofBits c, a, sum⟩ := by
      rw [held_eq]
      exact Function.iterate_fixed (step_unlisted c hc a sum) m
    rw [hheld, out, (unlisted c hc).2.2.2]
    exact ⟨rfl, rfl⟩

end VerilogEx.Cpu.Sum.DedicatedCpu
