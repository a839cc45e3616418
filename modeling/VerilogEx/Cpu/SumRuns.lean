import Mathlib.Tactic.Ring
import VerilogEx.Cpu.SumRtl

/-! Every run of the summing processor from a low edge on, in closed form. -/

namespace VerilogEx.Cpu.Sum.DedicatedCpu

open Hdl ControlUnit

def triangle (q : ℕ) : ℕ := q * (q + 1) / 2

lemma triangle_succ (q : ℕ) : triangle (q + 1) = q + 1 + triangle q := by
  have h : (q + 1) * (q + 1 + 1) = q * (q + 1) + (q + 1) * 2 := by ring
  rw [triangle, h, Nat.add_mul_div_right _ _ (by decide), Nat.add_comm, triangle]

lemma triangle_le {q n : ℕ} (h : q ≤ n) : triangle q ≤ triangle n :=
  Nat.div_le_div_right (Nat.mul_le_mul h (by omega))

def count (c : Vec 3) (a sum : ℕ) : DedicatedCpu := holding c (.ofNat 8 a) (.ofNat 8 sum)

def afterLow (m : ℕ) : DedicatedCpu :=
  let q := (m - 1) / 3
  if m = 0 then count s0 0 0
  else if 32 ≤ m then count s4 10 55
  else if (m - 1) % 3 = 0 then count s1 q (triangle q)
  else if (m - 1) % 3 = 1 then count s2 q (triangle q)
  else count s3 (q + 1) (triangle q)

lemma afterLow_eq {q r : ℕ} (hr : r < 3) (h : 3 * q + r < 31) :
    afterLow (3 * q + r + 1) = if r = 0 then count s1 q (triangle q)
      else if r = 1 then count s2 q (triangle q) else count s3 (q + 1) (triangle q) := by
  have hdiv : (3 * q + r + 1 - 1) / 3 = q := by omega
  have hmod : (3 * q + r + 1 - 1) % 3 = r := by omega
  have hlast : ¬ 32 ≤ 3 * q + r + 1 := by omega
  simp only [afterLow, hdiv, hmod, hlast, if_false, Nat.succ_ne_zero]

lemma afterLow_test {q : ℕ} (h : q ≤ 10) : afterLow (3 * q + 1) = count s1 q (triangle q) :=
  afterLow_eq (r := 0) (by decide) (by omega)

lemma afterLow_add {q : ℕ} (h : q < 10) : afterLow (3 * q + 2) = count s2 q (triangle q) :=
  afterLow_eq (r := 1) (by decide) (by omega)

lemma afterLow_sum {q : ℕ} (h : q < 10) : afterLow (3 * q + 3) = count s3 (q + 1) (triangle q) :=
  afterLow_eq (r := 2) (by decide) (by omega)

lemma afterLow_halt {m : ℕ} (h : 32 ≤ m) : afterLow m = count s4 10 55 := by
  have h0 : m ≠ 0 := by omega
  simp only [afterLow, h0, h, if_true, if_false]

lemma phase_cases (m : ℕ) :
    m = 0 ∨ (∃ q ≤ 10, m = 3 * q + 1) ∨ (∃ q < 10, m = 3 * q + 2) ∨ (∃ q < 10, m = 3 * q + 3) ∨
      32 ≤ m := by
  rcases (by omega : m = 0 ∨ 32 ≤ m ∨ (m - 1) / 3 ≤ 10 ∧ m = 3 * ((m - 1) / 3) + 1 ∨
    (m - 1) / 3 < 10 ∧ m = 3 * ((m - 1) / 3) + 2 ∨
    (m - 1) / 3 < 10 ∧ m = 3 * ((m - 1) / 3) + 3) with h | h | ⟨h, hm⟩ | ⟨h, hm⟩ | ⟨h, hm⟩
  · exact .inl h
  · exact .inr (.inr (.inr (.inr h)))
  · exact .inr (.inl ⟨_, h, hm⟩)
  · exact .inr (.inr (.inl ⟨_, h, hm⟩))
  · exact .inr (.inr (.inr (.inl ⟨_, h, hm⟩)))

lemma step_afterLow (m : ℕ) : (afterLow m).step .one = afterLow (m + 1) := by
  rcases phase_cases m with rfl | ⟨q, hq, rfl⟩ | ⟨q, hq, rfl⟩ | ⟨q, hq, rfl⟩ | h
  · exact step_s0 0 0
  · rw [afterLow_test hq, count, step_s1, ult_ten, BitVec.toNat_ofNat, Nat.mod_eq_of_lt (by omega)]
    rcases Nat.lt_or_ge q 10 with h | h
    · simp only [h, decide_true, if_true]
      exact (afterLow_add h).symm
    · obtain rfl : q = 10 := by omega
      rw [afterLow_halt (by decide)]
      rfl
  · have ha : BitVec.ofNat 8 q + 1 = BitVec.ofNat 8 (q + 1) := (BitVec.ofNat_add q 1).symm
    rw [afterLow_add hq, count, step_s2, ha]
    exact (afterLow_sum hq).symm
  · rw [afterLow_sum hq, count, step_s3, ← BitVec.ofNat_add, ← triangle_succ]
    exact (afterLow_test (q := q + 1) hq).symm
  · rw [afterLow_halt h, afterLow_halt (by omega)]
    exact step_s4 10 55

lemma edges_replicate (m : ℕ) : (afterLow 0).edges (List.replicate m true) = afterLow m := by
  induction m with
  | zero => rfl
  | succ m ih =>
    rw [List.replicate_succ', edges, run_snoc]
    exact (congrArg (step · .one) ih).trans (step_afterLow m)

lemma edges_eq (s : DedicatedCpu) (rstN : List Bool) (h : false ∈ rstN) :
    s.edges rstN = afterLow (highEdges rstN) := by
  have hlow : ∀ (t : DedicatedCpu) (r : Bool), (!r) = true → t.step (.ofBool r) = afterLow 0 := by
    intro t r hr
    obtain rfl : r = false := by simpa using hr
    exact step_low t
  rw [edges, run_eq_sinceReset hlow s rstN ⟨false, h, rfl⟩, sinceReset_not]
  exact edges_replicate _

lemma out_afterLow (m : ℕ) :
    (afterLow m).out = if m < 32 then Vec.allZ else .ofBits 55 := by
  rcases phase_cases m with rfl | ⟨q, hq, rfl⟩ | ⟨q, hq, rfl⟩ | ⟨q, hq, rfl⟩ | h
  · rfl
  · rw [afterLow_test hq, if_pos (by omega)]
    exact out_holding 1 _ _
  · rw [afterLow_add hq, if_pos (by omega)]
    exact out_holding 2 _ _
  · rw [afterLow_sum hq, if_pos (by omega)]
    exact out_holding 3 _ _
  · rw [afterLow_halt h, if_neg (by omega)]
    exact out_holding 4 _ _

lemma noCarry_afterLow (m : ℕ) (h : (afterLow m).LoadsResult) : (afterLow m).NoCarry := by
  rcases phase_cases m with rfl | ⟨q, hq, rfl⟩ | ⟨q, hq, rfl⟩ | ⟨q, hq, rfl⟩ | hm
  · exact absurd ((loadsResult_holding 0 0 0).mp h) (by decide)
  · rw [afterLow_test hq] at h
    exact absurd ((loadsResult_holding 1 _ _).mp h) (by decide)
  · rw [afterLow_add hq]
    apply noCarry_holding 2
    simp
    omega
  · rw [afterLow_sum hq]
    apply noCarry_holding 3
    have ht : triangle q ≤ triangle 9 := triangle_le (by omega)
    have h9 : triangle 9 = 45 := rfl
    simp
    omega
  · rw [afterLow_halt hm] at h
    exact absurd ((loadsResult_holding 4 _ _).mp h) (by decide)

theorem sums_to_ten (s : DedicatedCpu) (rstN : List Bool) (h : false ∈ rstN) :
    s.edges rstN = afterLow (highEdges rstN) ∧
      (s.edges rstN).out = (if highEdges rstN < 32 then Vec.allZ else .ofBits 55) ∧
      ((s.edges rstN).LoadsResult → (s.edges rstN).NoCarry) := by
  rw [edges_eq s rstN h]
  exact ⟨rfl, out_afterLow _, noCarry_afterLow _⟩

theorem sums_to_ten_after_cut :
    (⟨Vec.allX, Vec.allX, Vec.allX⟩ : DedicatedCpu).edges
        (true :: false :: (List.replicate 5 true ++ false :: List.replicate 40 true)) =
      afterLow 40 :=
  (sums_to_ten ⟨Vec.allX, Vec.allX, Vec.allX⟩ _ (by decide)).1

end VerilogEx.Cpu.Sum.DedicatedCpu
