import VerilogEx.FifoBench.Traffic

/-! The sequences of `fifo_test`, and how many of their requests are turned down. -/

namespace VerilogEx.FifoBench

open Hdl Queues Fifo

structure Request where
  wrEn : Bool
  rdEn : Bool
  wrData : BitVec 8
  deriving DecidableEq

namespace Request

variable (n : Traffic) (r : Request)

def refused : Bool := (r.rdEn && n.empty) || (r.wrEn && n.full)

def accepted : Traffic :=
  ⟨n.writes + (r.wrEn && !n.full).toNat, n.reads + (r.rdEn && !n.empty).toNat⟩

end Request

def fifoWriteSeq (data : List (BitVec 8)) : List DrvCb := data.map fun v => ⟨true, true, v, false⟩

def fifoReadSeq (numReads : ℕ) : List DrvCb := List.replicate numReads ⟨true, false, 0, true⟩

def fifoRandomSeq (requests : List Request) : List DrvCb :=
  requests.map fun r => ⟨true, r.wrEn, r.wrData, r.rdEn⟩

namespace Traffic

lemma next_write {k : ℕ} (hk : k ≤ 8) (v : BitVec 8) :
    next ⟨k, 0⟩ ⟨true, true, v, false⟩ = ⟨min (k + 1) 8, 0⟩ := by
  by_cases h : k = 8
  · subst h
    rfl
  · have hfull : full ⟨k, 0⟩ = false := by simpa [full, FifoScoreboard.depth] using h
    have hmin : min (k + 1) 8 = k + 1 := by omega
    rw [hmin]
    simp [next, wrValid, rdValid, hfull]

lemma next_read {w k : ℕ} (hk : k ≤ w) : next ⟨w, k⟩ ⟨true, false, 0, true⟩ = ⟨w, min (k + 1) w⟩ := by
  by_cases h : w = k
  · subst h
    have hempty : empty ⟨w, w⟩ = true := by simp [empty]
    have hmin : min (w + 1) w = w := by omega
    rw [hmin]
    simp [next, wrValid, rdValid, hempty]
  · have hempty : empty ⟨w, k⟩ = false := by simpa [empty] using h
    have hmin : min (k + 1) w = k + 1 := by omega
    rw [hmin]
    simp [next, wrValid, rdValid, hempty]

lemma run_fifoWriteSeq {k : ℕ} (hk : k ≤ 8) (data : List (BitVec 8)) :
    run next ⟨k, 0⟩ (fifoWriteSeq data) = ⟨min (k + data.length) 8, 0⟩ := by
  induction data generalizing k with
  | nil =>
    rw [List.length_nil, Nat.add_zero, Nat.min_eq_left hk]
    rfl
  | cons v data ih =>
    have hmin : min (min (k + 1) 8 + data.length) 8 = min (k + (data.length + 1)) 8 := by omega
    rw [fifoWriteSeq, List.map_cons, run_cons, next_write hk]
    refine (ih (Nat.min_le_right _ _)).trans ?_
    rw [hmin, List.length_cons]

lemma run_fifoReadSeq {w k : ℕ} (hk : k ≤ w) (numReads : ℕ) :
    run next ⟨w, k⟩ (fifoReadSeq numReads) = ⟨w, min (k + numReads) w⟩ := by
  induction numReads generalizing k with
  | zero =>
    rw [Nat.add_zero, Nat.min_eq_left hk]
    rfl
  | succ m ih =>
    have hmin : min (min (k + 1) w + m) w = min (k + (m + 1)) w := by omega
    rw [fifoReadSeq, List.replicate_succ, run_cons, next_read hk]
    refine (ih (Nat.min_le_right _ _)).trans ?_
    rw [hmin]

lemma tally_fifoWriteSeq {k : ℕ} (hk : k ≤ 8) (data : List (BitVec 8)) :
    tally skipped next ⟨k, 0⟩ (fifoWriteSeq data) = k + data.length - 8 := by
  induction data generalizing k with
  | nil =>
    rw [List.length_nil, Nat.add_zero, Nat.sub_eq_zero_of_le hk]
    rfl
  | cons v data ih =>
    have hskip : skipped ⟨k, 0⟩ ⟨true, true, v, false⟩ = (k == 8) := by
      simp [skipped, full, FifoScoreboard.depth]
    rw [fifoWriteSeq, List.map_cons, tally, next_write hk, hskip]
    refine (congrArg (_ + ·) (ih (Nat.min_le_right _ _))).trans ?_
    rw [List.length_cons, toNat_beq]
    split_ifs <;> omega

lemma tally_fifoReadSeq {w k : ℕ} (hk : k ≤ w) (numReads : ℕ) :
    tally skipped next ⟨w, k⟩ (fifoReadSeq numReads) = k + numReads - w := by
  induction numReads generalizing k with
  | zero =>
    rw [Nat.add_zero, Nat.sub_eq_zero_of_le hk]
    rfl
  | succ m ih =>
    have hskip : skipped ⟨w, k⟩ ⟨true, false, 0, true⟩ = (w == k) := by simp [skipped, empty]
    rw [fifoReadSeq, List.replicate_succ, tally, next_read hk, hskip]
    refine (congrArg (_ + ·) (ih (Nat.min_le_right _ _))).trans ?_
    rw [toNat_beq]
    split_ifs <;> omega

lemma tally_fifoRandomSeq (n : Traffic) (requests : List Request) :
    tally skipped next n (fifoRandomSeq requests) =
      tally Request.refused Request.accepted n requests := by
  induction requests generalizing n with
  | nil => rfl
  | cons r requests ih => exact congrArg ((r.refused n).toNat + ·) (ih (r.accepted n))

lemma tally_passed (n : Traffic) (ds : List DrvCb) :
    tally passed next n ds = ds.length - tally skipped next n ds := by
  have hsum : tally passed next n ds + tally skipped next n ds = ds.length := by
    induction ds generalizing n with
    | nil => rfl
    | cons d ds ih =>
      have hrest := ih (n.next d)
      rw [tally, tally, List.length_cons, passed]
      cases n.skipped d <;> simp <;> omega
  omega

end Traffic

end VerilogEx.FifoBench
