import Mathlib.Data.BitVec
import Mathlib.Tactic.Common
import Mathlib.Tactic.Ring

/-! Read and write pointers of a ring of `2 ^ k` slots, kept with one extra wrap
bit. Their difference counts the occupied slots, and the low bits of a pointer
are an address. -/

namespace VerilogEx.Queues

variable {k : ℕ}

def count (w r : BitVec (k + 1)) : ℕ := (w - r).toNat

def slot (r : BitVec (k + 1)) (i : ℕ) : BitVec k := (r + BitVec.ofNat (k + 1) i).setWidth k

lemma two_pow_pos (k : ℕ) : 0 < 2 ^ k := Nat.two_pow_pos k

lemma count_eq (w r : BitVec (k + 1)) :
    count w r = if r.toNat ≤ w.toNat then w.toNat - r.toNat
      else w.toNat + 2 ^ (k + 1) - r.toNat := by
  have hw := w.isLt
  have hr := r.isLt
  unfold count
  rw [BitVec.toNat_sub]
  split_ifs with h
  · have he : 2 ^ (k + 1) - r.toNat + w.toNat = w.toNat - r.toNat + 2 ^ (k + 1) := by omega
    rw [he, Nat.add_mod_right, Nat.mod_eq_of_lt (by omega)]
  · rw [Nat.mod_eq_of_lt (by omega)]
    omega

@[simp] lemma count_self (r : BitVec (k + 1)) : count r r = 0 := by simp [count]

lemma count_eq_zero {w r : BitVec (k + 1)} : count w r = 0 ↔ w = r := by
  constructor
  · intro h
    have hs : w - r = 0 := by
      apply BitVec.eq_of_toNat_eq
      simpa [count] using h
    simpa using congrArg (· + r) hs
  · rintro rfl
    simp

lemma toNat_succ (w : BitVec (k + 1)) :
    (w + 1).toNat = if w.toNat + 1 = 2 ^ (k + 1) then 0 else w.toNat + 1 := by
  have hw := w.isLt
  have hp : 1 < 2 ^ (k + 1) := Nat.one_lt_two_pow (by omega)
  have ho : (1 : BitVec (k + 1)).toNat = 1 := by simp
  rw [BitVec.toNat_add, ho]
  split_ifs with h
  · rw [h, Nat.mod_self]
  · exact Nat.mod_eq_of_lt (by omega)

lemma count_succ_left {w r : BitVec (k + 1)} (h : count w r + 1 < 2 ^ (k + 1)) :
    count (w + 1) r = count w r + 1 := by
  have hw := w.isLt
  have hr := r.isLt
  rw [count_eq] at h
  rw [count_eq, count_eq, toNat_succ]
  split_ifs at h ⊢ <;> omega

lemma count_succ_right {w r : BitVec (k + 1)} (h : w ≠ r) :
    count w (r + 1) = count w r - 1 := by
  have hw := w.isLt
  have hr := r.isLt
  have hne : w.toNat ≠ r.toNat := fun he => h (BitVec.eq_of_toNat_eq he)
  rw [count_eq, count_eq, toNat_succ]
  split_ifs <;> omega

lemma toNat_split (w : BitVec (k + 1)) :
    w.toNat = (w.setWidth k).toNat + if w.getLsbD k then 2 ^ k else 0 := by
  have hw := w.isLt
  have hp : 2 ^ (k + 1) = 2 ^ k + 2 ^ k := by ring
  have hb : w.getLsbD k = decide (2 ^ k ≤ w.toNat) := by
    rw [← BitVec.testBit_toNat]
    by_cases h : 2 ^ k ≤ w.toNat
    · rw [decide_eq_true h, Nat.testBit_of_two_pow_le_and_two_pow_add_one_gt h hw]
    · rw [decide_eq_false h, Nat.testBit_lt_two_pow (by omega)]
  rw [hb, BitVec.toNat_setWidth]
  by_cases h : 2 ^ k ≤ w.toNat
  · rw [Nat.mod_eq_sub_mod h, Nat.mod_eq_of_lt (by omega)]
    simp only [h, decide_true, if_true]
    omega
  · rw [Nat.mod_eq_of_lt (by omega)]
    simp [h]

lemma count_eq_capacity {w r : BitVec (k + 1)} :
    count w r = 2 ^ k ↔ w.setWidth k = r.setWidth k ∧ w.getLsbD k ≠ r.getLsbD k := by
  have hw := toNat_split w
  have hr := toNat_split r
  have hwl := (w.setWidth k).isLt
  have hrl := (r.setWidth k).isLt
  have hp : 2 ^ (k + 1) = 2 ^ k + 2 ^ k := by ring
  rw [count_eq]
  constructor
  · intro h
    have ha : (w.setWidth k).toNat = (r.setWidth k).toNat := by
      split_ifs at h hw hr <;> omega
    refine ⟨BitVec.eq_of_toNat_eq ha, fun hb => ?_⟩
    rw [hb] at hw
    split_ifs at h hw hr <;> omega
  · rintro ⟨ha, hb⟩
    rw [ha] at hw
    cases hwb : w.getLsbD k <;> cases hrb : r.getLsbD k <;>
      simp only [hwb, hrb, ne_eq, not_true_eq_false, not_false_eq_true, if_true, if_false,
        Bool.false_eq_true] at hb hw hr <;> split_ifs <;> omega

@[simp] lemma slot_zero (r : BitVec (k + 1)) : slot r 0 = r.setWidth k := by simp [slot]

lemma slot_succ (r : BitVec (k + 1)) (i : ℕ) : slot r (i + 1) = slot (r + 1) i := by
  have he : BitVec.ofNat (k + 1) (i + 1) = 1 + BitVec.ofNat (k + 1) i := by
    rw [BitVec.ofNat_add, BitVec.add_comm]
    rfl
  simp only [slot, he, BitVec.add_assoc]

lemma slot_count (w r : BitVec (k + 1)) : slot r (count w r) = w.setWidth k := by
  have he : r + (w - r) = w := by rw [BitVec.add_comm]; exact BitVec.sub_add_cancel w r
  simp only [slot, count, BitVec.ofNat_toNat, BitVec.setWidth_eq, he]

lemma slot_toNat (r : BitVec (k + 1)) (i : ℕ) : (slot r i).toNat = (r.toNat + i) % 2 ^ k := by
  have hd : 2 ^ k ∣ 2 ^ (k + 1) := Nat.pow_dvd_pow 2 (by omega)
  simp only [slot, BitVec.toNat_setWidth, BitVec.toNat_add, BitVec.toNat_ofNat, Nat.add_mod_mod]
  exact Nat.mod_mod_of_dvd _ hd

lemma slot_inj (r : BitVec (k + 1)) {i j : ℕ} (hi : i < 2 ^ k) (hj : j < 2 ^ k) :
    slot r i = slot r j ↔ i = j := by
  constructor
  · intro h
    have hm : (r.toNat + i) % 2 ^ k = (r.toNat + j) % 2 ^ k := by
      simpa only [slot_toNat] using congrArg BitVec.toNat h
    exact (Nat.ModEq.add_left_cancel' r.toNat hm).eq_of_lt_of_lt hi hj
  · rintro rfl
    rfl

lemma mod_ne_mod {m i j : ℕ} (h : i < j) (hm : j < i + m) : j % m ≠ i % m := by
  intro he
  have hd : m ∣ j - i := (Nat.modEq_iff_dvd' h.le).mp he.symm
  have hle := Nat.le_of_dvd (by omega) hd
  omega

end VerilogEx.Queues
