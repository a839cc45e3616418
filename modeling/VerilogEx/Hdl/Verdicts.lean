import Mathlib.Data.BitVec
import VerilogEx.Hdl.Runs

/-! Self-checking runs: a condition that holds at every step of a run, and the
fixed-width counter of the steps at which it did not. -/

namespace VerilogEx.Hdl

variable {σ τ ι : Type*} {step : σ → ι → σ} {next : τ → ι → τ}

def Along (ok : σ → ι → Prop) (step : σ → ι → σ) : σ → List ι → Prop
  | _, [] => True
  | s, i :: is => ok s i ∧ Along ok step (step s i) is

lemma along_and {ok left right : σ → ι → Prop} (h : ∀ s i, ok s i ↔ left s i ∧ right s i)
    (s : σ) (is : List ι) :
    Along ok step s is ↔ Along left step s is ∧ Along right step s is := by
  induction is generalizing s with
  | nil => simp [Along]
  | cons i is ih =>
    simp only [Along, h, ih]
    tauto

lemma along_congr {ok : σ → ι → Prop} {right : τ → ι → Prop} {R : σ → τ → Prop}
    (hiff : ∀ s t i, R s t → (ok s i ↔ right t i))
    (hstep : ∀ s t i, R s t → right t i → R (step s i) (next t i)) {s : σ} {t : τ} (h : R s t)
    (is : List ι) : Along ok step s is ↔ Along right next t is := by
  induction is generalizing s t with
  | nil => simp [Along]
  | cons i is ih =>
    simp only [Along, hiff s t i h]
    exact and_congr_right fun hr => ih (hstep s t i h hr)

lemma Along.of_prefix {ok : σ → ι → Prop} {s : σ} {is js : List ι} (hp : is <+: js)
    (h : Along ok step s js) : Along ok step s is := by
  obtain ⟨rest, rfl⟩ := hp
  induction is generalizing s with
  | nil => trivial
  | cons i is ih => exact ⟨h.1, ih h.2⟩

lemma along_history {right : List ι → ι → Prop} (is pre : List ι) :
    Along right (fun pre i => pre ++ [i]) pre is ↔
      ∀ mid i post, is = mid ++ i :: post → right (pre ++ mid) i := by
  induction is generalizing pre with
  | nil => simp [Along]
  | cons i is ih =>
    simp only [Along, ih]
    constructor
    · rintro ⟨h0, h⟩ mid j post he
      cases mid with
      | nil =>
        obtain ⟨rfl, -⟩ := List.cons.inj he
        simpa using h0
      | cons k mid =>
        obtain ⟨rfl, hrest⟩ := List.cons.inj he
        simpa using h mid j post hrest
    · intro h
      refine ⟨by simpa using h [] i is rfl, fun mid j post he => ?_⟩
      simpa using h (i :: mid) j post (by rw [he]; rfl)

def tally (p : τ → ι → Bool) (next : τ → ι → τ) : τ → List ι → ℕ
  | _, [] => 0
  | t, i :: is => (p t i).toNat + tally p next (next t i) is

lemma tally_append (p : τ → ι → Bool) (t : τ) (is js : List ι) :
    tally p next t (is ++ js) = tally p next t is + tally p next (run next t is) js := by
  induction is generalizing t with
  | nil => exact (Nat.zero_add _).symm
  | cons i is ih => rw [List.cons_append, tally, tally, ih, run_cons, Nat.add_assoc]

lemma toNat_beq (j k : ℕ) : (j == k).toNat = if j = k then 1 else 0 := by
  by_cases h : j = k <;> simp [h]

section

variable {w : ℕ} (fails : σ → BitVec w) {ok : σ → ι → Prop}

lemma fails_run_of_along (hpass : ∀ s i, ok s i → fails (step s i) = fails s) {s : σ} {is : List ι}
    (h : Along ok step s is) : fails (run step s is) = fails s := by
  induction is generalizing s with
  | nil => rfl
  | cons i is ih =>
    rw [run_cons, ih h.2, hpass s i h.1]

lemma count_run_of_along (count : σ → BitVec w) (p : ι → Bool)
    (hcount : ∀ s i, ok s i → count (step s i) = count s + if p i then 1 else 0) {s : σ}
    {is : List ι} (h : Along ok step s is) :
    count (run step s is) = count s + BitVec.ofNat w (is.countP p) := by
  induction is generalizing s with
  | nil => simp
  | cons i is ih =>
    rw [run_cons, ih h.2, hcount s i h.1, List.countP_cons, Nat.add_comm, BitVec.ofNat_add,
      BitVec.add_assoc]
    cases p i <;> rfl

lemma count_run_of_simulation (count : σ → BitVec w) (p : τ → ι → Bool) {R : σ → τ → Prop}
    (hstep : ∀ s t i, R s t → R (step s i) (next t i))
    (hcount : ∀ s t i, R s t → count (step s i) = count s + if p t i then 1 else 0) {s : σ} {t : τ}
    (h : R s t) (is : List ι) :
    count (run step s is) = count s + BitVec.ofNat w (tally p next t is) := by
  induction is generalizing s t with
  | nil => simp [tally]
  | cons i is ih =>
    rw [run_cons, ih (hstep s t i h), hcount s t i h, tally, BitVec.ofNat_add, BitVec.add_assoc]
    cases p t i <;> rfl

theorem fails_eq_zero_iff (hpass : ∀ s i, ok s i → fails (step s i) = fails s)
    (hfail : ∀ s i, ¬ok s i → fails (step s i) = fails s + 1) {s : σ} (is : List ι)
    (h : (fails s).toNat + is.length < 2 ^ w) :
    fails (run step s is) = 0 ↔ fails s = 0 ∧ Along ok step s is := by
  induction is generalizing s with
  | nil => simp [Along]
  | cons i is ih =>
    rw [List.length_cons] at h
    rw [run_cons]
    by_cases hi : ok s i
    · have hp := hpass s i hi
      rw [ih (by rw [hp]; omega), hp]
      simp only [Along, hi, true_and]
    · have hf := hfail s i hi
      have h1 : (1 : BitVec w).toNat = 1 := Nat.mod_eq_of_lt (show 1 < 2 ^ w by omega)
      have hn : (fails s + 1).toNat = (fails s).toNat + 1 := by
        rw [BitVec.toNat_add_of_lt (by rw [h1]; omega), h1]
      rw [ih (by rw [hf, hn]; omega), hf]
      have hz : fails s + 1 ≠ 0 := by
        intro h0
        rw [h0] at hn
        simp at hn
      exact iff_of_false (fun h0 => hz h0.1) (fun ht => hi ht.2.1)

end

end VerilogEx.Hdl
