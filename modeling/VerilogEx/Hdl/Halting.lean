import Mathlib.Logic.Function.Iterate

/-! Machines that end: a state reaches an end after exactly so many steps and stays there. -/

namespace VerilogEx.Hdl

variable {σ : Type*}

def EndsAfter (step : σ → σ) (final : σ → Prop) (s : σ) (n : ℕ) (t : σ) : Prop :=
  ∀ m, (final (step^[m] s) ↔ n ≤ m) ∧ (n ≤ m → step^[m] s = t)

variable {step : σ → σ} {final : σ → Prop} {s t : σ} {n : ℕ}

lemma endsAfter_zero (hf : final t) (ht : step t = t) : EndsAfter step final t 0 t := by
  intro m
  rw [Function.iterate_fixed ht]
  exact ⟨iff_of_true hf (Nat.zero_le m), fun _ => rfl⟩

lemma EndsAfter.succ (h : EndsAfter step final (step s) n t) (hs : ¬final s) :
    EndsAfter step final s (n + 1) t := by
  intro m
  cases m with
  | zero => exact ⟨iff_of_false hs (by omega), fun hle => absurd hle (by omega)⟩
  | succ m =>
    obtain ⟨hiff, heq⟩ := h m
    rw [Function.iterate_succ_apply]
    exact ⟨hiff.trans Nat.succ_le_succ_iff.symm, fun hle => heq (Nat.succ_le_succ_iff.mp hle)⟩

lemma EndsAfter.of_step {s' : σ} (h : EndsAfter step final s' n t) (he : step s = s')
    (hs : ¬final s) : EndsAfter step final s (n + 1) t := by
  subst he
  exact h.succ hs

end VerilogEx.Hdl
