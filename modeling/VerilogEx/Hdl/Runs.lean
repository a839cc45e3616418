import Mathlib.Data.List.Basic
import Mathlib.Logic.Function.Iterate
import Mathlib.Tactic.Common

/-! Runs of a clocked machine: a step function folded over its inputs. -/

namespace VerilogEx.Hdl

variable {σ τ ι : Type*}

def run (step : σ → ι → σ) (s : σ) (is : List ι) : σ := is.foldl step s

section

variable (step : σ → ι → σ) (s : σ)

@[simp] lemma run_nil : run step s [] = s := rfl

@[simp] lemma run_cons (i : ι) (is : List ι) : run step s (i :: is) = run step (step s i) is := rfl

lemma run_append (is js : List ι) : run step s (is ++ js) = run step (run step s is) js :=
  List.foldl_append

lemma run_snoc (is : List ι) (i : ι) : run step s (is ++ [i]) = step (run step s is) i := by
  simp [run_append]

lemma run_replicate (n : ℕ) (i : ι) : run step s (List.replicate n i) = (step · i)^[n] s := by
  induction n generalizing s with
  | zero => rfl
  | succ n ih => exact ih (step s i)

end

theorem run_invariant {step : σ → ι → σ} {I : σ → Prop} {s : σ} (h : I s)
    (hstep : ∀ s i, I s → I (step s i)) (is : List ι) : I (run step s is) := by
  induction is generalizing s with
  | nil => exact h
  | cons i is ih => exact ih (hstep s i h)

theorem run_simulation {step : σ → ι → σ} {next : τ → ι → τ} {R : σ → τ → Prop} {s : σ} {t : τ}
    (h : R s t) (hstep : ∀ s t i, R s t → R (step s i) (next t i)) (is : List ι) :
    R (run step s is) (run next t is) := by
  induction is generalizing s t with
  | nil => exact h
  | cons i is ih => exact ih (hstep s t i h)

end VerilogEx.Hdl
