import Mathlib.Data.List.DropRight
import Mathlib.Data.List.Infix
import VerilogEx.Hdl.Runs

/-! Machines with a synchronous reset: after a reset a run depends only on the
inputs that came since. -/

namespace VerilogEx.Hdl

variable {σ ι : Type*} {reset : ι → Bool}

def sinceReset (reset : ι → Bool) (is : List ι) : List ι := is.rtakeWhile fun i => !reset i

lemma sinceReset_snoc_reset (is : List ι) {i : ι} (h : reset i = true) :
    sinceReset reset (is ++ [i]) = [] :=
  List.rtakeWhile_concat_neg _ _ _ (by simp [h])

lemma sinceReset_snoc (is : List ι) {i : ι} (h : reset i = false) :
    sinceReset reset (is ++ [i]) = sinceReset reset is ++ [i] :=
  List.rtakeWhile_concat_pos _ _ _ (by simp [h])

lemma reset_eq_false_of_mem {is : List ι} {i : ι} (h : i ∈ sinceReset reset is) :
    reset i = false := by
  simpa using List.mem_rtakeWhile_imp h

lemma sinceReset_append_of_mem (is : List ι) {js : List ι} (h : ∃ j ∈ js, reset j = true) :
    sinceReset reset (is ++ js) = sinceReset reset js := by
  induction js using List.reverseRecOn with
  | nil => simp at h
  | append_singleton js j ih =>
    rw [← List.append_assoc]
    cases hj : reset j with
    | true => rw [sinceReset_snoc_reset _ hj, sinceReset_snoc_reset _ hj]
    | false =>
      rw [sinceReset_snoc _ hj, sinceReset_snoc _ hj, ih]
      simpa [hj] using h

lemma sinceReset_append (is : List ι) {js : List ι} (h : ∀ j ∈ js, reset j = false) :
    sinceReset reset (is ++ js) = sinceReset reset is ++ js := by
  induction js using List.reverseRecOn with
  | nil => simp
  | append_singleton js j ih =>
    have hj : reset j = false := h j (by simp)
    have hjs : ∀ i ∈ js, reset i = false := fun i hi => h i (List.mem_append_left _ hi)
    rw [← List.append_assoc, sinceReset_snoc _ hj, ih hjs, List.append_assoc]

lemma length_sinceReset_le (is : List ι) : (sinceReset reset is).length ≤ is.length :=
  (List.rtakeWhile_suffix _ is).length_le

def upToReset (reset : ι → Bool) (is : List ι) : List ι := is.rdropWhile fun i => !reset i

def historiesSince (reset : ι → Bool) (is : List ι) : List (List ι) :=
  (sinceReset reset is).inits.map (upToReset reset is ++ ·)

lemma historiesSince_snoc_reset (is : List ι) {i : ι} (h : reset i = true) :
    historiesSince reset (is ++ [i]) = [is ++ [i]] := by
  have hu : upToReset reset (is ++ [i]) = is ++ [i] := List.rdropWhile_concat_neg _ _ _ (by simp [h])
  simp [historiesSince, sinceReset_snoc_reset is h, hu]

lemma historiesSince_snoc (is : List ι) {i : ι} (h : reset i = false) :
    historiesSince reset (is ++ [i]) = historiesSince reset is ++ [is ++ [i]] := by
  have hu : upToReset reset (is ++ [i]) = upToReset reset is :=
    List.rdropWhile_concat_pos _ _ _ (by simp [h])
  have hall : upToReset reset is ++ sinceReset reset is = is :=
    List.rdropWhile_append_rtakeWhile
  simp only [historiesSince, sinceReset_snoc is h, hu, List.inits_append, List.map_append]
  congr 1
  simp [← List.append_assoc, hall]

theorem reset_induction {P : List ι → Prop} (hreset : ∀ is i, reset i = true → P (is ++ [i]))
    (hstep : ∀ is i, reset i = false → P is → P (is ++ [i])) (is : List ι)
    (h : ∃ i ∈ is, reset i = true) : P is := by
  induction is using List.reverseRecOn with
  | nil => simp at h
  | append_singleton is i ih =>
    cases hi : reset i with
    | true => exact hreset is i hi
    | false =>
      obtain ⟨j, hj, hr⟩ := h
      rcases List.mem_append.mp hj with hj | hj
      · exact hstep is i hi (ih ⟨j, hj, hr⟩)
      · rw [List.mem_singleton.mp hj, hi] at hr
        contradiction

theorem run_eq_sinceReset {step : σ → ι → σ} {s₀ : σ}
    (hreset : ∀ s i, reset i = true → step s i = s₀) (s : σ) (is : List ι)
    (h : ∃ i ∈ is, reset i = true) :
    run step s is = run step s₀ (sinceReset reset is) := by
  refine reset_induction (P := fun is => run step s is = run step s₀ (sinceReset reset is))
    (fun is i hi => ?_) (fun is i hi ih => ?_) is h
  · rw [run_snoc, hreset _ _ hi, sinceReset_snoc_reset is hi, run_nil]
  · rw [run_snoc, sinceReset_snoc is hi, run_snoc, ih]

end VerilogEx.Hdl
