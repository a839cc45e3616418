import Mathlib.Data.List.Induction
import Mathlib.Tactic.Common

/-! Concurrent processes: a step is taken by one of them, if it can run, and a
schedule says which one comes next. -/

namespace VerilogEx.Hdl

variable {σ ι : Type*} {step : σ → ι → Option σ} {s : σ}

def schedule (step : σ → ι → Option σ) (s : σ) (acts : List ι) : Option σ := acts.foldlM step s

lemma schedule_snoc (acts : List ι) (a : ι) :
    schedule step s (acts ++ [a]) = (schedule step s acts).bind (step · a) := by
  simp [schedule, List.foldlM_append]

theorem schedule_induction {P : List ι → σ → Prop} (h0 : P [] s)
    (hstep : ∀ acts t a u, P acts t → step t a = some u → P (acts ++ [a]) u) {acts : List ι} {t : σ}
    (h : schedule step s acts = some t) : P acts t := by
  induction acts using List.reverseRecOn generalizing t with
  | nil =>
    obtain rfl : s = t := Option.some.inj h
    exact h0
  | append_singleton acts a ih =>
    rw [schedule_snoc] at h
    obtain ⟨u, hu, ha⟩ := Option.bind_eq_some_iff.mp h
    exact hstep acts u a t (ih hu) ha

lemma schedule_append {as bs : List ι} {t : σ} (h : schedule step s as = some t) :
    schedule step s (as ++ bs) = schedule step t bs := by
  rw [schedule, List.foldlM_append]
  change (schedule step s as).bind (schedule step · bs) = _
  rw [h]
  rfl

lemma schedule_of_append {as bs : List ι} {t : σ} (h : schedule step s (as ++ bs) = some t) :
    ∃ u, schedule step s as = some u := by
  rw [schedule, List.foldlM_append] at h
  obtain ⟨u, hu, -⟩ := Option.bind_eq_some_iff.mp h
  exact ⟨u, hu⟩

theorem schedule_map {τ : Type*} {next : τ → ι → Option τ} {f : σ → τ}
    (hstep : ∀ s a, next (f s) a = (step s a).map f) (s : σ) (acts : List ι) :
    schedule next (f s) acts = (schedule step s acts).map f := by
  induction acts generalizing s with
  | nil => rfl
  | cons a acts ih =>
    change (next (f s) a).bind (schedule next · acts) = ((step s a).bind (schedule step · acts)).map f
    rw [hstep]
    cases step s a with
    | none => rfl
    | some t => exact ih t

lemma behind_snoc_getLast {α : Type*} (done : List α) :
    (none :: done.map some).dropLast ++ [done.getLast?] = none :: done.map some := by
  induction done using List.reverseRecOn with
  | nil => rfl
  | append_singleton done i _ =>
    rw [List.getLast?_concat, List.map_append, ← List.cons_append, List.map_singleton,
      List.dropLast_concat]

end VerilogEx.Hdl
