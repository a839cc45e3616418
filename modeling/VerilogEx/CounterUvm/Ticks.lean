import VerilogEx.CounterUvm.Rtl

/-! The ticks of `counter.sv` over whole runs: one for each completed group of 8
enabled edges, and never two within 8 edges. -/

namespace VerilogEx.CounterUvm

open Hdl

section

variable (ps : List Pins)

lemma enabledSince_append_of_reset {qs : List Pins} (h : ∃ q ∈ qs, q.rstN = false) :
    enabledSince (ps ++ qs) = enabledSince qs := by
  rw [enabledSince, sinceReset_append_of_mem ps (by simpa using h), enabledSince]

lemma enabledSince_append {qs : List Pins} (h : ∀ q ∈ qs, q.rstN = true) :
    enabledSince (ps ++ qs) = enabledSince ps + qs.countP Pins.enable := by
  rw [enabledSince, sinceReset_append ps (by simpa using h), List.countP_append, enabledSince]

lemma enabledSince_le_length : enabledSince ps ≤ ps.length :=
  List.countP_le_length.trans (length_sinceReset_le ps)

lemma Rollover.apart {ps qs : List Pins} (hne : qs ≠ []) (hp : Rollover ps)
    (hq : Rollover (ps ++ qs)) : 8 ≤ qs.length := by
  obtain ⟨⟨p, hlast, -, henable⟩, hpos, hdvd⟩ := hq
  by_cases hreset : ∃ q ∈ qs, q.rstN = false
  · rw [enabledSince_append_of_reset ps hreset] at hpos hdvd
    exact (Nat.le_of_dvd hpos hdvd).trans (enabledSince_le_length qs)
  · have hhigh : ∀ q ∈ qs, q.rstN = true := by simpa using hreset
    have hmem : p ∈ qs := by
      rw [List.getLast?_append_of_ne_nil _ hne] at hlast
      exact List.mem_of_getLast? hlast
    have hcount : 0 < qs.countP Pins.enable := List.countP_pos_iff.mpr ⟨p, hmem, henable⟩
    rw [enabledSince_append ps hhigh, Nat.dvd_add_right hp.2.2] at hdvd
    exact (Nat.le_of_dvd hcount hdvd).trans List.countP_le_length

end

def histories (ps : List Pins) : List (List Pins) := historiesSince (fun p => !p.rstN) ps

section

variable (ps : List Pins) {p : Pins}

lemma histories_low (h : p.rstN = false) : histories (ps ++ [p]) = [ps ++ [p]] :=
  historiesSince_snoc_reset ps (by simp [h])

lemma histories_high (h : p.rstN = true) : histories (ps ++ [p]) = histories ps ++ [ps ++ [p]] :=
  historiesSince_snoc ps (by simp [h])

lemma enabledSince_of_mem_histories {ps pre : List Pins} (h : pre ∈ histories ps) :
    enabledSince pre ≤ enabledSince ps := by
  induction ps using List.reverseRecOn with
  | nil =>
    obtain rfl : pre = [] := by simpa [histories, historiesSince, sinceReset, upToReset] using h
    exact Nat.le_refl _
  | append_singleton ps p ih =>
    cases hr : p.rstN with
    | false =>
      rw [histories_low ps hr, List.mem_singleton] at h
      rw [h]
    | true =>
      rw [histories_high ps hr] at h
      rcases List.mem_append.mp h with h | h
      · rw [enabledSince_snoc ps hr]
        exact (ih h).trans (Nat.le_add_right _ _)
      · rw [List.mem_singleton.mp h]

end

namespace Counter

variable (c : Counter)

def Ticks (ps : List Pins) : Prop := (run edge c ps).oTick = .one

instance (ps : List Pins) : Decidable (c.Ticks ps) := inferInstanceAs (Decidable (_ = _))

def ticksSince (ps : List Pins) : ℕ := (histories ps).countP fun pre => decide (c.Ticks pre)

structure TicksExactly (ps : List Pins) : Prop where
  counter : (run edge c ps).counter = .ofBits (.ofNat 3 (enabledSince ps))
  ticks : c.ticksSince ps = enabledSince ps / 8
  oncePerGroup : ∀ g, 0 < g → 8 * g ≤ enabledSince ps →
    ∃! pre, pre ∈ histories ps ∧ c.Ticks pre ∧ enabledSince pre = 8 * g
  onlyPerGroup : c.Ticks ps ↔ Rollover ps
  quiet : ∀ p ∈ ps.getLast?, p.rstN = false ∨ p.enable = false → (run edge c ps).oTick = .zero
  apart : ∀ pre mid, ps = pre ++ mid → pre ≠ [] → mid ≠ [] → c.Ticks pre → c.Ticks ps →
    8 ≤ mid.length

variable {c} {ps : List Pins} {p : Pins}

lemma ticks_iff (h : (run edge c ps).Counts ps) : c.Ticks ps ↔ Rollover ps := by
  rw [Ticks, h.oTick_eq, Logic.ofBool_eq_one, decide_eq_true_iff]

lemma quiet_of_off (h : (run edge c ps).Counts ps) (hp : p ∈ ps.getLast?)
    (hoff : p.rstN = false ∨ p.enable = false) : (run edge c ps).oTick = .zero := by
  have hn : ¬Rollover ps := by
    rintro ⟨⟨q, hq, hr, he⟩, -⟩
    obtain rfl : p = q := Option.mem_unique hp hq
    rcases hoff with hoff | hoff
    · rw [hr] at hoff
      cases hoff
    · rw [he] at hoff
      cases hoff
  rw [h.oTick_eq, decide_eq_false hn]
  rfl

structure Tally (c : Counter) (ps : List Pins) : Prop where
  counts : (run edge c ps).Counts ps
  ticks : c.ticksSince ps = enabledSince ps / 8
  groups : ∀ g, 0 < g → 8 * g ≤ enabledSince ps →
    ∃! pre, pre ∈ histories ps ∧ c.Ticks pre ∧ enabledSince pre = 8 * g

lemma tally_reset (c : Counter) (ps : List Pins) (h : p.rstN = false) : c.Tally (ps ++ [p]) := by
  have hcounts : (run edge c (ps ++ [p])).Counts (ps ++ [p]) := by
    rw [run_snoc]
    exact counts_reset _ ps h
  have hzero := enabledSince_reset ps h
  refine ⟨hcounts, ?_, fun g hg hle => ?_⟩
  · have hn : ¬c.Ticks (ps ++ [p]) := by
      rw [ticks_iff hcounts]
      exact not_rollover_low ps h
    rw [ticksSince, histories_low ps h, hzero]
    simp [hn]
  · rw [hzero] at hle
    omega

lemma ticks_snoc (h : (run edge c ps).Counts ps) (hr : p.rstN = true) :
    c.Ticks (ps ++ [p]) ↔ p.enable = true ∧ enabledSince ps % 8 = 7 := by
  have hcounts : (run edge c (ps ++ [p])).Counts (ps ++ [p]) := by
    rw [run_snoc]
    exact h.edge p
  exact (ticks_iff hcounts).trans (rollover_high ps hr)

lemma ticksSince_snoc (c : Counter) (ps : List Pins) (hr : p.rstN = true) :
    c.ticksSince (ps ++ [p]) = c.ticksSince ps + if c.Ticks (ps ++ [p]) then 1 else 0 := by
  rw [ticksSince, histories_high ps hr, List.countP_append, List.countP_singleton]
  simp only [decide_eq_true_iff]
  rfl

namespace Tally

lemma ticks_step (h : c.Tally ps) (hr : p.rstN = true) :
    c.ticksSince (ps ++ [p]) = enabledSince (ps ++ [p]) / 8 := by
  rw [ticksSince_snoc c ps hr, h.ticks, enabledSince_snoc ps hr]
  simp only [ticks_snoc h.counts hr]
  cases p.enable with
  | false => simp
  | true =>
    simp only [true_and, if_true]
    split_ifs <;> omega

lemma old_group (h : c.Tally ps) (hr : p.rstN = true) {g : ℕ} (hg : 0 < g)
    (hle : 8 * g ≤ enabledSince ps) :
    ∃! pre, pre ∈ histories (ps ++ [p]) ∧ c.Ticks pre ∧ enabledSince pre = 8 * g := by
  rw [histories_high ps hr]
  obtain ⟨pre, ⟨hmem, htick, hcount⟩, huniq⟩ := h.groups g hg hle
  refine ⟨pre, ⟨List.mem_append_left _ hmem, htick, hcount⟩, ?_⟩
  rintro other ⟨hmem', htick', hcount'⟩
  rcases List.mem_append.mp hmem' with hm | hm
  · exact huniq other ⟨hm, htick', hcount'⟩
  · rw [List.mem_singleton.mp hm] at htick' hcount'
    obtain ⟨he, hmod⟩ := (ticks_snoc h.counts hr).mp htick'
    rw [enabledSince_snoc ps hr, he, if_pos rfl] at hcount'
    omega

lemma new_group (h : c.Tally ps) (hr : p.rstN = true) {g : ℕ} (hlt : enabledSince ps < 8 * g)
    (hle : 8 * g ≤ enabledSince (ps ++ [p])) :
    ∃! pre, pre ∈ histories (ps ++ [p]) ∧ c.Ticks pre ∧ enabledSince pre = 8 * g := by
  have hsnoc := enabledSince_snoc ps hr
  have he : p.enable = true := by
    by_contra he
    rw [hsnoc, if_neg he] at hle
    omega
  rw [he, if_pos rfl] at hsnoc
  have htick : c.Ticks (ps ++ [p]) := (ticks_snoc h.counts hr).mpr ⟨he, by omega⟩
  rw [histories_high ps hr]
  refine ⟨ps ++ [p], ⟨by simp, htick, by omega⟩, ?_⟩
  rintro other ⟨hmem, -, hcount⟩
  rcases List.mem_append.mp hmem with hm | hm
  · have hbound := enabledSince_of_mem_histories hm
    omega
  · exact List.mem_singleton.mp hm

lemma snoc (h : c.Tally ps) (hr : p.rstN = true) : c.Tally (ps ++ [p]) where
  counts := by
    rw [run_snoc]
    exact h.counts.edge p
  ticks := h.ticks_step hr
  groups := by
    intro g hg hle
    rcases Nat.lt_or_ge (enabledSince ps) (8 * g) with hlt | hge
    · exact h.new_group hr hlt hle
    · exact h.old_group hr hg hge

end Tally

lemma tally_run (c : Counter) (ps : List Pins) (h : ∃ p ∈ ps, p.rstN = false) : c.Tally ps := by
  have hlow : ∃ p ∈ ps, (!p.rstN) = true := by simpa using h
  apply reset_induction _ _ ps hlow
  · intro ps p hp
    exact tally_reset c ps (by simpa using hp)
  · intro ps p hp ih
    exact ih.snoc (by simpa using hp)

theorem ticks_exactly (c : Counter) (p : Pins) (ps : List Pins) (h : p.rstN = false) :
    c.TicksExactly (p :: ps) := by
  have hrun : ∀ {pre mid}, p :: ps = pre ++ mid → pre ≠ [] → (run edge c pre).Counts pre := by
    intro pre mid he hne
    obtain ⟨q, qs, rfl⟩ := List.exists_cons_of_ne_nil hne
    obtain ⟨rfl, -⟩ := List.cons.inj he
    exact counts_run c _ ⟨p, by simp, h⟩
  have ht := tally_run c (p :: ps) ⟨p, by simp, h⟩
  exact {
    counter := ht.counts.counter_eq
    ticks := ht.ticks
    oncePerGroup := ht.groups
    onlyPerGroup := ticks_iff ht.counts
    quiet := fun q hq hoff => quiet_of_off ht.counts hq hoff
    apart := by
      intro pre mid he hpre hmid htick htick'
      rw [ticks_iff (hrun he hpre)] at htick
      rw [ticks_iff ht.counts, he] at htick'
      exact htick.apart hmid htick' }

theorem ticks_exactly_stalled :
    (⟨.allX, .x⟩ : Counter).TicksExactly
      (⟨false, true⟩ :: (List.replicate 8 ⟨true, true⟩ ++ [⟨true, false⟩])) :=
  ticks_exactly ⟨.allX, .x⟩ ⟨false, true⟩ (List.replicate 8 ⟨true, true⟩ ++ [⟨true, false⟩]) rfl

end Counter

end VerilogEx.CounterUvm
