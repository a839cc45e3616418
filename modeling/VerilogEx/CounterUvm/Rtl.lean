import VerilogEx.Hdl.Operators
import VerilogEx.Hdl.Resets

/-! The counter of `counter.sv`: after any reset it shows the number of enabled
edges modulo 8, and a tick after each edge that completes a group of 8. -/

namespace VerilogEx.CounterUvm

open Hdl

structure Pins where
  rstN : Bool
  enable : Bool
  deriving DecidableEq

def enabledSince (ps : List Pins) : ℕ := (sinceReset (fun p => !p.rstN) ps).countP Pins.enable

def Rollover (ps : List Pins) : Prop :=
  (∃ p ∈ ps.getLast?, p.rstN = true ∧ p.enable = true) ∧ 0 < enabledSince ps ∧ 8 ∣ enabledSince ps

instance (ps : List Pins) : Decidable (Rollover ps) := inferInstanceAs (Decidable (_ ∧ _))

section

variable (ps : List Pins) {p : Pins}

lemma enabledSince_reset (h : p.rstN = false) : enabledSince (ps ++ [p]) = 0 := by
  rw [enabledSince, sinceReset_snoc_reset ps (by simp [h]), List.countP_nil]

lemma enabledSince_snoc (h : p.rstN = true) :
    enabledSince (ps ++ [p]) = enabledSince ps + if p.enable then 1 else 0 := by
  rw [enabledSince, sinceReset_snoc ps (by simp [h]), List.countP_append, List.countP_singleton,
    enabledSince]

lemma rollover_snoc : Rollover (ps ++ [p]) ↔
    p.rstN = true ∧ p.enable = true ∧ enabledSince ps % 8 = 7 := by
  simp only [Rollover, List.getLast?_append, List.getLast?_singleton, Option.some_or,
    Option.mem_some_iff, exists_eq_left']
  rw [and_assoc]
  apply and_congr_right
  intro hr
  apply and_congr_right
  intro he
  rw [enabledSince_snoc ps hr, he, if_pos rfl]
  omega

lemma not_rollover_low (h : p.rstN = false) : ¬Rollover (ps ++ [p]) := by
  rw [rollover_snoc, h]
  exact fun hr => Bool.false_ne_true hr.1

lemma rollover_high (h : p.rstN = true) :
    Rollover (ps ++ [p]) ↔ p.enable = true ∧ enabledSince ps % 8 = 7 := by
  rw [rollover_snoc]
  exact and_iff_right h

end

@[ext] structure Counter where
  counter : Vec 3
  oTick : Logic
  deriving DecidableEq

namespace Counter

variable (c : Counter)

def step (rstN enable : Logic) : Counter :=
  if rstN.not.isTrue then ⟨.ofBits 0, .zero⟩
  else if enable.isTrue then
    ⟨c.counter.add (.ofBits 1), if (c.counter.eq (.ofBits 7)).isTrue then .one else .zero⟩
  else { c with oTick := .zero }

def edge (p : Pins) : Counter := c.step (.ofBool p.rstN) (.ofBool p.enable)

structure Counts (ps : List Pins) : Prop where
  counter_eq : c.counter = .ofBits (.ofNat 3 (enabledSince ps))
  oTick_eq : c.oTick = .ofBool (decide (Rollover ps))

lemma edge_reset {p : Pins} (h : p.rstN = false) : c.edge p = ⟨.ofBits 0, .zero⟩ := by
  rw [edge, h]
  rfl

lemma counts_reset (ps : List Pins) {p : Pins} (h : p.rstN = false) :
    (c.edge p).Counts (ps ++ [p]) := by
  rw [edge_reset c h]
  refine ⟨?_, ?_⟩
  · rw [enabledSince_reset ps h]
    rfl
  · rw [decide_eq_false (not_rollover_low ps h)]
    rfl

lemma beq_seven (n : ℕ) : (BitVec.ofNat 3 n == 7) = decide (n % 8 = 7) := by
  rw [Bool.eq_iff_iff, beq_iff_eq, decide_eq_true_iff]
  exact ⟨fun h => congrArg BitVec.toNat h, fun h => BitVec.eq_of_toNat_eq h⟩

variable {c}

lemma step_enabled {n : ℕ} (hc : c.counter = .ofBits (.ofNat 3 n)) :
    c.step .one .one = ⟨.ofBits (.ofNat 3 (n + 1)), .ofBool (decide (n % 8 = 7))⟩ := by
  ext1
  · show c.counter.add (.ofBits 1) = _
    rw [hc, Vec.add_ofBits, BitVec.ofNat_add]
    rfl
  · show (if (c.counter.eq (.ofBits 7)).isTrue then Logic.one else .zero) = _
    rw [hc, Vec.eq_ofBits, Logic.ite_isTrue_ofBool, beq_seven]

lemma edge_high {n : ℕ} (hc : c.counter = .ofBits (.ofNat 3 n)) {p : Pins} (h : p.rstN = true) :
    c.edge p = ⟨.ofBits (.ofNat 3 (n + if p.enable then 1 else 0)),
      .ofBool (p.enable && decide (n % 8 = 7))⟩ := by
  rw [edge, h]
  cases p.enable with
  | false => exact Counter.ext hc rfl
  | true => exact step_enabled hc

lemma Counts.edge {ps : List Pins} (hc : c.Counts ps) (p : Pins) :
    (c.edge p).Counts (ps ++ [p]) := by
  cases hr : p.rstN with
  | false => exact counts_reset c ps hr
  | true =>
    rw [edge_high hc.counter_eq hr, ← enabledSince_snoc ps hr]
    exact ⟨rfl, by simp [rollover_high ps hr]⟩

theorem counts_run (c : Counter) (ps : List Pins) (h : ∃ p ∈ ps, p.rstN = false) :
    (run edge c ps).Counts ps := by
  have hlow : ∃ p ∈ ps, (!p.rstN) = true := by simpa using h
  refine reset_induction (P := fun ps => (run edge c ps).Counts ps)
    (fun ps p hp => ?_) (fun ps p hp ih => ?_) ps hlow
  · rw [run_snoc]
    exact counts_reset _ ps (by simpa using hp)
  · rw [run_snoc]
    exact ih.edge p

end Counter

end VerilogEx.CounterUvm
