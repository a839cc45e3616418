import VerilogEx.Cpu.Parts

/-! The processor of `dedicated_cpu.sv`. Its `asrcsel` and `load` are written by a
continuous `assign` and by an `always_comb`; each edge settles the two drivers of
either net in a way of its own. The register drives the undeclared net `reg_a`, and
the comparator, the adder and the output read `reg_a_out`, which nothing drives. -/

namespace VerilogEx.Cpu.Count

open Hdl

def mux2X1 (sel : Logic) (in0 in1 : Vec 4) : Vec 4 := select sel in0 in1

def regA (rstN load : Logic) (srcA outRegA : Vec 4) : Vec 4 := loadable rstN load srcA outRegA

def alu (a b : Vec 4) : Vec 4 := a.add b

def ltq10 (a : Vec 4) : Logic := lessThanTen a

structure ControlWord where
  asrcsel : Logic
  load : Logic
  outControl : Logic
  deriving DecidableEq

namespace ControlUnit

def s0 : Vec 2 := .ofBits 0
def s1 : Vec 2 := .ofBits 1
def s2 : Vec 2 := .ofBits 2
def s3 : Vec 2 := .ofBits 3

variable (cState : Vec 2)

-- The last of the three is assigned to the undeclared `out_countrol`.
def assigns : ControlWord where
  asrcsel := (cState.eq s2).cond .one .zero
  load := ((cState.eq s0).or (cState.eq s2)).cond .one .zero
  outControl := (cState.eq s3).cond .one .zero

def alwaysComb (lte10 : Logic) : ControlWord × Vec 2 :=
  if cState = s0 then (⟨.zero, .one, .zero⟩, s1)
  else if cState = s1 then (⟨.one, .one, .zero⟩, s2)
  else if cState = s2 then (⟨.zero, .zero, .zero⟩, if lte10.isTrue then s1 else s3)
  else if cState = s3 then (⟨.zero, .zero, .one⟩, s3)
  else (⟨.zero, .zero, .zero⟩, cState)

def cStateFf (rstN lte10 : Logic) : Vec 2 :=
  if rstN.not.isTrue then s0 else (alwaysComb cState lte10).2

end ControlUnit

open ControlUnit

structure Edge where
  rstN : Bool
  settleAsrcsel : Logic → Logic → Logic
  settleLoad : Logic → Logic → Logic

@[ext] structure DedicatedCpu where
  cState : Vec 2
  outRegA : Vec 4
  deriving DecidableEq

namespace DedicatedCpu

variable (s : DedicatedCpu)

def regAOut : Vec 4 := Vec.allX

def lte10 : Logic := ltq10 regAOut

def aluResult : Vec 4 := alu regAOut (.ofBits 1)

def comb : ControlWord := (alwaysComb s.cState lte10).1

def regASrcOut (asrcsel : Logic) : Vec 4 := mux2X1 asrcsel (.ofBits 0) aluResult

def out : Vec 4 := Vec.cond s.comb.outControl regAOut Vec.allZ

def step (e : Edge) : DedicatedCpu where
  cState := cStateFf s.cState (.ofBool e.rstN) lte10
  outRegA := regA (.ofBool e.rstN) (e.settleLoad (assigns s.cState).load s.comb.load)
    (regASrcOut (e.settleAsrcsel (assigns s.cState).asrcsel s.comb.asrcsel)) s.outRegA

def edges (es : List Edge) : DedicatedCpu := run step s es

def AfterLow (es : List Edge) : Prop := ∃ e ∈ es, e.rstN = false

structure CountsToLimit (es : List Edge) : Prop where
  cleared : ∀ p e, p ++ [e] <+: es → AfterLow p → e.rstN = true → (s.edges p).cState = s0 →
    (s.edges (p ++ [e])).outRegA = .ofBits 0
  incremented : ∀ p e e', p ++ [e, e'] <+: es → AfterLow p → e.rstN = true → e'.rstN = true →
    (s.edges p).cState = s1 →
    (s.edges (p ++ [e, e'])).outRegA = (s.edges p).outRegA.add (.ofBits 1)
  compared : ∀ p, p <+: es → AfterLow p → regAOut = (s.edges p).outRegA
  reaches : ∀ p, p <+: es → AfterLow p → 21 ≤ highEdges (p.map Edge.rstN) →
    (s.edges p).cState = s3 ∧ (s.edges p).outRegA = .ofBits 10
  output : ∀ p, p <+: es → AfterLow p →
    (s.edges p).out = if (s.edges p).cState = s3 then .ofBits 10 else Vec.allZ
  agree : ∀ p, p <+: es → AfterLow p → assigns (s.edges p).cState = (s.edges p).comb

def phase (m : ℕ) : Vec 2 :=
  if m = 0 then s0 else if m = 1 then s1 else if m = 2 then s2 else s3

lemma phase_of_three_le {m : ℕ} (h : 3 ≤ m) : phase m = s3 := by
  simp only [phase, show m ≠ 0 by omega, show m ≠ 1 by omega, show m ≠ 2 by omega, if_false]

-- In S2 the comparison with an unknown value takes the `else` branch.
lemma cStateFf_phase (m : ℕ) : cStateFf (phase m) .one lte10 = phase (m + 1) := by
  rcases (by omega : m = 0 ∨ m = 1 ∨ m = 2 ∨ 3 ≤ m) with rfl | rfl | rfl | h
  · decide
  · decide
  · decide
  · rw [phase_of_three_le h, phase_of_three_le (by omega)]
    decide

lemma edges_low (es : List Edge) {e : Edge} (h : e.rstN = false) :
    s.edges (es ++ [e]) = ⟨s0, .ofBits 0⟩ := by
  simp [edges, run_snoc, step, h, cStateFf, regA, Logic.ofBool, Logic.not, Logic.isTrue]

lemma cState_edges (es : List Edge) (h : AfterLow es) :
    (s.edges es).cState = phase (highEdges (es.map Edge.rstN)) := by
  have hlow : ∃ e ∈ es, (!e.rstN) = true := by simpa [AfterLow] using h
  refine reset_induction (P := fun es => (s.edges es).cState = phase (highEdges (es.map Edge.rstN)))
    (fun es e he => ?_) (fun es e he ih => ?_) es hlow
  · have he : e.rstN = false := by simpa using he
    rw [edges_low s es he, List.map_append, List.map_singleton, he, highEdges_low]
    rfl
  · have he : e.rstN = true := by simpa using he
    rw [List.map_append, List.map_singleton, he, highEdges_high, ← cStateFf_phase, ← ih, edges,
      run_snoc]
    simp only [step, he]
    rfl

theorem halts_unknown (es : List Edge) (h : AfterLow es)
    (h3 : 3 ≤ highEdges (es.map Edge.rstN)) :
    (s.edges es).cState = s3 ∧ (s.edges es).out = Vec.allX := by
  have hc : (s.edges es).cState = s3 := by
    rw [cState_edges s es h, phase_of_three_le h3]
  refine ⟨hc, ?_⟩
  rw [out, comb, hc]
  decide

lemma regASrcOut_eq (asrcsel : Logic) :
    regASrcOut asrcsel = .ofBits 0 ∨ regASrcOut asrcsel = Vec.allX := by
  cases asrcsel <;> decide

lemma outRegA_edges (es : List Edge) (h : AfterLow es) :
    (s.edges es).outRegA = .ofBits 0 ∨ (s.edges es).outRegA = Vec.allX := by
  have hlow : ∃ e ∈ es, (!e.rstN) = true := by simpa [AfterLow] using h
  refine reset_induction
    (P := fun es => (s.edges es).outRegA = .ofBits 0 ∨ (s.edges es).outRegA = Vec.allX)
    (fun es e he => ?_) (fun es e he ih => ?_) es hlow
  · have he : e.rstN = false := by simpa using he
    rw [edges_low s es he]
    exact .inl rfl
  · have he : e.rstN = true := by simpa using he
    rw [edges, run_snoc, step, he]
    change loadable .one _ _ _ = _ ∨ loadable .one _ _ _ = _
    rw [loadable, if_neg (by decide)]
    split
    · exact regASrcOut_eq _
    · exact ih

lemma out_phase {m : ℕ} (h : m < 3) (r : Vec 4) :
    (⟨phase m, r⟩ : DedicatedCpu).out = Vec.allZ := by
  rcases (by omega : m = 0 ∨ m = 1 ∨ m = 2) with rfl | rfl | rfl
  · rfl
  · rfl
  · rfl

theorem never_shows_value (es : List Edge) (h : AfterLow es) :
    (s.edges es).cState = phase (highEdges (es.map Edge.rstN)) ∧
    ((s.edges es).outRegA = .ofBits 0 ∨ (s.edges es).outRegA = Vec.allX) ∧
    (s.edges es).out = if highEdges (es.map Edge.rstN) < 3 then Vec.allZ else Vec.allX := by
  have hc := cState_edges s es h
  refine ⟨hc, outRegA_edges s es h, ?_⟩
  split
  next hm =>
    rw [← out_phase hm (s.edges es).outRegA, ← hc]
  next hm => exact (halts_unknown s es h (by omega)).2

def low : Edge := ⟨false, fun a _ => a, fun a _ => a⟩

def released : List Edge := low :: List.replicate 30 ⟨true, fun a _ => a, fun _ b => b⟩

lemma afterLow_released : AfterLow released := ⟨low, by simp [released], rfl⟩

theorem never_shows_value_released :
    (∃ e ∈ released, e.rstN = false) ∧
    (((⟨s0, .ofBits 0⟩ : DedicatedCpu).edges released).cState = phase 30 ∧
      (((⟨s0, .ofBits 0⟩ : DedicatedCpu).edges released).outRegA = .ofBits 0 ∨
        ((⟨s0, .ofBits 0⟩ : DedicatedCpu).edges released).outRegA = Vec.allX) ∧
      ((⟨s0, .ofBits 0⟩ : DedicatedCpu).edges released).out = Vec.allX) :=
  ⟨afterLow_released, never_shows_value ⟨s0, .ofBits 0⟩ released afterLow_released⟩

theorem never_counts_to_limit (es : List Edge) (h : AfterLow es) : ¬ s.CountsToLimit es := by
  intro hcount
  obtain ⟨e, he, hlow⟩ := h
  obtain ⟨p, q, rfl⟩ := List.append_of_mem he
  have hp : p ++ [e] <+: p ++ e :: q := ⟨q, by simp⟩
  have hx := hcount.compared (p ++ [e]) hp ⟨e, by simp, hlow⟩
  rw [edges_low s p hlow] at hx
  exact absurd hx (by decide)

theorem never_counts_to_limit_released :
    ¬ (⟨s0, .ofBits 0⟩ : DedicatedCpu).CountsToLimit released :=
  never_counts_to_limit ⟨s0, .ofBits 0⟩ released afterLow_released

theorem released_outputs_unknown :
    ¬ ((⟨s0, .ofBits 0⟩ : DedicatedCpu).CountsToLimit released) := by
  intro h
  have hout := h.output released (List.prefix_refl _) afterLow_released
  revert hout
  decide

end DedicatedCpu

end VerilogEx.Cpu.Count
