import VerilogEx.Cpu.Parts

/-! The processor of `dedicated_counter_cpu_sum.sv`: the state register of
`control_unit`, the registers `U_REGA` and `U_REGSUM` of `datapath`, and the
wires between them as functions of these. -/

namespace VerilogEx.Cpu.Sum

open Hdl

def mux2x1 (sel : Logic) (in0 in1 : Vec 8) : Vec 8 := select sel in0 in1

def register (rstN load : Logic) (dIn q : Vec 8) : Vec 8 := loadable rstN load dIn q

def alu (a b : Vec 8) : Vec 8 := a.add b

def lt10 (a : Vec 8) : Logic := lessThanTen a

namespace ControlUnit

def s0 : Vec 3 := .ofBits 0
def s1 : Vec 3 := .ofBits 1
def s2 : Vec 3 := .ofBits 2
def s3 : Vec 3 := .ofBits 3
def s4 : Vec 3 := .ofBits 4

section

variable (cState : Vec 3)

def aSrcsel : Logic := (cState.eq s2).cond .one .zero

def sumSrcsel : Logic := (cState.eq s3).cond .one .zero

def aLoad : Logic := ((cState.eq s0).or (cState.eq s2)).cond .one .zero

def sumLoad : Logic := ((cState.eq s0).or (cState.eq s3)).cond .one .zero

def aluSrcsel : Logic := (cState.eq s3).cond .one .zero

def outControl : Logic := (cState.eq s4).cond .one .zero

def nState (lt10 : Logic) : Vec 3 :=
  if cState = s0 then s1
  else if cState = s1 then (if lt10.isTrue then s2 else s4)
  else if cState = s2 then s3
  else if cState = s3 then s1
  else if cState = s4 then s4
  else cState

def cStateFf (rstN lt10 : Logic) : Vec 3 := if rstN.not.isTrue then s0 else nState cState lt10

end

section

variable (c : BitVec 3)

@[simp] lemma aSrcsel_ofBits : aSrcsel (.ofBits c) = .ofBool (c == 2) := by
  simp [aSrcsel, s2]

@[simp] lemma sumSrcsel_ofBits : sumSrcsel (.ofBits c) = .ofBool (c == 3) := by
  simp [sumSrcsel, s3]

@[simp] lemma aLoad_ofBits : aLoad (.ofBits c) = .ofBool (c == 0 || c == 2) := by
  simp [aLoad, s0, s2]

@[simp] lemma sumLoad_ofBits : sumLoad (.ofBits c) = .ofBool (c == 0 || c == 3) := by
  simp [sumLoad, s0, s3]

@[simp] lemma aluSrcsel_ofBits : aluSrcsel (.ofBits c) = .ofBool (c == 3) := by
  simp [aluSrcsel, s3]

@[simp] lemma outControl_ofBits : outControl (.ofBits c) = .ofBool (c == 4) := by
  simp [outControl, s4]

end

end ControlUnit

open ControlUnit

lemma ult_ten (a : BitVec 8) : a.ult 10 = decide (a.toNat < 10) := rfl

@[ext] structure DedicatedCpu where
  cState : Vec 3
  aregOut : Vec 8
  sumregOut : Vec 8
  deriving DecidableEq

namespace DedicatedCpu

variable (s : DedicatedCpu)

def alusrcMuxout : Vec 8 := mux2x1 (aluSrcsel s.cState) (.ofBits 1) s.sumregOut

def aluResult : Vec 8 := alu s.aregOut s.alusrcMuxout

def asrcMuxout : Vec 8 := mux2x1 (aSrcsel s.cState) (.ofBits 0) s.aluResult

def sumsrcMuxout : Vec 8 := mux2x1 (sumSrcsel s.cState) (.ofBits 0) s.aluResult

def out : Vec 8 := Vec.cond (outControl s.cState) s.sumregOut Vec.allZ

def step (rstN : Logic) : DedicatedCpu where
  cState := cStateFf s.cState rstN (lt10 s.aregOut)
  aregOut := register rstN (aLoad s.cState) s.asrcMuxout s.aregOut
  sumregOut := register rstN (sumLoad s.cState) s.sumsrcMuxout s.sumregOut

def edges (rstN : List Bool) : DedicatedCpu := run (fun s r => s.step (.ofBool r)) s rstN

def LoadsResult : Prop :=
  (aLoad s.cState = .one ∧ aSrcsel s.cState = .one) ∨
    (sumLoad s.cState = .one ∧ sumSrcsel s.cState = .one)

def NoCarry : Prop :=
  ∃ a b : BitVec 8, s.aregOut = .ofBits a ∧ s.alusrcMuxout = .ofBits b ∧ a.toNat + b.toNat < 2 ^ 8

def holding (c : Vec 3) (a sum : BitVec 8) : DedicatedCpu := ⟨c, .ofBits a, .ofBits sum⟩

lemma step_low : s.step .zero = holding s0 0 0 := rfl

section

variable (c : BitVec 3) (a sum : BitVec 8)

lemma aluResult_holding :
    (holding (.ofBits c) a sum).aluResult = .ofBits (a + if c = 3#3 then sum else 1#8) := by
  by_cases h : c = 3#3 <;> simp [holding, aluResult, alusrcMuxout, mux2x1, alu, h]

lemma out_holding :
    (holding (.ofBits c) a sum).out = if c = 4#3 then .ofBits sum else Vec.allZ := by
  simp [holding, out]

lemma loadsResult_holding : (holding (.ofBits c) a sum).LoadsResult ↔ c = 2#3 ∨ c = 3#3 := by
  simp only [holding, LoadsResult, aLoad_ofBits, aSrcsel_ofBits, sumLoad_ofBits, sumSrcsel_ofBits,
    Logic.ofBool_eq_one, Bool.or_eq_true, beq_iff_eq]
  tauto

lemma noCarry_holding (h : a.toNat + (if c = 3#3 then sum else 1#8).toNat < 2 ^ 8) :
    (holding (.ofBits c) a sum).NoCarry := by
  refine ⟨a, if c = 3#3 then sum else 1#8, rfl, ?_, h⟩
  by_cases h3 : c = 3#3 <;> simp [holding, alusrcMuxout, mux2x1, h3]

lemma step_holding :
    (holding (.ofBits c) a sum).step .one =
      ⟨nState (.ofBits c) (.ofBool (a.ult 10)),
        .ofBits (if c = 0#3 then 0 else if c = 2#3 then a + 1 else a),
        .ofBits (if c = 0#3 then 0 else if c = 3#3 then a + sum else sum)⟩ := by
  have hr := aluResult_holding c a sum
  ext1
  · simp [holding, step, cStateFf, lt10, Logic.not, Logic.isTrue]
  · simp only [step, asrcMuxout, hr, register, mux2x1]
    by_cases h2 : c = 2#3 <;> by_cases h0 : c = 0#3 <;> simp [holding, h0, h2]
  · simp only [step, sumsrcMuxout, hr, register, mux2x1]
    by_cases h3 : c = 3#3 <;> by_cases h0 : c = 0#3 <;> simp [holding, h0, h3]

lemma step_s0 : (holding s0 a sum).step .one = holding s1 0 0 := step_holding 0 a sum

lemma step_s1 :
    (holding s1 a sum).step .one = holding (if a.ult 10 then s2 else s4) a sum := by
  simpa [nState, s0, s1, holding] using step_holding 1 a sum

lemma step_s2 : (holding s2 a sum).step .one = holding s3 (a + 1) sum := step_holding 2 a sum

lemma step_s3 : (holding s3 a sum).step .one = holding s1 a (a + sum) := step_holding 3 a sum

lemma step_s4 : (holding s4 a sum).step .one = holding s4 a sum := step_holding 4 a sum

end

end DedicatedCpu

end VerilogEx.Cpu.Sum
