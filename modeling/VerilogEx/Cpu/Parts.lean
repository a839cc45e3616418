import VerilogEx.Hdl.Operators
import VerilogEx.Hdl.Resets

/-! The building blocks that the two processors declare separately, at any width. -/

namespace VerilogEx.Cpu

open Hdl

variable {w : ℕ}

def select (sel : Logic) (in0 in1 : Vec w) : Vec w := Vec.cond sel in1 in0

def loadable (rstN load : Logic) (dIn q : Vec w) : Vec w :=
  if rstN.not.isTrue then .ofBits 0 else if load.isTrue then dIn else q

def lessThanTen (a : Vec w) : Logic := a.lt (.ofBits 10)

@[simp] lemma select_ofBool (b : Bool) (in0 in1 : Vec w) :
    select (.ofBool b) in0 in1 = if b then in1 else in0 := by
  simp [select]

@[simp] lemma loadable_low (load : Logic) (dIn q : Vec w) :
    loadable .zero load dIn q = .ofBits 0 := rfl

@[simp] lemma loadable_high (b : Bool) (dIn q : Vec w) :
    loadable .one (.ofBool b) dIn q = if b then dIn else q := by
  cases b <;> rfl

@[simp] lemma lessThanTen_ofBits (a : BitVec w) :
    lessThanTen (.ofBits a) = .ofBool (a.ult 10) := by
  simp [lessThanTen]

def highEdges (rstN : List Bool) : ℕ := (sinceReset Bool.not rstN).length

lemma highEdges_low (rstN : List Bool) : highEdges (rstN ++ [false]) = 0 :=
  congrArg List.length (sinceReset_snoc_reset rstN rfl)

lemma highEdges_high (rstN : List Bool) : highEdges (rstN ++ [true]) = highEdges rstN + 1 := by
  simp [highEdges, sinceReset_snoc]

lemma sinceReset_not (rstN : List Bool) :
    sinceReset Bool.not rstN = List.replicate (highEdges rstN) true :=
  List.eq_replicate_of_mem fun b hb => by simpa using reset_eq_false_of_mem hb

end VerilogEx.Cpu
