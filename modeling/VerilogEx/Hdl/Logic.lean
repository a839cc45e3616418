import Mathlib.Data.BitVec
import Mathlib.Tactic.Common

/-! Four-state values of a hardware description language. A vector keeps one
value bit and one unknown bit per position: 0 is (0,0), 1 is (1,0), z is (0,1)
and x is (1,1). -/

namespace VerilogEx.Hdl

inductive Logic
  | zero
  | one
  | x
  | z
  deriving DecidableEq, Repr

namespace Logic

def ofBool : Bool → Logic
  | false => zero
  | true => one

-- An `if` takes its branch, and a two-state variable becomes 1, on the value 1 only.
def isTrue : Logic → Bool
  | one => true
  | _ => false

def not : Logic → Logic
  | zero => one
  | one => zero
  | _ => x

def and : Logic → Logic → Logic
  | zero, _ => zero
  | _, zero => zero
  | one, one => one
  | _, _ => x

def Known (a : Logic) : Prop := a = zero ∨ a = one

instance (a : Logic) : Decidable a.Known := inferInstanceAs (Decidable (_ ∨ _))

@[simp] lemma isTrue_ofBool (b : Bool) : (ofBool b).isTrue = b := by cases b <;> rfl

@[simp] lemma ite_isTrue_ofBool (b : Bool) :
    (if (ofBool b).isTrue then one else zero) = ofBool b := by
  cases b <;> rfl

@[simp] lemma isTrue_not (a : Logic) : a.not.isTrue = decide (a = zero) := by cases a <;> rfl

@[simp] lemma isTrue_and (a b : Logic) : (a.and b).isTrue = (a.isTrue && b.isTrue) := by
  cases a <;> cases b <;> rfl

lemma isTrue_iff (a : Logic) : a.isTrue = true ↔ a = one := by cases a <;> simp [isTrue]

@[simp] lemma and_ofBool (a b : Bool) : (ofBool a).and (ofBool b) = ofBool (a && b) := by
  cases a <;> cases b <;> rfl

@[simp] lemma ofBool_eq_one (b : Bool) : ofBool b = one ↔ b = true := by cases b <;> simp [ofBool]

@[simp] lemma ofBool_eq_zero (b : Bool) : ofBool b = zero ↔ b = false := by
  cases b <;> simp [ofBool]

@[simp] lemma ofBool_inj (a b : Bool) : ofBool a = ofBool b ↔ a = b := by
  cases a <;> cases b <;> simp [ofBool]

lemma eq_ofBool_iff (a : Logic) (b : Bool) : a = ofBool b ↔ a.Known ∧ a.isTrue = b := by
  cases a <;> cases b <;> simp [ofBool, Known, isTrue]

end Logic

@[ext] structure Vec (w : ℕ) where
  aval : BitVec w
  bval : BitVec w
  deriving DecidableEq, Repr

namespace Vec

variable {w : ℕ}

def ofBits (b : BitVec w) : Vec w := ⟨b, 0⟩

-- Assignment to a two-state variable: every x and z bit becomes 0.
def toBits (v : Vec w) : BitVec w := v.aval &&& ~~~v.bval

def allX : Vec w := ⟨BitVec.allOnes w, BitVec.allOnes w⟩

def allZ : Vec w := ⟨0, BitVec.allOnes w⟩

def Known (v : Vec w) : Prop := v.bval = 0

instance (v : Vec w) : Decidable v.Known := inferInstanceAs (Decidable (_ = _))

@[simp] lemma toBits_ofBits (b : BitVec w) : (ofBits b).toBits = b := by
  simp [toBits, ofBits]

@[simp] lemma known_ofBits (b : BitVec w) : (ofBits b).Known := by simp [Known, ofBits]

@[simp] lemma ofBits_inj (a b : BitVec w) : ofBits a = ofBits b ↔ a = b := by
  simp [ofBits]

lemma eq_ofBits_iff (v : Vec w) (b : BitVec w) : v = ofBits b ↔ v.Known ∧ v.toBits = b := by
  constructor
  · rintro rfl
    simp
  · rintro ⟨hk, rfl⟩
    have hb : v.bval = 0 := hk
    ext1 <;> simp [ofBits, toBits, hb]

end Vec

end VerilogEx.Hdl
