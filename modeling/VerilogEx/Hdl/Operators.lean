import VerilogEx.Hdl.Logic

/-! The operators `||`, `?:`, `==`, `<` and `+` on four-state values. -/

namespace VerilogEx.Hdl

namespace Logic

def or : Logic → Logic → Logic
  | one, _ => one
  | _, one => one
  | zero, zero => zero
  | _, _ => x

def cond : Logic → Logic → Logic → Logic
  | one, a, _ => a
  | zero, _, b => b
  | _, a, b => if a = b ∧ a.Known then a else x

@[simp] lemma or_ofBool (a b : Bool) : (ofBool a).or (ofBool b) = ofBool (a || b) := by
  cases a <;> cases b <;> rfl

@[simp] lemma cond_one_zero (b : Bool) : (ofBool b).cond one zero = ofBool b := by cases b <;> rfl

end Logic

namespace Vec

variable {w : ℕ}

-- Two operands that differ at a position where both are known are unequal,
-- whatever the unknown positions hold.
def eq (a b : Vec w) : Logic :=
  if (a.aval ^^^ b.aval) &&& ~~~(a.bval ||| b.bval) ≠ 0 then .zero
  else if a.Known ∧ b.Known then .one
  else .x

def lt (a b : Vec w) : Logic :=
  if a.Known ∧ b.Known then .ofBool (a.aval.ult b.aval) else .x

def add (a b : Vec w) : Vec w :=
  if a.Known ∧ b.Known then ofBits (a.aval + b.aval) else allX

def zeroExtend (n : ℕ) (v : Vec w) : Vec n := ⟨v.aval.setWidth n, v.bval.setWidth n⟩

-- With an unknown selector the bits on which both operands agree survive.
def cond : Logic → Vec w → Vec w → Vec w
  | .one, a, _ => a
  | .zero, _, b => b
  | _, a, b =>
    let same := ~~~(a.aval ^^^ b.aval ||| a.bval ||| b.bval)
    ⟨a.aval ||| ~~~same, ~~~same⟩

@[simp] lemma eq_ofBits (a b : BitVec w) : (ofBits a).eq (ofBits b) = .ofBool (a == b) := by
  by_cases h : a = b
  · simp [eq, ofBits, Known, Logic.ofBool, h]
  · have hbeq : (a == b) = false := by simpa using h
    simp [eq, ofBits, hbeq, Logic.ofBool, h]

lemma isTrue_eq (a b : Vec w) : (a.eq b).isTrue = true ↔ a.Known ∧ a = b := by
  constructor
  · intro h
    by_cases hk : a.Known ∧ b.Known
    · refine ⟨hk.1, ?_⟩
      obtain ⟨ha, hb⟩ := hk
      rw [(eq_ofBits_iff a _).mpr ⟨ha, rfl⟩, (eq_ofBits_iff b _).mpr ⟨hb, rfl⟩] at h ⊢
      simpa using h
    · unfold eq at h
      rw [if_neg hk] at h
      split_ifs at h <;> cases h
  · rintro ⟨ha, rfl⟩
    rw [(eq_ofBits_iff a _).mpr ⟨ha, rfl⟩]
    simp

@[simp] lemma lt_ofBits (a b : BitVec w) : (ofBits a).lt (ofBits b) = .ofBool (a.ult b) := by
  simp [lt, ofBits, Known]

@[simp] lemma add_ofBits (a b : BitVec w) : (ofBits a).add (ofBits b) = ofBits (a + b) := by
  simp [add, ofBits, Known]

@[simp] lemma zeroExtend_ofBits (n : ℕ) (b : BitVec w) :
    (ofBits b).zeroExtend n = ofBits (b.setWidth n) := by
  simp [zeroExtend, ofBits]

@[simp] lemma cond_ofBool (c : Bool) (a b : Vec w) :
    cond (.ofBool c) a b = if c then a else b := by
  cases c <;> rfl

end Vec

end VerilogEx.Hdl
