import Mathlib.Data.List.Induction
import VerilogEx.Hdl.Logic
import VerilogEx.Hdl.Runs

/-! Unpacked arrays of words. A read outside the array gives x, and a write
outside it is ignored. -/

namespace VerilogEx.Hdl

def Memory (depth w : ℕ) := Fin depth → Vec w

namespace Memory

variable {depth w : ℕ}

def read (m : Memory depth w) (a : ℕ) : Vec w :=
  if h : a < depth then m ⟨a, h⟩ else Vec.allX

def write (m : Memory depth w) (a : ℕ) (v : Vec w) : Memory depth w :=
  fun i => if i.val = a then v else m i

lemma read_write (m : Memory depth w) (a b : ℕ) (v : Vec w) :
    (m.write a v).read b = if b = a ∧ a < depth then v else m.read b := by
  unfold read write
  by_cases hb : b < depth
  · by_cases hab : b = a
    · subst hab
      simp [hb]
    · simp [hb, hab]
  · have hab : ¬(b = a ∧ a < depth) := by omega
    simp [hb, hab]

lemma read_write_ne (m : Memory depth w) {a b : ℕ} (v : Vec w) (h : b ≠ a) :
    (m.write a v).read b = m.read b := by
  simp [read_write, h]

lemma read_write_congr {m n : Memory depth w} {b : ℕ} (a : ℕ) (v : Vec w)
    (h : b ≠ a → m.read b = n.read b) : (m.write a v).read b = (n.write a v).read b := by
  by_cases hab : b = a
  · subst hab
    by_cases hb : b < depth <;> simp [read, write, hb]
  · simp only [read_write_ne _ v hab, h hab]

-- Access through a four-state address: an unknown one reads x and writes nothing.
def readAt {k : ℕ} (m : Memory depth w) (a : Vec k) : Vec w :=
  if a.Known then m.read a.toBits.toNat else Vec.allX

def writeAt {k : ℕ} (m : Memory depth w) (a : Vec k) (v : Vec w) : Memory depth w :=
  if a.Known then m.write a.toBits.toNat v else m

lemma readAt_ofBits {k : ℕ} (m : Memory depth w) (a : BitVec k) :
    m.readAt (.ofBits a) = m.read a.toNat := by
  simp [readAt]

lemma writeAt_ofBits {k : ℕ} (m : Memory depth w) (a : BitVec k) (v : Vec w) :
    m.writeAt (.ofBits a) v = m.write a.toNat v := by
  simp [writeAt]

lemma read_write_toNat {k : ℕ} (hd : depth = 2 ^ k) (m : Memory depth w) (a b : BitVec k)
    (v : Vec w) : (m.write a.toNat v).read b.toNat = if a = b then v else m.read b.toNat := by
  have ha : a.toNat < depth := by
    rw [hd]
    exact a.isLt
  rw [read_write]
  by_cases h : a = b
  · subst h
    simp [ha]
  · have hne : ¬b.toNat = a.toNat := fun he => h (BitVec.eq_of_toNat_eq he.symm)
    simp [h, hne]

end Memory

section

variable {α β : Type*} [DecidableEq α]

def lastWritten (writes : List (α × β)) (a : α) : Option β :=
  (writes.filter fun w => w.1 = a).getLast?.map Prod.snd

lemma lastWritten_snoc (writes : List (α × β)) (w : α × β) (a : α) :
    lastWritten (writes ++ [w]) a = if w.1 = a then some w.2 else lastWritten writes a := by
  by_cases h : w.1 = a <;> simp [lastWritten, List.filter_append, h]

end

lemma Memory.read_writes {depth k w : ℕ} (hd : depth = 2 ^ k) (m : Memory depth w)
    (writes : List (BitVec k × Vec w)) (a : BitVec k) :
    (run (fun m v => Memory.write m v.1.toNat v.2) m writes).read a.toNat =
      (lastWritten writes a).getD (m.read a.toNat) := by
  induction writes using List.reverseRecOn with
  | nil => rfl
  | append_singleton writes v ih =>
    rw [run_snoc, Memory.read_write_toNat hd, lastWritten_snoc, ih]
    split_ifs <;> rfl

end VerilogEx.Hdl
