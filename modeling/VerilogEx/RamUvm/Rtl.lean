import VerilogEx.Hdl.Memory

/-! The memory of `ram.sv`: written at the clock edge, read without a clock. -/

namespace VerilogEx.RamUvm

open Hdl

structure RamIf where
  we : Logic
  addr : Vec 8
  wdata : Vec 8
  deriving DecidableEq

abbrev Ram := Memory 256 8

namespace Ram

variable (m : Ram)

def alwaysFf (pins : RamIf) : Ram :=
  if pins.we.isTrue then Memory.writeAt m pins.addr pins.wdata else m

def rdata (addr : Vec 8) : Vec 8 := Memory.readAt m addr

def unwritten : Ram := fun _ => .allX

end Ram

namespace RamIf

def undriven : RamIf := ⟨.x, .allX, .allX⟩

def written (pins : RamIf) : Option (BitVec 8 × Vec 8) :=
  if pins.we.isTrue ∧ pins.addr.Known then some (pins.addr.toBits, pins.wdata) else none

end RamIf

def stored (pins : List RamIf) (a : BitVec 8) : Vec 8 :=
  (lastWritten (pins.filterMap RamIf.written) a).getD .allX

lemma stored_snoc (ps : List RamIf) (pins : RamIf) (a : BitVec 8) :
    stored (ps ++ [pins]) a =
      if pins.we = .one ∧ pins.addr = .ofBits a then pins.wdata else stored ps a := by
  have hcond : (pins.we = .one ∧ pins.addr = .ofBits a) ↔
      (pins.we.isTrue = true ∧ pins.addr.Known) ∧ pins.addr.toBits = a := by
    rw [Vec.eq_ofBits_iff, ← Logic.isTrue_iff, and_assoc]
  simp only [stored, List.filterMap_append, hcond]
  by_cases hw : pins.we.isTrue = true ∧ pins.addr.Known
  · have hwritten : [pins].filterMap RamIf.written = [(pins.addr.toBits, pins.wdata)] := by
      simp [RamIf.written, hw]
    rw [hwritten, lastWritten_snoc]
    by_cases ha : pins.addr.toBits = a <;> simp [hw, ha]
  · simp [RamIf.written, hw]

namespace Ram

variable (m : Ram) (pins : RamIf)

lemma alwaysFf_eq : m.alwaysFf pins =
    run (fun m v => Memory.write m v.1.toNat v.2) m pins.written.toList := by
  unfold alwaysFf RamIf.written Memory.writeAt
  by_cases hw : pins.we.isTrue = true <;> by_cases ha : pins.addr.Known <;> simp [hw, ha]

lemma run_alwaysFf (ps : List RamIf) : run alwaysFf m ps =
    run (fun m v => Memory.write m v.1.toNat v.2) m (ps.filterMap RamIf.written) := by
  induction ps generalizing m with
  | nil => rfl
  | cons pins ps ih =>
    rw [run_cons, ih, alwaysFf_eq, List.filterMap_cons]
    cases pins.written <;> rfl

theorem read_run (ps : List RamIf) (a : BitVec 8) :
    (run alwaysFf unwritten ps).read a.toNat = stored ps a := by
  rw [run_alwaysFf, Memory.read_writes (by decide : 256 = 2 ^ 8)]
  congr 1
  have ha : a.toNat < 256 := a.isLt
  simp [unwritten, Memory.read, ha]

lemma rdata_run (ps : List RamIf) (addr : Vec 8) : (run alwaysFf unwritten ps).rdata addr =
    if addr.Known then stored ps addr.toBits else .allX := by
  rw [rdata, Memory.readAt, read_run]

end Ram

end VerilogEx.RamUvm
