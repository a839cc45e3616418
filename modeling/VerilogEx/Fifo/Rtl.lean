import Mathlib.Data.Nat.Log
import VerilogEx.Hdl.Memory
import VerilogEx.Hdl.Runs

/-! The synchronous FIFO of `fifo_top`: the pointers of `fifo_ctrl` and the words
of `register_file`. The connection of `fifo_top` to a port `rd_valid` that
`register_file` does not declare is left out. -/

namespace VerilogEx.Fifo

open Hdl

def clog2 (n : ℕ) : ℕ := Nat.clog 2 n

structure FifoParams where
  dataWidth : ℕ
  depth : ℕ
  addrWidth : ℕ := clog2 depth
  dataWidth_pos : 1 ≤ dataWidth
  depth_ge : 2 ≤ depth
  addrWidth_eq : addrWidth = clog2 depth

abbrev FifoParams.tb : FifoParams where
  dataWidth := 8
  depth := 8
  addrWidth := 3
  dataWidth_pos := by decide
  depth_ge := by decide
  addrWidth_eq := by decide

structure Pins (w : ℕ) where
  wrEn : Logic
  wrData : Vec w
  rdEn : Logic

inductive Event (w : ℕ)
  | edge (pins : Pins w)
  | rst (level : Bool)

structure FifoCtrl (addrWidth : ℕ) where
  rstN : Logic
  wrPtr : BitVec (addrWidth + 1)
  rdPtr : BitVec (addrWidth + 1)
  deriving DecidableEq

namespace FifoCtrl

variable {addrWidth w : ℕ} (c : FifoCtrl addrWidth)

def wrAddr : BitVec addrWidth := c.wrPtr.setWidth addrWidth

def rdAddr : BitVec addrWidth := c.rdPtr.setWidth addrWidth

def empty : Logic := .ofBool (c.wrPtr == c.rdPtr)

def full : Logic :=
  (Logic.ofBool (c.wrPtr.setWidth addrWidth == c.rdPtr.setWidth addrWidth)).and
    (.ofBool (c.wrPtr.getLsbD addrWidth != c.rdPtr.getLsbD addrWidth))

def wrValid (wrEn : Logic) : Logic := wrEn.and c.full.not

def rdValid (rdEn : Logic) : Logic := rdEn.and c.empty.not

def wrPtrFf (wrEn : Logic) : BitVec (addrWidth + 1) :=
  if c.rstN.not.isTrue then 0
  else if (c.wrValid wrEn).isTrue then c.wrPtr + 1
  else c.wrPtr

def rdPtrFf (rdEn : Logic) : BitVec (addrWidth + 1) :=
  if c.rstN.not.isTrue then 0
  else if (c.rdValid rdEn).isTrue then c.rdPtr + 1
  else c.rdPtr

-- Both pointers are also cleared when `rst_n` falls, whatever the clock does.
def step : Event w → FifoCtrl addrWidth
  | .edge pins => { c with wrPtr := c.wrPtrFf pins.wrEn, rdPtr := c.rdPtrFf pins.rdEn }
  | .rst true => { c with rstN := .one }
  | .rst false => if c.rstN = .zero then c else { rstN := .zero, wrPtr := 0, rdPtr := 0 }

end FifoCtrl

abbrev RegisterFile (depth w : ℕ) := Memory depth w

namespace RegisterFile

variable {depth w addrWidth : ℕ} (m : RegisterFile depth w)

def alwaysFf (wrValid : Logic) (wrAddr : BitVec addrWidth) (wrData : Vec w) :
    RegisterFile depth w :=
  if wrValid.isTrue then Memory.write m wrAddr.toNat wrData else m

def rdData (rdAddr : BitVec addrWidth) : Vec w := Memory.read m rdAddr.toNat

end RegisterFile

structure FifoTop (p : FifoParams) where
  ctrl : FifoCtrl p.addrWidth
  regs : RegisterFile p.depth p.dataWidth

namespace FifoTop

variable {p : FifoParams} (s : FifoTop p)

def empty : Logic := s.ctrl.empty

def full : Logic := s.ctrl.full

def rdData : Vec p.dataWidth := RegisterFile.rdData s.regs s.ctrl.rdAddr

-- The write port looks at `wr_valid` alone, so it also writes while `rst_n` is low.
def step : Event p.dataWidth → FifoTop p
  | .edge pins =>
    { ctrl := s.ctrl.step (.edge pins)
      regs := RegisterFile.alwaysFf s.regs (s.ctrl.wrValid pins.wrEn) s.ctrl.wrAddr pins.wrData }
  | .rst level => { s with ctrl := s.ctrl.step (w := p.dataWidth) (.rst level) }

def powerUp : FifoTop p := { s with ctrl := { s.ctrl with rstN := .x } }

def inReset : FifoTop p := { s with ctrl := { rstN := .zero, wrPtr := 0, rdPtr := 0 } }

def resetRun (events : List (Event p.dataWidth)) : FifoTop p :=
  run step s.powerUp (.rst false :: events)

end FifoTop

end VerilogEx.Fifo
