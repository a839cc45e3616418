import VerilogEx.Hdl.Operators
import VerilogEx.RamUvm.Rtl

/-! The memory under `tb_ram_uvm`: driven at the falling edge, sampled one time unit
after the rising one, and checked against the buffer of the scoreboard. -/

namespace VerilogEx.RamUvm

open Hdl

structure RamSeqItem where
  we : Logic := .x
  addr : Vec 8 := .allX
  wdata : Vec 8 := .allX
  rdata : Vec 8 := .allX
  deriving DecidableEq

namespace RamSeqItem

variable (item : RamSeqItem)

def drive : RamIf := ⟨item.we, item.addr, item.wdata⟩

def ofPins (pins : RamIf) (rdata : Vec 8) : RamSeqItem where
  we := pins.we
  addr := pins.addr
  wdata := pins.wdata
  rdata := rdata

end RamSeqItem

def mostRecent (items : List RamSeqItem) (a : BitVec 8) : Vec 8 :=
  ((items.filter fun i => i.we = .one ∧ i.addr = .ofBits a).getLast?.map RamSeqItem.wdata).getD
    .allX

lemma mostRecent_snoc (items : List RamSeqItem) (i : RamSeqItem) (a : BitVec 8) :
    mostRecent (items ++ [i]) a =
      if i.we = .one ∧ i.addr = .ofBits a then i.wdata else mostRecent items a := by
  by_cases h : i.we = .one ∧ i.addr = .ofBits a <;> simp [mostRecent, List.filter_append, h]

lemma stored_drive (items : List RamSeqItem) (a : BitVec 8) :
    stored (items.map RamSeqItem.drive) a = mostRecent items a := by
  induction items using List.reverseRecOn with
  | nil => rfl
  | append_singleton items i ih =>
    rw [List.map_append, List.map_singleton, stored_snoc, mostRecent_snoc, ih]
    rfl

structure RamScoreboard where
  passCnt : BitVec 32 := 0
  failCnt : BitVec 32 := 0
  ramBuffer : Ram := .unwritten

namespace RamScoreboard

variable (b : RamScoreboard) (item : RamSeqItem)

def write : RamScoreboard :=
  if item.we.isTrue then
    let b := { b with ramBuffer := Memory.writeAt b.ramBuffer item.addr item.wdata }
    if (item.wdata.eq item.rdata).isTrue then { b with passCnt := b.passCnt + 1 }
    else { b with failCnt := b.failCnt + 1 }
  else if item.rdata = Memory.readAt b.ramBuffer item.addr then { b with passCnt := b.passCnt + 1 }
  else { b with failCnt := b.failCnt + 1 }

lemma ramBuffer_write : (b.write item).ramBuffer = Ram.alwaysFf b.ramBuffer item.drive := by
  change _ = if item.we.isTrue then Memory.writeAt b.ramBuffer item.addr item.wdata else b.ramBuffer
  unfold write
  split_ifs <;> rfl

lemma failCnt_write_of_we (hw : item.we.isTrue = true)
    (h : (item.wdata.eq item.rdata).isTrue = true) : (b.write item).failCnt = b.failCnt := by
  simp [write, hw, h]

lemma failCnt_write_of_read (hw : item.we.isTrue = false)
    (h : item.rdata = Memory.readAt b.ramBuffer item.addr) : (b.write item).failCnt = b.failCnt := by
  simp [write, hw, h]

end RamScoreboard

def RamIf.Legal (pins : RamIf) : Prop := pins.we = .one → pins.addr.Known ∧ pins.wdata.Known

lemma RamIf.undriven_legal : undriven.Legal := nofun

structure Bench where
  pins : RamIf := .undriven
  dut : Ram := .unwritten
  rItem : RamSeqItem := {}
  scb : RamScoreboard := {}

namespace Bench

variable (b : Bench)

-- The pins change at the falling edge, the memory at the rising edge, and the monitor
-- samples a time unit later.
def clocked (pins : RamIf) : Bench :=
  let dut := b.dut.alwaysFf pins
  let rItem := RamSeqItem.ofPins pins (dut.rdata pins.addr)
  { pins, dut, rItem, scb := b.scb.write rItem }

def cycle : Option RamSeqItem → Bench
  | none => b.clocked b.pins
  | some item => b.clocked item.drive

structure Lockstep (edges : List RamIf) : Prop where
  dut : b.dut = run Ram.alwaysFf .unwritten edges
  buffer : b.scb.ramBuffer = b.dut
  sampled : b.rItem =
    .ofPins (edges.getLastD .undriven) (b.dut.rdata (edges.getLastD .undriven).addr)
  failCnt : b.scb.failCnt = 0

lemma lockstep_start : ({} : Bench).Lockstep [] where
  dut := rfl
  buffer := rfl
  sampled := rfl
  failCnt := rfl

variable {b}

lemma failCnt_clocked {pins : RamIf} (hb : b.scb.ramBuffer = b.dut) (hl : pins.Legal) :
    (b.clocked pins).scb.failCnt = b.scb.failCnt := by
  cases hw : pins.we.isTrue with
  | false =>
    apply RamScoreboard.failCnt_write_of_read _ _ hw
    rw [hb]
    change Memory.readAt (b.dut.alwaysFf pins) pins.addr = Memory.readAt b.dut pins.addr
    rw [Ram.alwaysFf, hw]
    rfl
  | true =>
    obtain ⟨ha, hd⟩ := hl ((Logic.isTrue_iff _).mp hw)
    apply RamScoreboard.failCnt_write_of_we _ _ hw
    have hread : (b.dut.alwaysFf pins).rdata pins.addr = pins.wdata := by
      rw [Ram.alwaysFf, hw, (Vec.eq_ofBits_iff pins.addr _).mpr ⟨ha, rfl⟩]
      rw [if_pos rfl, Memory.writeAt_ofBits, Ram.rdata, Memory.readAt_ofBits,
        Memory.read_write_toNat (by decide : 256 = 2 ^ 8), if_pos rfl]
    change (pins.wdata.eq ((b.dut.alwaysFf pins).rdata pins.addr)).isTrue = true
    rw [hread, (Vec.eq_ofBits_iff pins.wdata _).mpr ⟨hd, rfl⟩]
    simp

lemma Lockstep.clocked {edges : List RamIf} (h : b.Lockstep edges) {pins : RamIf}
    (hl : pins.Legal) : (b.clocked pins).Lockstep (edges ++ [pins]) where
  dut := by
    rw [run_snoc, ← h.dut]
    rfl
  buffer := by
    change (b.scb.write _).ramBuffer = _
    rw [RamScoreboard.ramBuffer_write, h.buffer]
    rfl
  sampled := by
    rw [List.getLastD_concat]
    rfl
  failCnt := (failCnt_clocked h.buffer hl).trans h.failCnt

lemma undriven_run (n : ℕ) : (run cycle {} (List.replicate n none)).pins = .undriven ∧
    (run cycle {} (List.replicate n none)).Lockstep (List.replicate n .undriven) := by
  induction n with
  | zero => exact ⟨rfl, lockstep_start⟩
  | succ n ih =>
    rw [List.replicate_succ', List.replicate_succ', run_snoc]
    obtain ⟨hp, hl⟩ := ih
    rw [cycle, hp]
    exact ⟨rfl, hl.clocked RamIf.undriven_legal⟩

lemma driven_run {edges : List RamIf} (h : b.Lockstep edges) (items : List RamSeqItem)
    (hl : ∀ item ∈ items, item.drive.Legal) :
    (run cycle b (items.map some)).Lockstep (edges ++ items.map RamSeqItem.drive) := by
  induction items generalizing b edges with
  | nil => simpa using h
  | cons item items ih =>
    have hrest := ih (h.clocked (hl item (by simp))) fun i hi => hl i (List.mem_cons_of_mem _ hi)
    rw [List.append_assoc] at hrest
    exact hrest

lemma stored_undriven (n : ℕ) (edges : List RamIf) (a : BitVec 8) :
    stored (List.replicate n .undriven ++ edges) a = stored edges a := by
  have hnone : (List.replicate n RamIf.undriven).filterMap RamIf.written = [] := by
    rw [List.filterMap_replicate_of_none rfl]
  rw [stored, List.filterMap_append, hnone, List.nil_append, stored]

lemma getLastD_drive (n : ℕ) (items : List RamSeqItem) :
    (List.replicate n RamIf.undriven ++ items.map RamSeqItem.drive).getLastD .undriven =
      (items.getLastD {}).drive := by
  rcases items.eq_nil_or_concat' with rfl | ⟨items, i, rfl⟩
  · cases n with
    | zero => rfl
    | succ n =>
      rw [List.map_nil, List.append_nil, List.replicate_succ', List.getLastD_concat]
      rfl
  · rw [List.map_append, List.map_singleton, ← List.append_assoc, List.getLastD_concat,
      List.getLastD_concat]

theorem no_false_alarm (n : ℕ) (items : List RamSeqItem)
    (h : ∀ item ∈ items, item.we = .one → item.addr.Known ∧ item.wdata.Known) :
    let b := run cycle {} (List.replicate n none ++ items.map some)
    let last := items.getLastD {}
    b.scb.ramBuffer = b.dut ∧ (∀ a : BitVec 8, Memory.read b.dut a.toNat = mostRecent items a) ∧
      b.rItem = { last with
        rdata := if last.addr.Known then mostRecent items last.addr.toBits else .allX } ∧
      b.scb.failCnt = 0 := by
  have hl := driven_run (undriven_run n).2 items h
  rw [← run_append] at hl
  refine ⟨hl.buffer, fun a => ?_, ?_, hl.failCnt⟩
  · rw [hl.dut, Ram.read_run, stored_undriven, stored_drive]
  · rw [hl.sampled, hl.dut, getLastD_drive, Ram.rdata_run]
    simp only [stored_undriven, stored_drive]
    rfl

def writeThenRead : List RamSeqItem :=
  [{ we := .one, addr := .ofBits 7, wdata := .ofBits 65 }, { we := .x },
    { we := .zero, addr := .ofBits 7 }]

theorem no_false_alarm_read :
    let b := run cycle {} (List.replicate 2 none ++ writeThenRead.map some)
    b.rItem = ⟨.zero, .ofBits 7, .allX, .ofBits 65⟩ ∧ b.scb.failCnt = 0 :=
  (no_false_alarm 2 writeThenRead (by decide)).2.2

end Bench

end VerilogEx.RamUvm
