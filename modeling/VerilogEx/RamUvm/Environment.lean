import VerilogEx.RamUvm.Checker
import VerilogEx.RamUvm.Phases

/-! The whole of `tb_ram_uvm`: what `ram_test` reports, and what its covergroup calls
covered, when the last item never reaches the memory. -/

namespace VerilogEx.RamUvm

open Hdl

-- An item of `ram_sequence`: randomised fields are two-state.
structure Request where
  we : Bool
  addr : BitVec 8
  wdata : BitVec 8
  deriving DecidableEq

namespace Request

def item (r : Request) : RamSeqItem where
  we := .ofBool r.we
  addr := .ofBits r.addr
  wdata := .ofBits r.wdata

lemma legal (r : Request) : r.item.drive.Legal :=
  fun _ => ⟨Vec.known_ofBits _, Vec.known_ofBits _⟩

end Request

inductive RamBin
  | weWrite
  | weRead
  | addr
  | wdata
  | rdata
  deriving DecidableEq

namespace RamSeqItem

variable (item : RamSeqItem)

-- The bin `read` is declared as [0:1], and an unknown value falls into no bin.
def weBins : List RamBin :=
  match item.we with
  | .one => [.weWrite, .weRead]
  | .zero => [.weRead]
  | _ => []

def bins : List RamBin :=
  item.weBins ++ (if item.addr.Known then [.addr] else []) ++
    (if item.we = .one ∧ item.wdata.Known then [.wdata] else []) ++
    (if item.rdata.Known then [.rdata] else [])

lemma weWrite_mem_bins : .weWrite ∈ item.bins ↔ item.we = .one := by
  cases hw : item.we <;> simp [bins, weBins, hw]

end RamSeqItem

structure RamCoverage where
  hits : RamBin → ℕ := fun _ => 0

def RamCoverage.write (c : RamCoverage) (item : RamSeqItem) : RamCoverage :=
  { hits := fun bin => c.hits bin + item.bins.count bin }

structure RamEnvironment where
  bench : Bench := {}
  cov : RamCoverage := {}

namespace RamEnvironment

def cycle (env : RamEnvironment) (driven : Option RamSeqItem) : RamEnvironment :=
  let bench := env.bench.cycle driven
  { bench, cov := env.cov.write bench.rItem }

lemma bench_run (env : RamEnvironment) (samples : List (Option RamSeqItem)) :
    (run cycle env samples).bench = run Bench.cycle env.bench samples := by
  induction samples generalizing env with
  | nil => rfl
  | cons o samples ih => exact ih (env.cycle o)

lemma hits_pos_iff (env : RamEnvironment) (samples : List (Option RamSeqItem)) (bin : RamBin) :
    0 < (run cycle env samples).cov.hits bin ↔ 0 < env.cov.hits bin ∨ ∃ pre o post,
      samples = pre ++ o :: post ∧ bin ∈ ((run Bench.cycle env.bench pre).cycle o).rItem.bins := by
  induction samples generalizing env with
  | nil => simp
  | cons o samples ih =>
    have hfirst : 0 < (env.cycle o).cov.hits bin ↔
        0 < env.cov.hits bin ∨ bin ∈ (env.bench.cycle o).rItem.bins := by
      rw [← List.count_pos_iff]
      exact Nat.add_pos_iff_pos_or_pos
    rw [run_cons, ih, hfirst, or_assoc]
    apply or_congr_right
    constructor
    · rintro (h | ⟨pre, o', post, rfl, h⟩)
      · exact ⟨[], o, samples, rfl, h⟩
      · exact ⟨o :: pre, o', post, rfl, h⟩
    · rintro ⟨pre, o', post, he, h⟩
      cases pre with
      | nil =>
        obtain ⟨rfl, -⟩ := List.cons.inj he
        exact .inl h
      | cons q pre =>
        obtain ⟨rfl, rfl⟩ := List.cons.inj he
        exact .inr ⟨pre, o', post, rfl, h⟩

end RamEnvironment

namespace Bench

variable {b : Bench} {edges : List RamIf}

lemma passes_of_failCnt {scb : RamScoreboard} {item : RamSeqItem}
    (h : (scb.write item).failCnt = scb.failCnt) : scb.Passes item := by
  by_contra hn
  rw [RamScoreboard.failCnt_fail scb item hn] at h
  simp at h

lemma Lockstep.passCnt_clocked (h : b.Lockstep edges) {pins : RamIf} (hl : pins.Legal) :
    (b.clocked pins).scb.passCnt = b.scb.passCnt + 1 :=
  RamScoreboard.passCnt_pass b.scb _ (passes_of_failCnt (failCnt_clocked h.buffer hl))

lemma Lockstep.passCnt_run (h : b.Lockstep edges) (items : List RamSeqItem)
    (hl : ∀ item ∈ items, item.drive.Legal) :
    (run cycle b (items.map some)).scb.passCnt = b.scb.passCnt + .ofNat 32 items.length := by
  induction items generalizing b edges with
  | nil => simp
  | cons item items ih =>
    have hitem := hl item (List.mem_cons_self ..)
    have hrest := ih (h.clocked hitem) fun i hi => hl i (List.mem_cons_of_mem _ hi)
    rw [List.map_cons, run_cons, List.length_cons, Nat.add_comm, BitVec.ofNat_add,
      ← BitVec.add_assoc]
    refine hrest.trans ?_
    rw [h.passCnt_clocked hitem]
    rfl

lemma rItem_write (b : Bench) {r : Request} (hw : r.we = true) :
    (b.cycle (some r.item)).rItem =
      ⟨.one, .ofBits r.addr, .ofBits r.wdata, .ofBits r.wdata⟩ := by
  have hwe : r.item.drive.we.isTrue = true := (Logic.isTrue_ofBool r.we).trans hw
  have hread : (b.dut.alwaysFf r.item.drive).rdata (.ofBits r.addr) = .ofBits r.wdata := by
    rw [Ram.alwaysFf, if_pos hwe, RamSeqItem.drive, Request.item, Memory.writeAt_ofBits, Ram.rdata,
      Memory.readAt_ofBits, Memory.read_write_toNat (by decide : 256 = 2 ^ 8), if_pos rfl]
  have hitem : (b.cycle (some r.item)).rItem =
      ⟨.ofBool r.we, .ofBits r.addr, .ofBits r.wdata,
        (b.dut.alwaysFf r.item.drive).rdata (.ofBits r.addr)⟩ := rfl
  rw [hitem, hread, hw]
  rfl

end Bench

namespace RamTest

open Phases

variable {requests : List Request} {acts : List Act} {s : State RamSeqItem}

lemma written_finished (hne : requests ≠ [])
    (h : schedule State.step (State.init (requests.map Request.item)) acts = some s)
    (hfin : s.finished = true) :
    s.written = none :: (requests.dropLast.map Request.item).map some := by
  obtain ⟨done, hi⟩ := State.inv_schedule h
  obtain ⟨rfl, hwritten⟩ := hi.of_finished hfin
  rw [hwritten, List.dropLast_cons_of_ne_nil (by simpa using hne), ← List.map_dropLast,
    ← List.map_dropLast]

lemma mostRecent_item (requests : List Request) (a : BitVec 8) :
    mostRecent (requests.map Request.item) a =
      ((requests.filter fun r => r.we ∧ r.addr = a).getLast?.map fun r => Vec.ofBits r.wdata).getD
        .allX := by
  rw [mostRecent, List.filter_map, List.getLast?_map, Option.map_map]
  simp only [Function.comp_def, Request.item, Logic.ofBool_eq_one, Vec.ofBits_inj]

theorem ram_test_report (requests : List Request) (hne : requests ≠ []) (acts : List Act)
    (s : State RamSeqItem)
    (h : schedule State.step (State.init (requests.map Request.item)) acts = some s)
    (hfin : s.finished = true) :
    let bench := (run RamEnvironment.cycle {} s.written).bench
    bench.scb.failCnt = 0 ∧ bench.scb.passCnt = .ofNat 32 requests.length ∧
      ∀ a : BitVec 8, Memory.read bench.dut a.toNat =
        ((requests.dropLast.filter fun r => r.we ∧ r.addr = a).getLast?.map
          fun r => Vec.ofBits r.wdata).getD .allX := by
  have hwritten := written_finished hne h hfin
  have hlegal : ∀ item ∈ requests.dropLast.map Request.item, item.drive.Legal := by
    intro item hi
    obtain ⟨r, -, rfl⟩ := List.mem_map.mp hi
    exact r.legal
  obtain ⟨-, hstart⟩ := Bench.undriven_run 1
  have hrun := Bench.driven_run hstart _ hlegal
  have hpass := hstart.passCnt_run _ hlegal
  rw [RamEnvironment.bench_run, hwritten]
  refine ⟨hrun.failCnt, ?_, fun a => ?_⟩
  · have hfirst : (run Bench.cycle {} (List.replicate 1 none)).scb.passCnt = 1 :=
      Bench.lockstep_start.passCnt_clocked RamIf.undriven_legal
    have hlen : requests.length = 1 + (requests.dropLast.map Request.item).length := by
      have hpos := List.length_pos_iff.mpr hne
      rw [List.length_map, List.length_dropLast]
      omega
    rw [hfirst] at hpass
    rw [hlen, BitVec.ofNat_add]
    exact hpass
  · refine (congrArg (Memory.read · a.toNat) hrun.dut).trans ?_
    rw [Ram.read_run, Bench.stored_undriven, stored_drive]
    exact mostRecent_item requests.dropLast a

def twoWrites : List Request := [⟨true, 7, 65⟩, ⟨true, 8, 66⟩]

theorem ram_test_report_lost : ∃ acts s,
    schedule State.step (State.init (twoWrites.map Request.item)) acts = some s ∧
      s.finished = true ∧
        let bench := (run RamEnvironment.cycle {} s.written).bench
        bench.scb.failCnt = 0 ∧ bench.scb.passCnt = 2 ∧
          Memory.read bench.dut 7 = .ofBits 65 ∧ Memory.read bench.dut 8 = .allX := by
  obtain ⟨acts, s, h, hfin⟩ := State.phase_ends (twoWrites.map Request.item)
  obtain ⟨hfail, hpass, hdut⟩ := ram_test_report twoWrites (by decide) acts s h hfin
  exact ⟨acts, s, h, hfin, hfail, hpass, hdut 7, hdut 8⟩

lemma driven_of_eq {pre post : List (Option RamSeqItem)} {o : Option RamSeqItem}
    (he : none :: (requests.dropLast.map Request.item).map some = pre ++ o :: post) :
    (pre = [] ∧ o = none) ∨ ∃ r ∈ requests.dropLast, o = some r.item := by
  cases pre with
  | nil => exact .inl ⟨rfl, (List.cons.inj he).1.symm⟩
  | cons q pre =>
    obtain ⟨-, he⟩ := List.cons.inj he
    have hmem : o ∈ (requests.dropLast.map Request.item).map some := by
      rw [he]
      exact List.mem_append_right _ (List.mem_cons_self ..)
    rw [List.map_map] at hmem
    obtain ⟨r, hr, rfl⟩ := List.mem_map.mp hmem
    exact .inr ⟨r, hr, rfl⟩

theorem ram_coverage_closed (requests : List Request) (hne : requests ≠ []) (acts : List Act)
    (s : State RamSeqItem)
    (h : schedule State.step (State.init (requests.map Request.item)) acts = some s)
    (hfin : s.finished = true) :
    (∀ bin, 0 < (run RamEnvironment.cycle {} s.written).cov.hits bin) ↔
      ∃ r ∈ requests.dropLast, r.we = true := by
  rw [written_finished hne h hfin]
  simp only [RamEnvironment.hits_pos_iff]
  constructor
  · intro hall
    rcases hall .weWrite with h0 | ⟨pre, o, post, he, hbin⟩
    · cases h0
    · rw [RamSeqItem.weWrite_mem_bins] at hbin
      rcases driven_of_eq he with ⟨rfl, rfl⟩ | ⟨r, hr, rfl⟩
      · cases hbin
      · exact ⟨r, hr, (Logic.ofBool_eq_one r.we).mp hbin⟩
  · rintro ⟨r, hr, hw⟩ bin
    obtain ⟨pre, post, he⟩ := List.append_of_mem hr
    refine .inr ⟨none :: (pre.map Request.item).map some, some r.item,
      (post.map Request.item).map some, by simp [he], ?_⟩
    rw [Bench.rItem_write _ hw]
    cases bin <;> simp [RamSeqItem.bins, RamSeqItem.weBins]

theorem ram_coverage_closed_by_one : ∃ acts s,
    schedule State.step (State.init (twoWrites.map Request.item)) acts = some s ∧
      s.finished = true ∧ ∀ bin, 0 < (run RamEnvironment.cycle {} s.written).cov.hits bin := by
  obtain ⟨acts, s, h, hfin⟩ := State.phase_ends (twoWrites.map Request.item)
  exact ⟨acts, s, h, hfin, (ram_coverage_closed twoWrites (by decide) acts s h hfin).mpr (by decide)⟩

end RamTest

end VerilogEx.RamUvm
