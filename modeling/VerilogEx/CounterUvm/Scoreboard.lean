import VerilogEx.CounterUvm.Rtl
import VerilogEx.Hdl.Verdicts

/-! The scoreboard of `tb_counter_uvm`: which traces it accepts. -/

namespace VerilogEx.CounterUvm

open Hdl

structure CounterSeqItem where
  enable : Bool
  rstN : Bool
  counter : BitVec 3
  oTick : Bool
  deriving DecidableEq

namespace CounterSeqItem

def pins (item : CounterSeqItem) : Pins := ⟨item.rstN, item.enable⟩

def ofPins (rstN enable : Logic) (counter : Vec 3) (oTick : Logic) : CounterSeqItem where
  rstN := rstN.isTrue
  enable := enable.isTrue
  counter := counter.toBits
  oTick := oTick.isTrue

end CounterSeqItem

structure CounterScoreboard where
  expectedCount : BitVec 3 := 0
  expectedOTick : BitVec 32 := 0
  passCnt : BitVec 32 := 0
  failCnt : BitVec 32 := 0
  skipCnt : BitVec 32 := 0
  deriving DecidableEq

namespace CounterScoreboard

variable (b : CounterScoreboard) (item : CounterSeqItem)

def Matches : Prop :=
  b.expectedCount = item.counter ∧ b.expectedOTick = (BitVec.ofBool item.oTick).setWidth 32

instance : Decidable (b.Matches item) := inferInstanceAs (Decidable (_ ∧ _))

def write : CounterScoreboard :=
  if !item.rstN then
    { b with skipCnt := b.skipCnt + 1, expectedCount := 0, expectedOTick := 0 }
  else
    let b := if b.Matches item then { b with passCnt := b.passCnt + 1 }
      else { b with failCnt := b.failCnt + 1 }
    let b := { b with expectedOTick := 0 }
    if item.enable then
      { b with
        expectedCount := b.expectedCount + 1
        expectedOTick := if item.counter == 7 then 1 else b.expectedOTick }
    else b

def Passes : Prop := item.rstN = true → b.Matches item

lemma write_reset (h : item.rstN = false) :
    b.write item = { b with skipCnt := b.skipCnt + 1, expectedCount := 0, expectedOTick := 0 } := by
  simp [write, h]

lemma failCnt_write (h : item.rstN = true) :
    (b.write item).failCnt = if b.Matches item then b.failCnt else b.failCnt + 1 := by
  simp only [write, h, Bool.not_true, Bool.false_eq_true, if_false]
  split_ifs <;> rfl

lemma expectedCount_write (h : item.rstN = true) :
    (b.write item).expectedCount = b.expectedCount + if item.enable then 1 else 0 := by
  simp only [write, h, Bool.not_true, Bool.false_eq_true, if_false]
  split_ifs <;> simp

lemma expectedOTick_write (h : item.rstN = true) :
    (b.write item).expectedOTick =
      (BitVec.ofBool (item.enable && item.counter == 7)).setWidth 32 := by
  simp only [write, h, Bool.not_true, Bool.false_eq_true, if_false]
  cases item.enable <;> cases item.counter == 7 <;> rfl

lemma failCnt_pass (h : b.Passes item) : (b.write item).failCnt = b.failCnt := by
  cases hr : item.rstN
  · rw [write_reset b item hr]
  · rw [failCnt_write b item hr, if_pos (h hr)]

lemma failCnt_fail (h : ¬b.Passes item) : (b.write item).failCnt = b.failCnt + 1 := by
  obtain ⟨hr, hm⟩ := Classical.not_imp.mp h
  rw [failCnt_write b item hr, if_neg hm]

lemma skipCnt_write :
    (b.write item).skipCnt = b.skipCnt + if !item.rstN then 1 else 0 := by
  cases hr : item.rstN
  · rw [write_reset b item hr]
    rfl
  · simp only [write, hr, Bool.not_true, Bool.false_eq_true, if_false]
    split_ifs <;> simp

lemma passCnt_write (h : b.Passes item) :
    (b.write item).passCnt = b.passCnt + if item.rstN then 1 else 0 := by
  cases hr : item.rstN
  · rw [write_reset b item hr]
    simp
  · simp only [write, hr, h hr, Bool.not_true, Bool.false_eq_true, if_false, if_true]
    split_ifs <;> rfl

end CounterScoreboard

def Right (pre : List CounterSeqItem) (item : CounterSeqItem) : Prop := item.rstN = true →
  item.counter = .ofNat 3 (enabledSince (pre.map CounterSeqItem.pins)) ∧
    (item.oTick = true ↔ Rollover (pre.map CounterSeqItem.pins))

def RightTrace (items : List CounterSeqItem) : Prop :=
  ∀ pre item post, items = pre ++ item :: post → Right pre item

lemma rightTrace_iff (items : List CounterSeqItem) :
    RightTrace items ↔ Along Right (fun pre item => pre ++ [item]) [] items := by
  rw [along_history]
  rfl

structure Predicts (b : CounterScoreboard) (pre : List CounterSeqItem) : Prop where
  count_eq : b.expectedCount = .ofNat 3 (enabledSince (pre.map CounterSeqItem.pins))
  oTick_eq : b.expectedOTick =
    (BitVec.ofBool (decide (Rollover (pre.map CounterSeqItem.pins)))).setWidth 32

namespace Predicts

variable {b : CounterScoreboard} {pre : List CounterSeqItem}

lemma setWidth_ofBool_inj (x y : Bool) :
    (BitVec.ofBool x).setWidth 32 = (BitVec.ofBool y).setWidth 32 ↔ x = y := by
  cases x <;> cases y <;> simp

lemma passes_iff (h : Predicts b pre) (item : CounterSeqItem) :
    b.Passes item ↔ Right pre item := by
  apply imp_congr_right
  intro _
  rw [CounterScoreboard.Matches, h.count_eq, h.oTick_eq, setWidth_ofBool_inj, eq_comm]
  apply and_congr_right
  intro _
  rw [eq_comm, Bool.eq_iff_iff, decide_eq_true_iff]

lemma write (h : Predicts b pre) {item : CounterSeqItem} (hr : Right pre item) :
    Predicts (b.write item) (pre ++ [item]) := by
  have hmap : (pre ++ [item]).map CounterSeqItem.pins =
      pre.map CounterSeqItem.pins ++ [item.pins] := List.map_append
  cases hrst : item.rstN with
  | false =>
    have hn := not_rollover_low (pre.map CounterSeqItem.pins) (p := item.pins) hrst
    rw [CounterScoreboard.write_reset b item hrst]
    refine ⟨?_, ?_⟩
    · rw [hmap, enabledSince_reset _ hrst]
      rfl
    · rw [hmap, decide_eq_false hn]
      rfl
  | true =>
    refine ⟨?_, ?_⟩
    · rw [CounterScoreboard.expectedCount_write b item hrst, h.count_eq, hmap,
        enabledSince_snoc _ hrst, BitVec.ofNat_add]
      cases he : item.enable <;> simp [CounterSeqItem.pins, he]
    · have hroll : Rollover (pre.map CounterSeqItem.pins ++ [item.pins]) ↔
          item.enable = true ∧ enabledSince (pre.map CounterSeqItem.pins) % 8 = 7 :=
        rollover_high _ hrst
      rw [CounterScoreboard.expectedOTick_write b item hrst, (hr hrst).1, Counter.beq_seven, hmap,
        setWidth_ofBool_inj]
      simp [hroll]

end Predicts

lemma passes_along_iff (items : List CounterSeqItem) :
    Along CounterScoreboard.Passes CounterScoreboard.write {} items ↔ RightTrace items := by
  have h0 : Predicts {} [] := ⟨rfl, by decide⟩
  rw [rightTrace_iff]
  apply along_congr (R := Predicts) _ _ h0 items
  · intro b pre item h
    exact h.passes_iff item
  · intro b pre item h hr
    exact h.write hr

theorem failCnt_eq_zero_iff (items : List CounterSeqItem) (h : items.length < 2 ^ 31) :
    (run CounterScoreboard.write {} items).failCnt = 0 ↔ RightTrace items := by
  have hzero := fails_eq_zero_iff CounterScoreboard.failCnt CounterScoreboard.failCnt_pass
    CounterScoreboard.failCnt_fail (s := {}) items (by simp; omega)
  exact (hzero.trans (and_iff_right rfl)).trans (passes_along_iff items)

-- The monitor samples the counter just before each edge.
def samples (c : Counter) : List Pins → List CounterSeqItem
  | [] => []
  | p :: ps =>
    .ofPins (.ofBool p.rstN) (.ofBool p.enable) c.counter c.oTick :: samples (c.edge p) ps

section

variable {c : Counter} {pre : List CounterSeqItem} (p : Pins)

@[simp] lemma pins_ofPins (counter : Vec 3) (oTick : Logic) :
    (CounterSeqItem.ofPins (.ofBool p.rstN) (.ofBool p.enable) counter oTick).pins = p := by
  simp [CounterSeqItem.pins, CounterSeqItem.ofPins]

lemma right_sample (hc : c.Counts (pre.map CounterSeqItem.pins)) (rstN enable : Logic) :
    Right pre (.ofPins rstN enable c.counter c.oTick) := by
  refine fun _ => ⟨?_, ?_⟩
  · simp [CounterSeqItem.ofPins, hc.counter_eq]
  · simp [CounterSeqItem.ofPins, hc.oTick_eq]

lemma right_samples (hc : c.Counts (pre.map CounterSeqItem.pins)) (ps : List Pins) :
    Along Right (fun pre item => pre ++ [item]) pre (samples c ps) := by
  induction ps generalizing c pre with
  | nil => trivial
  | cons p ps ih =>
    refine ⟨right_sample hc _ _, ih ?_⟩
    rw [List.map_append, List.map_singleton, pins_ofPins]
    exact hc.edge p

lemma rightTrace_samples (c : Counter) (ps : List Pins) (h : p.rstN = false) :
    RightTrace (samples c (p :: ps)) := by
  rw [rightTrace_iff]
  refine ⟨fun hr => ?_, right_samples ?_ ps⟩
  · exact absurd hr (by simp [CounterSeqItem.ofPins, h])
  · rw [List.map_append, List.map_singleton, pins_ofPins]
    exact Counter.counts_reset c [] h

end

theorem scoreboard_exact (items : List CounterSeqItem) (hlen : items.length < 2 ^ 31)
    (c : Counter) (p : Pins) (ps : List Pins) (hp : p.rstN = false) :
    ((run CounterScoreboard.write {} items).failCnt = 0 ↔ RightTrace items) ∧
      (run CounterScoreboard.write {} (samples c (p :: ps))).failCnt = 0 := by
  refine ⟨failCnt_eq_zero_iff items hlen, ?_⟩
  exact fails_run_of_along CounterScoreboard.failCnt CounterScoreboard.failCnt_pass
    ((passes_along_iff _).mpr (rightTrace_samples p c ps hp))

def wrongTick : List CounterSeqItem :=
  [⟨false, false, 0, false⟩, ⟨true, true, 0, false⟩, ⟨true, true, 1, true⟩]

theorem scoreboard_exact_wrongTick :
    ((run CounterScoreboard.write {} wrongTick).failCnt = 0 ↔ RightTrace wrongTick) ∧
      (run CounterScoreboard.write {}
        (samples ⟨.allX, .x⟩ (⟨false, true⟩ :: List.replicate 20 ⟨true, true⟩))).failCnt = 0 :=
  scoreboard_exact wrongTick (by decide) ⟨.allX, .x⟩ ⟨false, true⟩ (List.replicate 20 ⟨true, true⟩) rfl

end VerilogEx.CounterUvm
