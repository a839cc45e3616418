import VerilogEx.FifoBench.Tasks
import VerilogEx.Hdl.Operators
import VerilogEx.Hdl.Verdicts

/-! The main scenario of `fifo_top_tb`, with any string in place of "HELLO". -/

namespace VerilogEx.FifoBench

open Hdl Queues Fifo

-- A string of the language holds no null character, and adding one leaves it as it is.
structure Str where
  bytes : List (BitVec 8) := []
  noNull : 0 ∉ bytes := by simp

namespace Str

def len (s : Str) : ℕ := s.bytes.length

lemma noNull_append (s : Str) {ch : BitVec 8} (h : ch ≠ 0) : 0 ∉ s.bytes ++ [ch] := by
  rw [List.mem_append, List.mem_singleton]
  exact fun hm => hm.elim s.noNull (Ne.symm h)

def putc (s : Str) (ch : BitVec 8) : Str :=
  if h : ch = 0 then s else ⟨s.bytes ++ [ch], s.noNull_append h⟩

lemma ext {s t : Str} (h : s.bytes = t.bytes) : s = t := by
  cases s
  cases t
  congr

instance : DecidableEq Str := fun s t =>
  decidable_of_iff (s.bytes = t.bytes) ⟨ext, congrArg bytes⟩

end Str

namespace FifoTopTb

variable {p : FifoParams}

-- Either order of the initial blocks at time 0: in one of them the clock has yet to fall.
def start (dut : FifoTop p) (clk : Bool) : FifoTopTb p :=
  ⟨dut.powerUp.step (.rst false), clk, .zero, .ofBits 0, .zero⟩

def release (s : FifoTopTb p) : FifoTopTb p := { s with dut := s.dut.step (.rst true) }

def afterReset (dut : FifoTop p) (clk : Bool) : FifoTopTb p :=
  (start dut clk).negedge.negedge.negedge.release.negedge

structure InReset (s : FifoTopTb p) : Prop where
  cleared : s.dut.ctrl = { rstN := .zero, wrPtr := 0, rdPtr := 0 }
  wrIdle : s.wrEn = .zero
  rdIdle : s.rdEn = .zero

lemma inReset_start (dut : FifoTop p) (clk : Bool) : (start dut clk).InReset := ⟨rfl, rfl, rfl⟩

lemma InReset.negedge {s : FifoTopTb p} (h : s.InReset) : s.negedge.InReset where
  cleared := by
    rw [FifoTopTb.negedge]
    split_ifs
    · exact h.cleared
    · apply (FifoTop.ctrl_step _ _).trans
      rw [FifoCtrl.step_low _ _ (by rw [h.cleared])]
  wrIdle := h.wrIdle
  rdIdle := h.rdIdle

lemma InReset.release {s : FifoTopTb p} (h : s.InReset) :
    s.release.Ready ∧ s.release.dut.contents = [] := by
  have hctrl : s.release.dut.ctrl = { rstN := .one, wrPtr := 0, rdPtr := 0 } := by
    apply (FifoTop.ctrl_step _ _).trans
    rw [h.cleared]
    rfl
  refine ⟨⟨?_, by rw [hctrl], h.wrIdle, h.rdIdle⟩, ?_⟩
  · rw [hctrl]
    exact ⟨.inr rfl, fun _ => ⟨rfl, rfl⟩, by simp⟩
  · apply FifoTop.contents_of_cleared
    rw [hctrl]
    exact ⟨rfl, rfl⟩

lemma afterReset_ready (dut : FifoTop p) (clk : Bool) :
    (afterReset dut clk).Ready ∧ (afterReset dut clk).dut.contents = [] := by
  obtain ⟨hready, hnil⟩ := (inReset_start dut clk).negedge.negedge.negedge.release
  rw [afterReset, hready.negedge]
  exact ⟨ready_idle hready.sound hready.high _ _, hnil⟩

theorem reset_tb_passes (dut : FifoTop p) (clk : Bool) :
    (afterReset dut clk).dut.empty = .one ∧ (afterReset dut clk).dut.full = .zero := by
  obtain ⟨-, hnil⟩ := afterReset_ready dut clk
  refine ⟨(FifoTop.empty_iff_contents _).mpr hnil, ?_⟩
  have hcount := FifoTop.length_contents (afterReset dut clk).dut
  have hk := Queues.two_pow_pos p.addrWidth
  rw [hnil, List.length_nil] at hcount
  rw [FifoTop.full, FifoCtrl.full_eq, Logic.ofBool_eq_zero, decide_eq_false_iff_not]
  omega

end FifoTopTb

structure Scenario where
  tb : FifoTopTb .tb
  recvStr : Str := {}
  errorCount : BitVec 32 := 0

namespace Scenario

variable (s : Scenario)

def failIf (cond : Logic) : Scenario :=
  { s with errorCount := if cond.isTrue then s.errorCount + 1 else s.errorCount }

def doWrite (ch : BitVec 8) : Scenario := { s with tb := s.tb.doWrite (.ofBits ch) }

def writeByte (ch : BitVec 8) : Scenario := (s.failIf s.tb.dut.full).doWrite ch

def readByte (len i : ℕ) : Scenario :=
  let s := s.failIf s.tb.dut.empty
  let (tb, capturedData) := s.tb.doRead
  let s := { s with tb }
  if i < len then { s with recvStr := s.recvStr.putc capturedData.toBits }
  else s.failIf (capturedData.eq (.ofBits 0)).not

def writePhase (sendStr : Str) : Scenario := run writeByte s (sendStr.bytes ++ [0])

def readPhase (sendStr : Str) : Scenario :=
  run (readByte · sendStr.len ·) s (List.range (sendStr.len + 1))

def emptyTest (sendStr : Str) : Scenario :=
  let s := s.failIf (.ofBool (s.recvStr ≠ sendStr))
  let s := s.failIf s.tb.dut.empty.not
  let s := { s with tb := s.tb.doRead.1 }
  s.failIf s.tb.dut.empty.not

def fillBytes : List (BitVec 8) := (List.range 8).map fun i => 0x41 + .ofNat 8 i

def fullTest : Scenario :=
  let s := run doWrite s fillBytes
  let s := s.failIf s.tb.dut.full.not
  let s := s.doWrite 0xFF
  let s := s.failIf s.tb.dut.full.not
  { s with tb := s.tb.negedge }

def resetTest : Scenario := (s.failIf s.tb.dut.empty.not).failIf s.tb.dut.full

def main (dut : FifoTop .tb) (clk : Bool) (sendStr : Str) : Scenario :=
  let s : Scenario := { tb := .afterReset dut clk }
  (((s.resetTest.writePhase sendStr).readPhase sendStr).emptyTest sendStr).fullTest

lemma errorCount_failIf (cond : Logic) :
    (s.failIf cond).errorCount = s.errorCount + .ofNat 32 cond.isTrue.toNat := by
  rw [failIf]
  cases cond.isTrue
  · exact (BitVec.add_zero _).symm
  · rfl

def level : ℕ := s.tb.dut.contents.length

lemma depth_tb : FifoParams.tb.depth = 2 ^ FifoParams.tb.addrWidth := rfl

lemma isTrue_full : s.tb.dut.full.isTrue = (s.level == 8) := by
  rw [Bool.eq_iff_iff, Logic.isTrue_iff, FifoTopTb.full_iff_length depth_tb, beq_iff_eq]
  rfl

lemma isTrue_empty : s.tb.dut.empty.isTrue = (s.level == 0) := by
  rw [Bool.eq_iff_iff, Logic.isTrue_iff, FifoTop.empty_iff_contents, beq_iff_eq, level,
    List.length_eq_zero_iff]

lemma isTrue_not_ofBool (b : Bool) : (Logic.ofBool b).not.isTrue = !(Logic.ofBool b).isTrue := by
  cases b <;> rfl

lemma isTrue_not_full : s.tb.dut.full.not.isTrue = !(s.level == 8) := by
  rw [← isTrue_full, FifoTop.full, FifoCtrl.full_eq]
  exact isTrue_not_ofBool _

lemma isTrue_not_empty : s.tb.dut.empty.not.isTrue = !(s.level == 0) := by
  rw [← isTrue_empty, FifoTop.empty, FifoCtrl.empty_eq]
  exact isTrue_not_ofBool _

section Phases

variable {s} (h : s.tb.Ready)

include h

lemma level_le : s.level ≤ 8 := h.length_le depth_tb

lemma level_doWrite (ch : BitVec 8) : (s.doWrite ch).level = min (s.level + 1) 8 := by
  have hlen := congrArg List.length (h.contents_write depth_tb (.ofBits ch))
  rw [List.length_take, List.length_append, List.length_singleton, Nat.min_comm] at hlen
  exact hlen

lemma level_writeByte (ch : BitVec 8) : (s.writeByte ch).level = min (s.level + 1) 8 :=
  level_doWrite (s := s.failIf s.tb.dut.full) h ch

lemma length_doRead : s.tb.doRead.1.dut.contents.length = s.level - 1 := by
  rw [h.contents_read depth_tb, List.length_tail, level]

lemma level_readByte (len i : ℕ) : (s.readByte len i).level = s.level - 1 := by
  have hlen := length_doRead h
  rw [readByte]
  dsimp only
  split_ifs <;> exact hlen

lemma errors_writes (words : List (BitVec 8)) : (run writeByte s words).errorCount =
    s.errorCount + .ofNat 32 (s.level + words.length - 8) := by
  have hle := level_le h
  induction words generalizing s with
  | nil =>
    rw [List.length_nil, Nat.add_zero, Nat.sub_eq_zero_of_le hle]
    exact (BitVec.add_zero _).symm
  | cons ch words ih =>
    have hready : (s.writeByte ch).tb.Ready := h.ready_doWrite _
    have hcount : (s.writeByte ch).errorCount = s.errorCount + .ofNat 32 (s.level == 8).toNat := by
      rw [← isTrue_full]
      exact s.errorCount_failIf _
    rw [run_cons, ih hready (level_le hready), hcount, level_writeByte h, BitVec.add_assoc,
      ← BitVec.ofNat_add, toNat_beq, List.length_cons]
    congr 2
    split_ifs <;> omega

lemma ready_writes (words : List (BitVec 8)) : (run writeByte s words).tb.Ready :=
  run_invariant (I := fun s : Scenario => s.tb.Ready) h (fun _ _ hs => hs.ready_doWrite _) words

lemma level_writes (words : List (BitVec 8)) :
    (run writeByte s words).level = min (s.level + words.length) 8 := by
  have hle := level_le h
  induction words generalizing s with
  | nil =>
    rw [List.length_nil, Nat.add_zero, Nat.min_eq_left hle]
    rfl
  | cons ch words ih =>
    have hready : (s.writeByte ch).tb.Ready := h.ready_doWrite _
    rw [run_cons, ih hready (level_le hready), level_writeByte h, List.length_cons]
    omega

omit h in
lemma errors_readByte (s : Scenario) (len i : ℕ) : (s.readByte len i).errorCount =
    s.errorCount + .ofNat 32 ((s.level == 0).toNat +
      if i < len then 0 else (s.tb.doRead.2.eq (.ofBits 0)).not.isTrue.toNat) := by
  have hcount := s.errorCount_failIf s.tb.dut.empty
  rw [isTrue_empty] at hcount
  rw [readByte]
  dsimp only
  split_ifs with hi
  · exact hcount
  · rw [errorCount_failIf, hcount, BitVec.add_assoc, ← BitVec.ofNat_add]
    rfl

lemma ready_readByte (len i : ℕ) : (s.readByte len i).tb.Ready := by
  rw [readByte]
  dsimp only
  split_ifs <;> exact h.ready_doRead

lemma errors_reads (len : ℕ) (is : List ℕ) : ∃ e ≤ is.countP (len ≤ ·),
    (run (readByte · len ·) s is).errorCount =
      s.errorCount + .ofNat 32 (is.length - s.level + e) := by
  induction is generalizing s with
  | nil => exact ⟨0, Nat.le_refl _, by simp⟩
  | cons i is ih =>
    obtain ⟨e, he, hrest⟩ := ih (ready_readByte h len i)
    rw [errors_readByte, level_readByte h, BitVec.add_assoc, ← BitVec.ofNat_add, toNat_beq] at hrest
    refine ⟨e + if i < len then 0 else (s.tb.doRead.2.eq (.ofBits 0)).not.isTrue.toNat, ?_, ?_⟩
    · have hone := Bool.toNat_le (s.tb.doRead.2.eq (.ofBits 0)).not.isTrue
      rw [List.countP_cons]
      simp only [decide_eq_true_iff]
      split_ifs <;> omega
    · rw [run_cons, hrest, List.length_cons]
      congr 2
      split_ifs <;> omega

lemma contents_reads (len : ℕ) (is : List ℕ) :
    (run (readByte · len ·) s is).tb.Ready ∧
      (run (readByte · len ·) s is).tb.dut.contents = s.tb.dut.contents.drop is.length := by
  induction is generalizing s with
  | nil => exact ⟨h, rfl⟩
  | cons i is ih =>
    obtain ⟨hready, hdrop⟩ := ih (ready_readByte h len i)
    refine ⟨hready, hdrop.trans ?_⟩
    have htail : (s.readByte len i).tb.dut.contents = s.tb.dut.contents.tail := by
      rw [← h.contents_read depth_tb, readByte]
      dsimp only
      split_ifs <;> rfl
    rw [htail, List.drop_tail, List.length_cons]

omit h in
lemma bytes_putc (t : Str) {ch : BitVec 8} (hne : ch ≠ 0) : (t.putc ch).bytes = t.bytes ++ [ch] := by
  rw [Str.putc, dif_neg hne]

lemma captured_head {v : BitVec 8} {vs : List (BitVec 8)}
    (hc : s.tb.dut.contents = (v :: vs).map .ofBits) : s.tb.doRead.2 = .ofBits v := by
  have hne : s.tb.dut.contents ≠ [] := by simp [hc]
  rw [h.doRead]
  apply (s.tb.dut.rdData_eq_head hne).trans
  simp [hc]

lemma readByte_in_string {c : BitVec 8} {rest : List (BitVec 8)} {len i : ℕ} (hc : c ≠ 0)
    (hrest : s.tb.dut.contents = (c :: rest).map .ofBits) (hi : i < len) :
    (s.readByte len i).recvStr.bytes = s.recvStr.bytes ++ [c] ∧
      (s.readByte len i).errorCount = s.errorCount ∧
      (s.readByte len i).tb.dut.contents = rest.map .ofBits := by
  have hlevel : (s.level == 0) = false := by simp [level, hrest]
  refine ⟨?_, ?_, ?_⟩
  · have hcapt : (s.failIf s.tb.dut.empty).tb.doRead.2 = .ofBits c := captured_head h hrest
    rw [readByte]
    dsimp only
    rw [if_pos hi, hcapt, Vec.toBits_ofBits]
    exact bytes_putc s.recvStr hc
  · rw [errors_readByte, hlevel, if_pos hi]
    exact BitVec.add_zero _
  · have htail := (contents_reads h len [i]).2
    rw [hrest] at htail
    exact htail

lemma reads_back {len : ℕ} (pre rest : List (BitVec 8)) (hnull : 0 ∉ rest)
    (hrest : s.tb.dut.contents = (rest ++ [0]).map .ofBits) (hrecv : s.recvStr.bytes = pre)
    (hlen : len = pre.length + rest.length) :
    (run (readByte · len ·) s (List.range' pre.length (rest.length + 1))).recvStr.bytes = pre ++ rest ∧
      (run (readByte · len ·) s (List.range' pre.length (rest.length + 1))).errorCount =
        s.errorCount := by
  induction rest generalizing s pre with
  | nil =>
    have hlevel : (s.level == 0) = false := by simp [level, hrest]
    have hpre : ¬pre.length < len := by simp [hlen]
    rw [List.append_nil, List.length_nil, List.range'_one, run_cons, run_nil]
    refine ⟨?_, ?_⟩
    · rw [readByte]
      dsimp only
      rw [if_neg hpre]
      exact hrecv
    · rw [errors_readByte, hlevel, if_neg hpre, captured_head h hrest, Vec.eq_ofBits]
      exact BitVec.add_zero _
  | cons c rest ih =>
    obtain ⟨hc, hnull⟩ := not_or.mp (mt List.mem_cons.mpr hnull)
    obtain ⟨hgot, hcount, hleft⟩ := readByte_in_string h (Ne.symm hc) hrest
      (show pre.length < len by rw [hlen, List.length_cons]; omega)
    have htail := ih (ready_readByte h len pre.length) (pre ++ [c]) hnull hleft
      (by rw [hgot, hrecv]) (by rw [hlen, List.length_append, List.length_cons]; simp; omega)
    rw [List.length_append, List.length_singleton, hcount, List.append_assoc] at htail
    rw [List.length_cons, List.range'_succ, run_cons]
    exact htail

omit h in
lemma failIf_right (s : Scenario) {cond : Logic} (hcond : cond.isTrue = false) :
    s.failIf cond = s := by
  rw [failIf, hcond]
  rfl

omit h in
lemma not_empty_right (hlevel : s.level = 0) : s.tb.dut.empty.not.isTrue = false := by
  rw [isTrue_not_empty, hlevel]
  rfl

omit h in
lemma not_full_right (hlevel : s.level = 8) : s.tb.dut.full.not.isTrue = false := by
  rw [isTrue_not_full, hlevel]
  rfl

omit h in
lemma resetTest_right (hlevel : s.level = 0) : s.resetTest = s := by
  have hfull : s.tb.dut.full.isTrue = false := by
    rw [isTrue_full, hlevel]
    rfl
  rw [resetTest, failIf_right s (not_empty_right hlevel), failIf_right s hfull]

lemma emptyTest_right (hlevel : s.level = 0) (sendStr : Str) : s.emptyTest sendStr =
    { s.failIf (.ofBool (s.recvStr ≠ sendStr)) with tb := s.tb.doRead.1 } := by
  have hread : level { s.failIf (.ofBool (s.recvStr ≠ sendStr)) with tb := s.tb.doRead.1 } = 0 :=
    (length_doRead h).trans (congrArg (· - 1) hlevel)
  have hsame : (s.failIf (.ofBool (s.recvStr ≠ sendStr))).level = 0 := hlevel
  rw [emptyTest]
  dsimp only
  rw [failIf_right (s.failIf _) (not_empty_right hsame)]
  exact failIf_right _ (not_empty_right hread)

omit h in
lemma errorCount_doWrite (s : Scenario) (ch : BitVec 8) :
    (s.doWrite ch).errorCount = s.errorCount := rfl

omit h in
lemma doWrites_eq (s : Scenario) (words : List (BitVec 8)) :
    run doWrite s words = { s with tb := s.tb.doWrites (words.map .ofBits) } := by
  induction words generalizing s with
  | nil => rfl
  | cons ch words ih => exact ih (s.doWrite ch)

lemma fills (hlevel : s.level = 0) (words : List (BitVec 8)) :
    (run doWrite s words).tb.Ready ∧ (run doWrite s words).level = min words.length 8 := by
  have hempty : s.tb.dut.empty = .one :=
    s.tb.dut.empty_iff_contents.mpr (List.length_eq_zero_iff.mp hlevel)
  have hlen := FifoTopTb.length_fill h depth_tb hempty (words.map .ofBits)
  rw [List.length_map] at hlen
  rw [doWrites_eq]
  exact ⟨h.ready_doWrites _, hlen⟩

omit h in
lemma errorCount_doWrites (s : Scenario) (words : List (BitVec 8)) :
    (run doWrite s words).errorCount = s.errorCount := by
  rw [doWrites_eq]

lemma fullTest_right (hlevel : s.level = 0) : s.fullTest.errorCount = s.errorCount := by
  obtain ⟨hready, hfill⟩ := fills h hlevel fillBytes
  have hlen : fillBytes.length = 8 := by
    rw [fillBytes, List.length_map, List.length_range]
  rw [hlen, Nat.min_self] at hfill
  have hover : ((run doWrite s fillBytes).doWrite 0xFF).level = 8 := by
    rw [level_doWrite hready, hfill]
    rfl
  calc s.fullTest.errorCount
    _ = ((run doWrite s fillBytes).doWrite 0xFF).errorCount := by
      rw [fullTest]
      dsimp only
      rw [failIf_right _ (not_full_right hfill), failIf_right _ (not_full_right hover)]
    _ = (run doWrite s fillBytes).errorCount := errorCount_doWrite _ _
    _ = s.errorCount := errorCount_doWrites s fillBytes

end Phases

section

variable (dut : FifoTop .tb) (clk : Bool) (sendStr : Str)

def written : Scenario := writePhase { tb := .afterReset dut clk } sendStr

def received : Scenario := (written dut clk sendStr).readPhase sendStr

lemma written_spec : (written dut clk sendStr).tb.Ready ∧
    (written dut clk sendStr).level = min (sendStr.len + 1) 8 ∧
    (written dut clk sendStr).errorCount = .ofNat 32 (sendStr.len + 1 - 8) := by
  obtain ⟨hready, hnil⟩ := FifoTopTb.afterReset_ready dut clk
  have hlevel : level { tb := .afterReset dut clk } = 0 := congrArg List.length hnil
  have hlen : (sendStr.bytes ++ [0]).length = sendStr.len + 1 := List.length_append
  refine ⟨ready_writes hready _, ?_, ?_⟩
  · rw [written, writePhase, level_writes hready, hlevel, hlen, Nat.zero_add]
  · rw [written, writePhase, errors_writes hready, hlevel, hlen, Nat.zero_add]
    exact BitVec.zero_add _

lemma written_tb (s : Scenario) (words : List (BitVec 8)) :
    (run writeByte s words).tb = s.tb.doWrites (words.map .ofBits) ∧
      (run writeByte s words).recvStr = s.recvStr := by
  induction words generalizing s with
  | nil => exact ⟨rfl, rfl⟩
  | cons ch words ih => exact ih (s.writeByte ch)

lemma received_spec : (received dut clk sendStr).tb.Ready ∧ (received dut clk sendStr).level = 0 := by
  obtain ⟨hready, hlevel, -⟩ := written_spec dut clk sendStr
  obtain ⟨hready, hdrop⟩ := contents_reads hready sendStr.len (List.range (sendStr.len + 1))
  refine ⟨hready, ?_⟩
  refine (congrArg List.length hdrop).trans ?_
  rw [level] at hlevel
  rw [List.length_drop, hlevel, List.length_range]
  omega

lemma errorCount_main : (main dut clk sendStr).errorCount = (received dut clk sendStr).errorCount +
    .ofNat 32 (decide ((received dut clk sendStr).recvStr ≠ sendStr)).toNat := by
  obtain ⟨hready, hlevel⟩ := received_spec dut clk sendStr
  have hreset : resetTest { tb := .afterReset dut clk } = { tb := .afterReset dut clk } :=
    resetTest_right (congrArg List.length (FifoTopTb.afterReset_ready dut clk).2)
  have htest := emptyTest_right hready hlevel sendStr
  have hmain : main dut clk sendStr = ((received dut clk sendStr).emptyTest sendStr).fullTest := by
    rw [main, hreset]
    rfl
  have hready' : ((received dut clk sendStr).emptyTest sendStr).tb.Ready := by
    rw [htest]
    exact hready.ready_doRead
  have hlevel' : ((received dut clk sendStr).emptyTest sendStr).level = 0 := by
    rw [htest]
    exact (length_doRead hready).trans (congrArg (· - 1) hlevel)
  rw [hmain, fullTest_right hready' hlevel', htest]
  refine (errorCount_failIf _ _).trans ?_
  rw [Logic.isTrue_ofBool]

end

lemma received_of_fits (dut : FifoTop .tb) (clk : Bool) (sendStr : Str)
    (hfits : sendStr.len + 1 ≤ 8) : (received dut clk sendStr).recvStr = sendStr ∧
      (received dut clk sendStr).errorCount = (written dut clk sendStr).errorCount := by
  obtain ⟨hready, hnil⟩ := FifoTopTb.afterReset_ready dut clk
  obtain ⟨htb, hrecv⟩ := written_tb { tb := .afterReset dut clk } (sendStr.bytes ++ [0])
  have hempty := (FifoTop.empty_iff_contents _).mpr hnil
  have hcontents : (written dut clk sendStr).tb.dut.contents =
      (sendStr.bytes ++ [0]).map .ofBits := by
    rw [written, writePhase, htb, FifoTopTb.contents_fill hready depth_tb hempty]
    apply List.take_of_length_le
    rw [List.length_map, List.length_append]
    exact hfits
  have hback := reads_back (written_spec dut clk sendStr).1 [] sendStr.bytes sendStr.noNull hcontents
    (congrArg Str.bytes hrecv) (Nat.zero_add sendStr.len).symm
  rw [List.length_nil, ← List.range_eq_range'] at hback
  exact ⟨Str.ext hback.1, hback.2⟩

lemma main_of_fits (dut : FifoTop .tb) (clk : Bool) (sendStr : Str)
    (hfits : sendStr.len + 1 ≤ 8) : (main dut clk sendStr).errorCount = 0 := by
  obtain ⟨hrecv, hcount⟩ := received_of_fits dut clk sendStr hfits
  rw [errorCount_main, hcount, (written_spec dut clk sendStr).2.2, hrecv,
    Nat.sub_eq_zero_of_le hfits]
  simp

lemma countP_range_le (n : ℕ) : (List.range (n + 1)).countP (n ≤ ·) = 1 := by
  have hbefore : (List.range n).countP (n ≤ ·) = 0 := by
    rw [List.countP_eq_zero]
    intro i hi
    simpa using List.mem_range.mp hi
  rw [List.range_succ, List.countP_append, hbefore]
  simp

lemma main_of_overflow (dut : FifoTop .tb) (clk : Bool) (sendStr : Str)
    (hlen : sendStr.len + 1 < 2 ^ 31) (hover : 8 < sendStr.len + 1) :
    (main dut clk sendStr).errorCount ≠ 0 := by
  obtain ⟨hready, hlevel, hcount⟩ := written_spec dut clk sendStr
  obtain ⟨e, he, herr⟩ := errors_reads hready sendStr.len (List.range (sendStr.len + 1))
  have hlast := Bool.toNat_le (decide ((received dut clk sendStr).recvStr ≠ sendStr))
  rw [countP_range_le] at he
  rw [List.length_range, hlevel, hcount, ← BitVec.ofNat_add] at herr
  replace herr : (received dut clk sendStr).errorCount = _ := herr
  rw [errorCount_main, herr, ← BitVec.ofNat_add]
  intro hzero
  have hnat := congrArg BitVec.toNat hzero
  rw [BitVec.toNat_ofNat, Nat.mod_eq_of_lt] at hnat
  · change _ = 0 at hnat
    omega
  · omega

theorem main_passes_iff (dut : FifoTop .tb) (clk : Bool) (sendStr : Str)
    (hlen : sendStr.len + 1 < 2 ^ 31) :
    (main dut clk sendStr).errorCount = 0 ↔ sendStr.len + 1 ≤ FifoParams.tb.depth := by
  constructor
  · intro hzero
    by_contra hover
    exact main_of_overflow dut clk sendStr hlen (Nat.lt_of_not_le hover) hzero
  · exact main_of_fits dut clk sendStr

def hello : Str := ⟨[0x48, 0x45, 0x4C, 0x4C, 0x4F], by decide⟩

theorem main_passes_hello : (main ⟨⟨.x, 5, 3⟩, fun _ => .allX⟩ false hello).errorCount = 0 :=
  (main_passes_iff ⟨⟨.x, 5, 3⟩, fun _ => .allX⟩ false hello (by decide)).mpr (by decide)

end Scenario

end VerilogEx.FifoBench
