import VerilogEx.Fifo.Refinement

/-! The tasks `do_write` and `do_read` of `fifo_top_tb`: words written and then read
come back in order, up to the depth of the FIFO. -/

namespace VerilogEx.FifoBench

open Hdl Queues Fifo

structure FifoTopTb (p : FifoParams) where
  dut : FifoTop p
  clk : Bool
  wrEn : Logic
  wrData : Vec p.dataWidth
  rdEn : Logic

namespace FifoTopTb

variable {p : FifoParams} (s : FifoTopTb p)

def pins : Pins p.dataWidth := ⟨s.wrEn, s.wrData, s.rdEn⟩

-- `@(negedge clk)`: when the clock is low, a rising edge comes first.
def negedge : FifoTopTb p :=
  { s with clk := false, dut := if s.clk then s.dut else s.dut.step (.edge s.pins) }

def doWrite (ch : Vec p.dataWidth) : FifoTopTb p :=
  let s := s.negedge
  let s := { s with wrEn := .one, wrData := ch }
  let s := s.negedge
  { s with wrEn := .zero }

def doRead : FifoTopTb p × Vec p.dataWidth :=
  let s := s.negedge
  let dataOut := s.dut.rdData
  let s := { s with rdEn := .one }
  let s := s.negedge
  ({ s with rdEn := .zero }, dataOut)

def doWrites (words : List (Vec p.dataWidth)) : FifoTopTb p := run doWrite s words

def doReads : FifoTopTb p → ℕ → FifoTopTb p × List (Vec p.dataWidth)
  | s, 0 => (s, [])
  | s, n + 1 =>
    let rest := doReads s.doRead.1 n
    (rest.1, s.doRead.2 :: rest.2)

def doFrame (frame : List (Vec p.dataWidth)) : FifoTopTb p × List (Vec p.dataWidth) :=
  (s.doWrites frame).doReads frame.length

def doFrames : FifoTopTb p → List (List (Vec p.dataWidth)) →
    FifoTopTb p × List (List (Vec p.dataWidth))
  | s, [] => (s, [])
  | s, frame :: frames =>
    let rest := doFrames (s.doFrame frame).1 frames
    (rest.1, (s.doFrame frame).2 :: rest.2)

def idle (dut : FifoTop p) (clk : Bool) (wrData : Vec p.dataWidth) : FifoTopTb p :=
  ⟨dut, clk, .zero, wrData, .zero⟩

structure Lossless (words : List (Vec p.dataWidth)) (n : ℕ) : Prop where
  captured : ∀ i < min n (min words.length p.depth),
    ((s.doWrites words).doReads n).2[i]? = words[i]?
  full : (s.doWrites words).dut.full = .one ↔ p.depth ≤ words.length
  empty : ((s.doWrites words).doReads n).1.dut.empty = .one ↔ min words.length p.depth ≤ n
  writesBeyond : ∀ j, p.depth ≤ j →
    (s.doWrites (words.take j)).dut = (s.doWrites (words.take p.depth)).dut
  readsBeyond : ∀ m, min words.length p.depth ≤ m →
    ((s.doWrites words).doReads m).1.dut =
      ((s.doWrites words).doReads (min words.length p.depth)).1.dut

structure Ready : Prop where
  sound : s.dut.ctrl.Sound
  high : s.dut.ctrl.rstN = .one
  wrIdle : s.wrEn = .zero
  rdIdle : s.rdEn = .zero

variable {s}

lemma step_eq_self {t : FifoTop p} (hr : t.ctrl.rstN = .one) {pins : Pins p.dataWidth}
    (hw : (t.ctrl.wrValid pins.wrEn).isTrue = false)
    (hd : (t.ctrl.rdValid pins.rdEn).isTrue = false) : t.step (.edge pins) = t := by
  have hc : t.ctrl.step (.edge pins) = t.ctrl := by
    rw [FifoCtrl.step_high _ pins hr, hw, hd, ← hr]
    rfl
  simp only [FifoTop.step, hc, RegisterFile.alwaysFf, hw]
  rfl

lemma Ready.negedge (h : s.Ready) : s.negedge = idle s.dut false s.wrData := by
  have hs : s.dut.step (.edge s.pins) = s.dut := by
    apply step_eq_self h.high
    · rw [FifoCtrl.isTrue_wrValid, pins, h.wrIdle]
      rfl
    · rw [FifoCtrl.isTrue_rdValid, pins, h.rdIdle]
      rfl
  simp [FifoTopTb.negedge, idle, hs, h.wrIdle, h.rdIdle]

lemma Ready.doWrite (h : s.Ready) (ch : Vec p.dataWidth) :
    s.doWrite ch = idle (s.dut.step (.edge ⟨.one, ch, .zero⟩)) false ch := by
  rw [FifoTopTb.doWrite, h.negedge]
  rfl

lemma Ready.doRead (h : s.Ready) :
    s.doRead = (idle (s.dut.step (.edge ⟨.zero, s.wrData, .one⟩)) false s.wrData, s.dut.rdData) := by
  rw [FifoTopTb.doRead, h.negedge]
  rfl

lemma ready_idle {t : FifoTop p} (hs : t.ctrl.Sound) (hr : t.ctrl.rstN = .one) (clk : Bool)
    (wrData : Vec p.dataWidth) : (idle t clk wrData).Ready :=
  ⟨hs, hr, rfl, rfl⟩

lemma Ready.edge (h : s.Ready) (pins : Pins p.dataWidth) (clk : Bool) (wrData : Vec p.dataWidth) :
    (idle (s.dut.step (.edge pins)) clk wrData).Ready := by
  apply ready_idle
  · rw [FifoTop.ctrl_step]
    exact h.sound.edge pins
  · rw [FifoTop.ctrl_step, FifoCtrl.step_rstN]
    exact h.high

lemma step_full {t : FifoTop p} (hr : t.ctrl.rstN = .one) (hf : t.full = .one)
    (ch : Vec p.dataWidth) : t.step (.edge ⟨.one, ch, .zero⟩) = t := by
  apply step_eq_self hr
  · rw [FifoCtrl.isTrue_wrValid, decide_eq_true (t.ctrl.full_iff.mp hf)]
    rfl
  · rw [FifoCtrl.isTrue_rdValid]
    rfl

lemma step_empty {t : FifoTop p} (hr : t.ctrl.rstN = .one) (he : t.empty = .one)
    (wrData : Vec p.dataWidth) : t.step (.edge ⟨.zero, wrData, .one⟩) = t := by
  apply step_eq_self hr
  · rw [FifoCtrl.isTrue_wrValid]
    rfl
  · rw [FifoCtrl.isTrue_rdValid, decide_eq_true (t.ctrl.empty_iff.mp he)]
    rfl

section

variable (hp : p.depth = 2 ^ p.addrWidth)

include hp

lemma Ready.length_le (h : s.Ready) : s.dut.contents.length ≤ p.depth := by
  rw [s.dut.length_contents, hp]
  exact h.sound.bound

lemma full_iff_length : s.dut.full = .one ↔ s.dut.contents.length = p.depth := by
  rw [s.dut.full_iff_contents, hp]

lemma Ready.contents_write (h : s.Ready) (ch : Vec p.dataWidth) :
    (s.doWrite ch).dut.contents = (s.dut.contents ++ [ch]).take p.depth := by
  have hle := h.length_le hp
  rw [h.doWrite]
  change (s.dut.step (.edge ⟨.one, ch, .zero⟩)).contents = _
  rw [FifoTop.contents_edge hp h.sound h.high]
  change s.dut.contents ++ _ = _
  split_ifs with hlt
  · rw [List.take_of_length_le (by simp; omega)]
    rfl
  · rw [List.take_append_of_le_length (by omega), List.take_of_length_le hle, List.append_nil]

lemma Ready.contents_read (h : s.Ready) :
    s.doRead.1.dut.contents = s.dut.contents.tail := by
  rw [h.doRead]
  change (s.dut.step (.edge ⟨.zero, s.wrData, .one⟩)).contents = _
  rw [FifoTop.contents_edge hp h.sound h.high]
  change s.dut.contents.tail ++ (if _ then [] else []) = _
  simp

end

lemma Ready.ready_doWrite (h : s.Ready) (ch : Vec p.dataWidth) : (s.doWrite ch).Ready := by
  rw [h.doWrite]
  exact h.edge _ _ _

lemma Ready.ready_doRead (h : s.Ready) : s.doRead.1.Ready := by
  rw [h.doRead]
  exact h.edge _ _ _

lemma Ready.ready_doWrites (h : s.Ready) (words : List (Vec p.dataWidth)) :
    (s.doWrites words).Ready :=
  run_invariant h (fun _ ch hs => hs.ready_doWrite ch) words

lemma Ready.ready_doReads (h : s.Ready) (n : ℕ) : (s.doReads n).1.Ready := by
  induction n generalizing s with
  | zero => exact h
  | succ n ih => exact ih h.ready_doRead

lemma Ready.contents_writes (h : s.Ready) (hp : p.depth = 2 ^ p.addrWidth)
    (words : List (Vec p.dataWidth)) :
    (s.doWrites words).dut.contents = (s.dut.contents ++ words).take p.depth := by
  induction words generalizing s with
  | nil =>
    rw [List.append_nil, List.take_of_length_le (h.length_le hp)]
    rfl
  | cons ch words ih =>
    have hle := h.length_le hp
    have hrest := ih (h.ready_doWrite ch)
    rw [h.contents_write hp] at hrest
    apply hrest.trans
    rcases Nat.lt_or_ge s.dut.contents.length p.depth with hlt | hge
    · rw [List.take_of_length_le (l := s.dut.contents ++ [ch]) (by simp; omega),
        List.append_assoc, List.singleton_append]
    · rw [List.take_append_of_le_length hge, List.take_append_of_le_length hge,
        List.take_append_of_le_length (by simp; omega), List.take_take, Nat.min_self]

lemma Ready.contents_reads (h : s.Ready) (hp : p.depth = 2 ^ p.addrWidth) (n : ℕ) :
    (s.doReads n).1.dut.contents = s.dut.contents.drop n := by
  induction n generalizing s with
  | zero => rfl
  | succ n ih =>
    apply (ih h.ready_doRead).trans
    rw [h.contents_read hp, List.drop_tail]

lemma length_doReads (s : FifoTopTb p) (n : ℕ) : (s.doReads n).2.length = n := by
  induction n generalizing s with
  | zero => rfl
  | succ n ih => exact congrArg (· + 1) (ih s.doRead.1)

lemma Ready.captured (h : s.Ready) (hp : p.depth = 2 ^ p.addrWidth) {n i : ℕ} (hn : i < n)
    (hi : i < s.dut.contents.length) : (s.doReads n).2[i]? = s.dut.contents[i]? := by
  induction n generalizing s i with
  | zero => omega
  | succ n ih =>
    have hne : s.dut.contents ≠ [] := List.ne_nil_of_length_pos (by omega)
    obtain ⟨v, vs, hv⟩ := List.exists_cons_of_ne_nil hne
    cases i with
    | zero =>
      have hd : s.doRead.2 = s.dut.rdData := by rw [h.doRead]
      change some s.doRead.2 = _
      rw [hd, s.dut.rdData_eq_head hne]
      simp [hv]
    | succ i =>
      have hc := h.contents_read hp
      have hrest := ih h.ready_doRead (i := i) (by omega) (by rw [hc, List.length_tail]; omega)
      change (s.doRead.1.doReads n).2[i]? = _
      rw [hrest, hc, List.getElem?_tail]

lemma Ready.doWrites_of_full (h : s.Ready) (hf : s.dut.full = .one)
    (words : List (Vec p.dataWidth)) : (s.doWrites words).dut = s.dut := by
  induction words generalizing s with
  | nil => rfl
  | cons ch words ih =>
    have hd : (s.doWrite ch).dut = s.dut := by
      rw [h.doWrite]
      exact step_full h.high hf ch
    exact (ih (h.ready_doWrite ch) (by rw [hd]; exact hf)).trans hd

lemma Ready.doReads_of_empty (h : s.Ready) (he : s.dut.empty = .one) (n : ℕ) :
    (s.doReads n).1.dut = s.dut := by
  induction n generalizing s with
  | zero => rfl
  | succ n ih =>
    have hd : s.doRead.1.dut = s.dut := by
      rw [h.doRead]
      exact step_empty h.high he s.wrData
    exact (ih h.ready_doRead (by rw [hd]; exact he)).trans hd

lemma doReads_add (s : FifoTopTb p) (m n : ℕ) :
    (s.doReads (m + n)).1 = ((s.doReads m).1.doReads n).1 := by
  induction m generalizing s with
  | zero => rw [Nat.zero_add]; rfl
  | succ m ih =>
    rw [Nat.succ_add]
    exact ih s.doRead.1

section

variable (h : s.Ready) (hp : p.depth = 2 ^ p.addrWidth) (he : s.dut.empty = .one)
  (words : List (Vec p.dataWidth))

include h hp he

lemma contents_fill : (s.doWrites words).dut.contents = words.take p.depth := by
  rw [h.contents_writes hp, s.dut.empty_iff_contents.mp he, List.nil_append]

lemma length_fill : (s.doWrites words).dut.contents.length = min words.length p.depth := by
  rw [contents_fill h hp he, List.length_take, Nat.min_comm]

lemma full_fill : (s.doWrites words).dut.full = .one ↔ p.depth ≤ words.length := by
  rw [full_iff_length hp, length_fill h hp he]
  exact min_eq_right_iff

lemma empty_drain (n : ℕ) :
    ((s.doWrites words).doReads n).1.dut.empty = .one ↔ min words.length p.depth ≤ n := by
  rw [FifoTop.empty_iff_contents, (h.ready_doWrites words).contents_reads hp,
    List.drop_eq_nil_iff, length_fill h hp he]

lemma captured_drain {n i : ℕ} (hi : i < min n (min words.length p.depth)) :
    ((s.doWrites words).doReads n).2[i]? = words[i]? := by
  rw [(h.ready_doWrites words).captured hp (by omega) (by rw [length_fill h hp he]; omega),
    contents_fill h hp he, List.getElem?_take_of_lt (by omega)]

lemma writes_beyond {j : ℕ} (hj : p.depth ≤ j) :
    (s.doWrites (words.take j)).dut = (s.doWrites (words.take p.depth)).dut := by
  have hsplit : words.take j = words.take p.depth ++ (words.take j).drop p.depth := by
    have htake : (words.take j).take p.depth = words.take p.depth := by
      rw [List.take_take, Nat.min_eq_left hj]
    rw [← htake, List.take_append_drop]
  rw [hsplit]
  change (run doWrite s _).dut = _
  rw [run_append]
  rcases Nat.lt_or_ge words.length p.depth with hlt | hge
  · have hnil : (words.take j).drop p.depth = [] := by
      rw [List.drop_eq_nil_iff, List.length_take]
      omega
    rw [hnil]
    rfl
  · apply (h.ready_doWrites _).doWrites_of_full
    rw [full_fill h hp he, List.length_take]
    omega

lemma reads_beyond {m : ℕ} (hm : min words.length p.depth ≤ m) :
    ((s.doWrites words).doReads m).1.dut =
      ((s.doWrites words).doReads (min words.length p.depth)).1.dut := by
  obtain ⟨k, rfl⟩ := Nat.exists_eq_add_of_le hm
  rw [doReads_add]
  apply ((h.ready_doWrites words).ready_doReads _).doReads_of_empty
  exact (empty_drain h hp he words _).mpr (Nat.le_refl _)

lemma lossless (n : ℕ) : s.Lossless words n where
  captured _ hi := captured_drain h hp he words hi
  full := full_fill h hp he words
  empty := empty_drain h hp he words n
  writesBeyond _ hj := writes_beyond h hp he words hj
  readsBeyond _ hm := reads_beyond h hp he words hm

lemma frame_recovered (hle : words.length ≤ p.depth) :
    (s.doFrame words).2 = words ∧ (s.doFrame words).1.Ready ∧
      (s.doFrame words).1.dut.empty = .one := by
  refine ⟨?_, (h.ready_doWrites words).ready_doReads _, ?_⟩
  · apply List.ext_getElem?
    intro i
    rcases Nat.lt_or_ge i words.length with hi | hi
    · exact captured_drain h hp he words (by omega)
    · rw [List.getElem?_eq_none (by rw [doFrame, length_doReads]; exact hi),
        List.getElem?_eq_none hi]
  · exact (empty_drain h hp he words _).mpr (Nat.min_le_left _ _)

end

lemma frames_recovered (h : s.Ready) (hp : p.depth = 2 ^ p.addrWidth) (he : s.dut.empty = .one)
    (frames : List (List (Vec p.dataWidth))) (hle : ∀ frame ∈ frames, frame.length ≤ p.depth) :
    (s.doFrames frames).2 = frames ∧ (s.doFrames frames).1.dut.empty = .one := by
  induction frames generalizing s with
  | nil => exact ⟨rfl, he⟩
  | cons frame frames ih =>
    obtain ⟨hgot, hready, hempty⟩ := frame_recovered h hp he frame (hle frame (by simp))
    obtain ⟨hrest, hend⟩ := ih hready hempty fun f hf => hle f (List.mem_cons_of_mem _ hf)
    refine ⟨?_, hend⟩
    change (s.doFrame frame).2 :: _ = _
    rw [hgot, hrest]

theorem fill_then_drain (p : FifoParams) (k : ℕ) (_ : 1 ≤ k) (hp : p.depth = 2 ^ k)
    (t : FifoTop p) (events : List (Event p.dataWidth))
    (hr : (t.resetRun events).ctrl.rstN = .one) (he : (t.resetRun events).empty = .one)
    (clk : Bool) (wrData : Vec p.dataWidth) :
    let s := idle (t.resetRun events) clk wrData
    (∀ words n, s.Lossless words n) ∧
      ∀ frames, (∀ frame ∈ frames, frame.length ≤ p.depth) →
        (s.doFrames frames).2 = frames ∧ (s.doFrames frames).1.dut.empty = .one := by
  have hd := p.depth_of_pow hp
  have h := ready_idle (t.sound_run events) hr clk wrData
  exact ⟨fun words n => lossless h hd he words n, fun frames hle => frames_recovered h hd he frames hle⟩

theorem fill_then_drain_tb :
    (idle (FifoTop.resetRun (p := .tb) ⟨⟨.x, 5, 3⟩, fun _ => .allX⟩
        [.rst true, .edge ⟨.one, .ofBits 7, .zero⟩, .edge ⟨.zero, .allX, .one⟩])
      false .allX).Lossless [.ofBits 72, .ofBits 73] 2 :=
  (fill_then_drain .tb 3 (by decide) rfl ⟨⟨.x, 5, 3⟩, fun _ => .allX⟩
    [.rst true, .edge ⟨.one, .ofBits 7, .zero⟩, .edge ⟨.zero, .allX, .one⟩] rfl rfl
    false .allX).1 [.ofBits 72, .ofBits 73] 2

end FifoTopTb

end VerilogEx.FifoBench
