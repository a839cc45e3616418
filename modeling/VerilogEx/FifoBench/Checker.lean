import VerilogEx.FifoBench.Components
import VerilogEx.Hdl.Verdicts

/-! What `fail_cnt = 0` says about a trace of an arbitrary device. The scoreboard sees
the trace with every x and z read as 0, and is exact on that one. -/

namespace VerilogEx.FifoBench

open Hdl Queues Fifo

structure Sample where
  rstN : Bool
  wrEn : Bool
  wrData : BitVec 8
  rdEn : Bool
  full : Logic
  empty : Logic
  rdData : Vec 8

abbrev ModelQueue := BoundedQueue (BitVec 8) 8

namespace Sample

variable (x : Sample) (q : ModelQueue)

def cb : MonCb where
  rstN := .ofBool x.rstN
  wrEn := .ofBool x.wrEn
  wrData := .ofBits x.wrData
  rdEn := .ofBool x.rdEn
  rdData := x.rdData
  full := x.full
  empty := x.empty

def next : ModelQueue :=
  if x.rstN then q.cycle (if x.wrEn then some x.wrData else none) x.rdEn else .nil

def Right : Prop := x.rstN = true →
  x.full = .ofBool (q.items.length == 8) ∧ x.empty = .ofBool (q.items.length == 0) ∧
    (x.rdEn = true → ∀ v ∈ q.items.head?, x.rdData = .ofBits v)

def Known : Prop := x.rstN = true →
  x.full.Known ∧ x.empty.Known ∧ (x.rdEn = true → q.items ≠ [] → x.rdData.Known)

def asBits : Sample :=
  { x with
    full := .ofBool x.full.isTrue
    empty := .ofBool x.empty.isTrue
    rdData := .ofBits x.rdData.toBits }

lemma right_asBits : x.asBits.Right q ↔ (x.rstN = true →
    x.full.isTrue = (q.items.length == 8) ∧ x.empty.isTrue = (q.items.length == 0) ∧
      (x.rdEn = true → ∀ v ∈ q.items.head?, x.rdData.toBits = v)) := by
  simp only [Right, asBits, Logic.ofBool_inj, Vec.ofBits_inj]

lemma right_iff : x.Right q ↔ x.asBits.Right q ∧ x.Known q := by
  rw [right_asBits]
  simp only [Right, Known, Logic.eq_ofBool_iff, Vec.eq_ofBits_iff]
  constructor
  · intro h
    refine ⟨fun hr => ?_, fun hr => ?_⟩
    · obtain ⟨hf, he, hd⟩ := h hr
      exact ⟨hf.2, he.2, fun hrd v hv => (hd hrd v hv).2⟩
    · obtain ⟨hf, he, hd⟩ := h hr
      refine ⟨hf.1, he.1, fun hrd hne => ?_⟩
      obtain ⟨v, vs, hv⟩ := List.exists_cons_of_ne_nil hne
      exact (hd hrd v (by simp [hv])).1
  · rintro ⟨hb, hk⟩ hr
    obtain ⟨hf, he, hd⟩ := hb hr
    obtain ⟨hfk, hek, hdk⟩ := hk hr
    refine ⟨⟨hfk, hf⟩, ⟨hek, he⟩, fun hrd v hv => ⟨hdk hrd ?_, hd hrd v hv⟩⟩
    rintro hn
    simp [hn] at hv

@[simp] lemma ofPins_rstN : (FifoSeqItem.ofPins x.cb).rstN = x.rstN := Logic.isTrue_ofBool _

@[simp] lemma ofPins_wrEn : (FifoSeqItem.ofPins x.cb).wrEn = x.wrEn := Logic.isTrue_ofBool _

@[simp] lemma ofPins_rdEn : (FifoSeqItem.ofPins x.cb).rdEn = x.rdEn := Logic.isTrue_ofBool _

@[simp] lemma ofPins_wrData : (FifoSeqItem.ofPins x.cb).wrData = x.wrData := Vec.toBits_ofBits _

variable {x q} {b : FifoScoreboard}

lemma passes_iff (hq : b.modelQ = q.items) :
    (x.rstN = true → b.isFail (.ofPins x.cb) = false) ↔ x.asBits.Right q := by
  have hf : (FifoSeqItem.ofPins x.cb).full = x.full.isTrue := rfl
  have he : (FifoSeqItem.ofPins x.cb).empty = x.empty.isTrue := rfl
  have hd : (FifoSeqItem.ofPins x.cb).rdData = x.rdData.toBits := rfl
  rw [right_asBits]
  apply imp_congr_right
  intro _
  simp only [FifoScoreboard.isFail, FifoScoreboard.expFull,
    FifoScoreboard.expEmpty, FifoScoreboard.depth, hq, hf, he, hd, ofPins_rdEn]
  cases hi : q.items with
  | nil => simp
  | cons v vs =>
    simp only [List.head?_cons, Option.mem_some_iff, forall_eq']
    by_cases hv : x.rdData.toBits = v
    · simp [hv]
    · have hne : v ≠ x.rdData.toBits := fun h => hv h.symm
      cases x.rdEn <;> simp [hv, hne]

lemma modelQ_write (hq : b.modelQ = q.items) :
    (b.write (.ofPins x.cb)).modelQ = (x.next q).items := by
  cases hr : x.rstN
  · rw [FifoScoreboard.write_reset _ _ (by simp [hr]), next, hr]
    rfl
  · rw [FifoScoreboard.modelQ_write _ _ (by simp [hr]), FifoScoreboard.nextQ_eq _ _ q hq, next, hr]
    simp [FifoScoreboard.depth]

end Sample

def Throughout (P : Sample → ModelQueue → Prop) (trace : List Sample) : Prop :=
  Along (fun q x => P x q) (fun q x => x.next q) .nil trace

def RightTrace (trace : List Sample) : Prop := Throughout Sample.Right trace

def KnownTrace (trace : List Sample) : Prop := Throughout Sample.Known trace

def RightAsBits (trace : List Sample) : Prop := Throughout (fun x q => x.asBits.Right q) trace

def check (s : FifoMonitor × FifoScoreboard) (x : Sample) : FifoMonitor × FifoScoreboard :=
  ((s.1.runPhase x.cb).1, s.2.write (s.1.runPhase x.cb).2)

lemma check_scoreboard (s : FifoMonitor × FifoScoreboard) (x : Sample) :
    (check s x).2 = s.2.write (.ofPins x.cb) := s.2.write_runPhase s.1 x.cb

def Passes (s : FifoMonitor × FifoScoreboard) (x : Sample) : Prop :=
  x.rstN = true → s.2.isFail (.ofPins x.cb) = false

lemma failCnt_check_pass (s : FifoMonitor × FifoScoreboard) (x : Sample) (h : Passes s x) :
    (check s x).2.failCnt = s.2.failCnt := by
  rw [check_scoreboard]
  cases hr : x.rstN
  · rw [FifoScoreboard.write_reset _ _ (by simp [hr])]
  · rw [FifoScoreboard.failCnt_write _ _ (by simp [hr]), h hr]
    rfl

lemma failCnt_check_fail (s : FifoMonitor × FifoScoreboard) (x : Sample) (h : ¬Passes s x) :
    (check s x).2.failCnt = s.2.failCnt + 1 := by
  obtain ⟨hr, hf⟩ := Classical.not_imp.mp h
  rw [check_scoreboard, FifoScoreboard.failCnt_write _ _ (by simp [hr]), if_pos (by simpa using hf)]

lemma failCnt_eq_zero_iff (trace : List Sample) (h : trace.length < 2 ^ 31) :
    (run check ({}, {}) trace).2.failCnt = 0 ↔ RightAsBits trace := by
  have hzero := fails_eq_zero_iff (fun s : FifoMonitor × FifoScoreboard => s.2.failCnt)
    failCnt_check_pass failCnt_check_fail (s := ({}, {})) trace (by simp; omega)
  refine (hzero.trans (and_iff_right rfl)).trans
    (along_congr (R := fun s q => s.2.modelQ = q.items) ?_ ?_ rfl trace)
  · exact fun s q x hq => Sample.passes_iff hq
  · intro s q x hq _
    rw [check_scoreboard]
    exact Sample.modelQ_write hq

theorem checker_sound_iff (trace : List Sample) (h : trace.length < 2 ^ 31) :
    ((run check ({}, {}) trace).2.failCnt = 0 → RightTrace trace) ↔
      (RightAsBits trace → KnownTrace trace) := by
  have hright : RightTrace trace ↔ RightAsBits trace ∧ KnownTrace trace :=
    along_and (fun q x => Sample.right_iff x q) .nil trace
  rw [failCnt_eq_zero_iff trace h, hright]
  tauto

def resetSample : Sample := ⟨false, false, 0, false, .x, .x, .allX⟩

def unknownFull : Sample := ⟨true, false, 0, false, .x, .one, .allX⟩

theorem checker_sound_iff_unknown :
    ((run check ({}, {}) [resetSample, unknownFull]).2.failCnt = 0 →
        RightTrace [resetSample, unknownFull]) ↔
      (RightAsBits [resetSample, unknownFull] → KnownTrace [resetSample, unknownFull]) :=
  checker_sound_iff [resetSample, unknownFull] (by decide)

theorem unknown_full_passes : ¬∀ trace : List Sample, trace.length < 2 ^ 31 →
    (∀ x ∈ trace.head?, x.rstN = false) →
    (run check ({}, {}) trace).2.failCnt = 0 → RightTrace trace := by
  intro h
  have hr := h [resetSample, unknownFull] (by decide) (by simp [resetSample]) (by decide)
  have hx : Logic.x = .ofBool false := (hr.2.1 rfl).1
  cases hx

end VerilogEx.FifoBench
