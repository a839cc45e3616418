import VerilogEx.Hdl.Handshakes
import VerilogEx.Hdl.Resets
import VerilogEx.Hdl.Schedules
import VerilogEx.Uvm.Processes

/-! What a bench shows of its device does not depend on the order in which its processes
run: each clock edge is used up by one item or one wait of the test, and the monitor
passes on what a clocked machine driven by these shows. -/

namespace VerilogEx.Uvm

open Hdl

variable {ι π σ ω : Type*}

def ticks : List (Stmt ι) → List (Option ι)
  | [] => []
  | .start items :: rest => items.map some ++ ticks rest
  | .posedge :: rest => none :: ticks rest
  | .raiseObjection :: rest => ticks rest
  | .dropObjection :: rest => ticks rest

-- A value at each clock edge that changes just after the edges with a new one.
def held {β : Type*} : β → List (Option β) → List β
  | _, [] => []
  | p, t :: ts => p :: held (t.getD p) ts

section

variable {β : Type*} (p : β) (items : List β)

lemma held_map {γ : Type*} (f : β → γ) (ts : List (Option β)) :
    held (f p) (ts.map (Option.map f)) = (held p ts).map f := by
  induction ts generalizing p with
  | nil => rfl
  | cons t ts ih => cases t <;> exact congrArg (f p :: ·) (ih _)

lemma held_items : held p (items.map some) = (p :: items).dropLast := by
  induction items generalizing p with
  | nil => rfl
  | cons i items ih => exact congrArg (p :: ·) (ih i)

lemma held_items_wait : held p (items.map some ++ [none]) = p :: items := by
  induction items generalizing p with
  | nil => rfl
  | cons i items ih => exact congrArg (p :: ·) (ih i)

lemma held_items_wait_twice :
    held p (items.map some ++ [none, none]) = p :: items ++ [items.getLastD p] := by
  induction items generalizing p with
  | nil => rfl
  | cons i items ih =>
    rw [List.getLastD_cons]
    exact congrArg (p :: ·) (ih i)

end

namespace Bench

variable (b : Bench ι π σ ω)

def tick (s : π × σ) (t : Option ι) : π × σ := (t.elim s.1 b.drive, b.next s.2 s.1)

def observed : π × σ → List (Option ι) → List ω
  | _, [] => []
  | s, t :: ts => b.sample s.2 s.1 :: observed (b.tick s t) ts

lemma observed_snoc (s : π × σ) (ts : List (Option ι)) (t : Option ι) :
    b.observed s (ts ++ [t]) =
      b.observed s ts ++ [b.sample (run b.tick s ts).2 (run b.tick s ts).1] := by
  induction ts generalizing s with
  | nil => rfl
  | cons u ts ih => exact congrArg (b.sample s.2 s.1 :: ·) (ih (b.tick s u))

def samples : σ → List π → List ω
  | _, [] => []
  | s, p :: ps => b.sample s p :: samples (b.next s p) ps

lemma samples_snoc (s : σ) (ps : List π) (p : π) :
    b.samples s (ps ++ [p]) = b.samples s ps ++ [b.sample (run b.next s ps) p] := by
  induction ps generalizing s with
  | nil => rfl
  | cons q ps ih => exact congrArg (b.sample s q :: ·) (ih (b.next s q))

lemma samples_dropLast (s : σ) (ps : List π) :
    b.samples s ps.dropLast = (b.samples s ps).dropLast := by
  induction ps using List.reverseRecOn with
  | nil => rfl
  | append_singleton ps p _ => rw [samples_snoc, List.dropLast_concat, List.dropLast_concat]

lemma observed_held (p : π) (s : σ) (ts : List (Option ι)) :
    b.observed (p, s) ts = b.samples s (held p (ts.map (Option.map b.drive))) := by
  induction ts generalizing s p with
  | nil => rfl
  | cons t ts ih => cases t <;> exact congrArg (b.sample s p :: ·) (ih _ (b.next s p))

lemma observed_driven (i : ι) (s : σ) (ts : List (Option ι)) :
    b.observed (b.drive i, s) ts = b.samples s ((held i ts).map b.drive) := by
  rw [observed_held, held_map]

end Bench

namespace Test

def todo : Test ι → List (Option ι)
  | .next rest => ticks rest
  | .finishItem items rest => items.map some ++ ticks rest
  | .atClk false rest => none :: ticks rest
  | .atClk true rest => ticks rest

end Test

namespace Driver

def waiting : Driver ι → Option ι
  | .atClk false i => some i
  | _ => none

end Driver

namespace State

variable (b : Bench ι π σ ω) (s : State ι π σ ω)

def todo : List (Option ι) :=
  s.driver.waiting.toList.map some ++ s.request.toList.map some ++ s.test.todo

def settled : π :=
  match s.driver with
  | .atClk true i => b.drive i
  | _ => s.pins

def Handshake : Prop :=
  match s.test with
  | .finishItem _ _ => Underway s.itemDone (s.driver = .getNextItem) s.request
  | _ => s.driver = .getNextItem ∧ s.request = none

structure Follows (start : π × σ) (stream done : List (Option ι)) : Prop where
  handshake : s.Handshake
  stream_eq : stream = done ++ s.todo
  reached : run b.tick start done = (s.settled b, s.device)
  observed : b.observed start done = s.written ++ s.sampled.toList
  taken_eq : s.taken = done.filterMap id ++ s.driver.waiting.toList

variable {b s} {t : State ι π σ ω}

lemma Handshake.idle (h : s.Handshake) (hn : ∀ items rest, s.test ≠ .finishItem items rest) :
    s.driver = .getNextItem ∧ s.request = none := by
  unfold Handshake at h
  split at h
  case h_1 items rest ht => exact absurd ht (hn items rest)
  case h_2 => exact h

lemma Handshake.underway (h : s.Handshake) {items : List ι} {rest : List (Stmt ι)}
    (ht : s.test = .finishItem items rest) :
    Underway s.itemDone (s.driver = .getNextItem) s.request := by
  rw [Handshake, ht] at h
  exact h

lemma Handshake.sending (h : s.Handshake) (hne : ¬(s.driver = .getNextItem ∧ s.request = none)) :
    ∃ items rest, s.test = .finishItem items rest := by
  unfold Handshake at h
  split at h
  case h_1 items rest ht => exact ⟨items, rest, ht⟩
  case h_2 => exact absurd h hne

lemma clockStep_cases (hh : s.Handshake) (hfin : s.finished = false)
    (h : s.clockStep b = some t) : s.sampled = none ∧
    ((∃ items rest i, s.test = .finishItem items rest ∧ s.itemDone = false ∧
        s.driver = .atClk false i ∧ s.request = none ∧
        t = { s with driver := .atClk true i, device := b.next s.device s.pins
                     sampled := some (b.sample s.device s.pins) }) ∨
      ∃ rest, s.test = .atClk false rest ∧ s.driver = .getNextItem ∧ s.request = none ∧
        t = { s with test := .atClk true rest, device := b.next s.device s.pins
                     sampled := some (b.sample s.device s.pins) }) := by
  obtain ⟨hq, h⟩ := Option.ite_none_right_eq_some.mp h
  obtain rfl := Option.some.inj h
  simp only [Bool.and_eq_true, Option.isNone_iff_eq_none] at hq
  obtain ⟨⟨htest, hdriver⟩, hmonitor⟩ := hq
  refine ⟨by simpa [monitorStep] using hmonitor, ?_⟩
  rcases quiet_test hfin htest with ⟨items, rest, ht, hdone⟩ | ⟨rest, ht⟩
  · rcases quiet_driver hdriver with ⟨hd, hr⟩ | ⟨i, hd⟩
    · exact absurd hd ((hh.underway ht).busy hdone hr)
    · obtain ⟨-, hr⟩ := (hh.underway ht).of_busy (by simp [hd])
      exact .inl ⟨items, rest, i, ht, hdone, hd, hr, by simp [ht, hd]⟩
  · obtain ⟨hd, hr⟩ := hh.idle (by simp [ht])
    exact .inr ⟨rest, ht, hd, hr, by simp [ht, hd]⟩

namespace Follows

variable {start : π × σ} {stream done : List (Option ι)}

lemma test_moves (hf : s.Follows b start stream done)
    (hidle : s.driver = .getNextItem ∧ s.request = none) {test : Test ι}
    (hn : ∀ items rest, test ≠ .finishItem items rest) (htodo : test.todo = s.test.todo) :
    Follows b { s with test } start stream done where
  handshake := by
    unfold Handshake
    split
    case h_1 items rest ht => exact absurd ht (hn items rest)
    case h_2 => exact hidle
  stream_eq := by
    rw [hf.stream_eq, todo, todo, htodo]
  reached := hf.reached
  observed := hf.observed
  taken_eq := hf.taken_eq

lemma sendItem (hf : s.Follows b start stream done) {i : ι} {is : List ι} {rest : List (Stmt ι)}
    (ht : s.test = .next (.start (i :: is) :: rest)) :
    Follows b { s with test := .finishItem is rest, request := some i, itemDone := false }
      start stream done := by
  obtain ⟨hd, hr⟩ := hf.handshake.idle (by simp [ht])
  refine ⟨Underway.sent rfl hd (Option.some_ne_none i), ?_, hf.reached, hf.observed, hf.taken_eq⟩
  have hst := hf.stream_eq
  rw [todo, hd, hr, ht] at hst
  simpa [todo, hd, Driver.waiting, Test.todo, ticks] using hst

lemma itemSent (hf : s.Follows b start stream done) {is : List ι} {rest : List (Stmt ι)}
    (ht : s.test = .finishItem is rest) (hd : s.itemDone = true) :
    Follows b { s with test := .next (.start is :: rest) } start stream done := by
  refine hf.test_moves ((hf.handshake.underway ht).of_done hd) nofun ?_
  rw [ht]
  rfl

lemma testStep (hf : s.Follows b start stream done) (h : s.testStep = some t) :
    t.Follows b start stream done := by
  rcases testStep_cases h with ⟨stmt, rest, ht, hs, rfl⟩ | ⟨i, is, rest, ht, rfl⟩ |
    ⟨rest, ht, rfl⟩ | ⟨is, rest, ht, hd, rfl⟩ | ⟨rest, ht, rfl⟩
  · refine hf.test_moves (hf.handshake.idle (by simp [ht])) nofun ?_
    rw [ht]
    rcases hs with rfl | rfl | rfl <;> rfl
  · exact hf.sendItem ht
  · refine hf.test_moves (hf.handshake.idle (by simp [ht])) nofun ?_
    rw [ht]
    rfl
  · exact hf.itemSent ht hd
  · refine hf.test_moves (hf.handshake.idle (by simp [ht])) nofun ?_
    rw [ht]
    rfl

lemma takeItem (hf : s.Follows b start stream done) {i : ι} (hd : s.driver = .getNextItem)
    (hr : s.request = some i) :
    Follows b { s with driver := .atClk false i, request := none, taken := s.taken ++ [i] }
      start stream done := by
  obtain ⟨items, rest, ht⟩ := hf.handshake.sending (by simp [hr])
  obtain ⟨hdone, -⟩ := (hf.handshake.underway ht).of_request (by simp [hr])
  refine ⟨?_, ?_, ?_, hf.observed, ?_⟩
  · rw [Handshake, ht]
    exact Underway.taken hdone nofun rfl
  · have hst := hf.stream_eq
    rw [todo, hd, hr] at hst
    simpa [todo, Driver.waiting] using hst
  · have hreached := hf.reached
    rw [settled, hd] at hreached
    exact hreached
  · rw [hf.taken_eq, hd]
    simp [Driver.waiting]

lemma driveItem (hf : s.Follows b start stream done) {i : ι} (hd : s.driver = .atClk true i) :
    Follows b { s with driver := .getNextItem, pins := b.drive i, itemDone := true }
      start stream done := by
  obtain ⟨items, rest, ht⟩ := hf.handshake.sending (by simp [hd])
  obtain ⟨-, hr⟩ := (hf.handshake.underway ht).of_busy (by simp [hd])
  refine ⟨?_, ?_, ?_, hf.observed, ?_⟩
  · rw [Handshake, ht]
    exact Underway.returned rfl rfl hr
  · have hst := hf.stream_eq
    rw [todo, hd] at hst
    simpa [todo, Driver.waiting] using hst
  · have hreached := hf.reached
    rw [settled, hd] at hreached
    exact hreached
  · rw [hf.taken_eq, hd]
    rfl

lemma driverStep (hf : s.Follows b start stream done) (h : s.driverStep b = some t) :
    t.Follows b start stream done := by
  rcases driverStep_cases h with ⟨i, hd, hr, rfl⟩ | ⟨i, hd, rfl⟩
  · exact hf.takeItem hd hr
  · exact hf.driveItem hd

lemma monitorStep (hf : s.Follows b start stream done) (h : s.monitorStep = some t) :
    t.Follows b start stream done := by
  obtain ⟨v, hv, rfl⟩ := monitorStep_cases h
  refine ⟨hf.handshake, hf.stream_eq, hf.reached, ?_, hf.taken_eq⟩
  have hobserved := hf.observed
  rw [hv] at hobserved
  simpa using hobserved

lemma clockStep (hf : s.Follows b start stream done) (hfin : s.finished = false)
    (h : s.clockStep b = some t) : ∃ u, t.Follows b start stream (done ++ [u]) := by
  obtain ⟨hnone, hcases⟩ := clockStep_cases hf.handshake hfin h
  have hreached := hf.reached
  have hobserved : ∀ u, b.observed start (done ++ [u]) =
      s.written ++ [b.sample s.device (s.settled b)] := by
    intro u
    rw [b.observed_snoc, hreached, hf.observed, hnone, Option.toList_none, List.append_nil]
  have hst := hf.stream_eq
  rcases hcases with ⟨items, rest, i, ht, hdone, hd, hr, rfl⟩ | ⟨rest, ht, hd, hr, rfl⟩
  · refine ⟨some i, ?_, ?_, ?_, ?_, ?_⟩
    · rw [Handshake, ht]
      exact Underway.taken hdone nofun hr
    · rw [todo, hd, hr, ht] at hst
      simpa [todo, hr, ht, Driver.waiting, Test.todo] using hst
    · rw [run_snoc, hreached, settled, hd]
      rfl
    · rw [hobserved, settled, hd]
      rfl
    · rw [hf.taken_eq, hd]
      simp [Driver.waiting, List.filterMap_append]
  · refine ⟨none, ⟨hd, hr⟩, ?_, ?_, ?_, ?_⟩
    · rw [todo, hd, hr, ht] at hst
      simpa [todo, hd, hr, Driver.waiting, Test.todo] using hst
    · rw [run_snoc, hreached, settled, settled, hd]
      rfl
    · rw [hobserved, settled, hd]
      rfl
    · rw [hf.taken_eq, hd]
      simp [Driver.waiting, List.filterMap_append]

lemma step (hf : s.Follows b start stream done) {a : Act} (h : s.step b a = some t) :
    ∃ us, us.length = [a].count .posedge ∧ t.Follows b start stream (done ++ us) := by
  obtain ⟨hfin, h⟩ := Option.ite_none_left_eq_some.mp h
  cases a with
  | posedge =>
    obtain ⟨u, hu⟩ := hf.clockStep (by simpa using hfin) h
    exact ⟨[u], rfl, hu⟩
  | test => exact ⟨[], rfl, by simpa using hf.testStep h⟩
  | driver => exact ⟨[], rfl, by simpa using hf.driverStep h⟩
  | monitor => exact ⟨[], rfl, by simpa using hf.monitorStep h⟩

lemma init (b : Bench ι π σ ω) (program : List (Stmt ι)) (pins : π) (device : σ) :
    (State.init program pins device).Follows b (pins, device) (ticks program) [] where
  handshake := ⟨rfl, rfl⟩
  stream_eq := rfl
  reached := rfl
  observed := rfl
  taken_eq := rfl

lemma of_finished (hf : s.Follows b start stream done) (hfin : s.finished = true) :
    stream = done ∧ s.settled b = s.pins ∧ s.taken = stream.filterMap id := by
  have ht := finished_iff.mp hfin
  obtain ⟨hd, hr⟩ := hf.handshake.idle (by simp [ht])
  have hst : stream = done := by
    have hst := hf.stream_eq
    rw [todo, hd, hr, ht] at hst
    simpa [Driver.waiting, Test.todo, ticks] using hst
  refine ⟨hst, ?_, ?_⟩
  · rw [settled, hd]
  · rw [hf.taken_eq, hd, hst]
    exact List.append_nil _

end Follows

lemma follows_schedule {program : List (Stmt ι)} {pins : π} {device : σ} {acts : List Act}
    (h : schedule (step b) (init program pins device) acts = some s) :
    ∃ done, done.length = acts.count .posedge ∧
      s.Follows b (pins, device) (ticks program) done := by
  refine schedule_induction (P := fun acts s => ∃ done, done.length = acts.count .posedge ∧
    s.Follows b (pins, device) (ticks program) done) ?_ ?_ h
  · exact ⟨[], rfl, Follows.init b program pins device⟩
  · rintro acts s a t ⟨done, hlen, hf⟩ hs
    obtain ⟨us, hus, hf⟩ := hf.step hs
    refine ⟨done ++ us, ?_, hf⟩
    rw [List.length_append, List.count_append, hlen, hus]

def sinceEdge (acts : List Act) : List Act := sinceReset (· == .posedge) acts

structure Sampled (acts : List Act) (s : State ι π σ ω) : Prop where
  after : .posedge ∈ acts → (s.sampled = none ↔ .monitor ∈ sinceEdge acts)
  before : .posedge ∉ acts → s.sampled = none

namespace Sampled

variable {acts : List Act}

lemma other (h : Sampled acts s) {a : Act} (he : a ≠ .posedge) (hm : a ≠ .monitor)
    (hs : t.sampled = s.sampled) : Sampled (acts ++ [a]) t where
  after hp := by
    have hp : Act.posedge ∈ acts := by simpa [he.symm] using hp
    have hsince : sinceEdge (acts ++ [a]) = sinceEdge acts ++ [a] :=
      sinceReset_snoc acts (by simpa using he)
    rw [hs, h.after hp, hsince]
    simp [hm.symm]
  before hp := by
    rw [hs]
    exact h.before fun hm => hp (List.mem_append_left _ hm)

lemma step (h : Sampled acts s) {a : Act} (hs : s.step b a = some t) :
    Sampled (acts ++ [a]) t := by
  obtain ⟨-, hs⟩ := Option.ite_none_left_eq_some.mp hs
  cases a with
  | posedge =>
    obtain ⟨-, hs⟩ := Option.ite_none_right_eq_some.mp hs
    obtain rfl := Option.some.inj hs
    refine ⟨fun _ => ?_, fun hp => absurd (by simp) hp⟩
    rw [sinceEdge, sinceReset_snoc_reset acts rfl]
    simp
  | test =>
    have hsame : t.sampled = s.sampled := by
      rcases testStep_cases hs with ⟨_, _, -, -, rfl⟩ | ⟨_, _, _, -, rfl⟩ | ⟨_, -, rfl⟩ |
        ⟨_, _, -, -, rfl⟩ | ⟨_, -, rfl⟩ <;> rfl
    exact h.other (by decide) (by decide) hsame
  | driver =>
    have hsame : t.sampled = s.sampled := by
      rcases driverStep_cases hs with ⟨_, -, -, rfl⟩ | ⟨_, -, rfl⟩ <;> rfl
    exact h.other (by decide) (by decide) hsame
  | monitor =>
    obtain ⟨v, hv, rfl⟩ := monitorStep_cases hs
    have hp : Act.posedge ∈ acts := by
      by_contra hp
      rw [h.before hp] at hv
      cases hv
    refine ⟨fun _ => ?_, fun hp' => absurd (List.mem_append_left _ hp) hp'⟩
    rw [sinceEdge, sinceReset_snoc acts rfl]
    simp

lemma schedule {program : List (Stmt ι)} {pins : π} {device : σ}
    (h : Hdl.schedule (State.step b) (init program pins device) acts = some s) : Sampled acts s :=
  schedule_induction (P := Sampled) ⟨fun hp => (by cases hp), fun _ => rfl⟩
    (fun _ _ _ _ hs h => hs.step h) h

end Sampled

-- The monitor misses a sample only if the phase ends before it runs on the last edge.
def passedOn (acts : List Act) (samples : List ω) : List ω :=
  if .monitor ∈ sinceEdge acts then samples else samples.dropLast

lemma passedOn_prefix (acts : List Act) (samples : List ω) : passedOn acts samples <+: samples := by
  unfold passedOn
  split_ifs
  · exact List.prefix_rfl
  · exact List.dropLast_prefix samples

lemma passedOn_map {ω' : Type*} (acts : List Act) (samples : List ω) (f : ω → ω') :
    (passedOn acts samples).map f = passedOn acts (samples.map f) := by
  unfold passedOn
  split_ifs
  · rfl
  · exact List.map_dropLast

lemma passedOn_samples (acts : List Act) (b : Bench ι π σ ω) (device : σ) (pins : List π) :
    passedOn acts (b.samples device pins) = b.samples device (passedOn acts pins) := by
  unfold passedOn
  split_ifs
  · rfl
  · exact (b.samples_dropLast device pins).symm

lemma passedOn_snoc (acts : List Act) (samples : List ω) (v : ω) :
    passedOn acts (samples ++ [v]) = samples ++ if .monitor ∈ sinceEdge acts then [v] else [] := by
  unfold passedOn
  split_ifs
  · rfl
  · rw [List.dropLast_concat, List.append_nil]

lemma passedOn_append (acts : List Act) (samples : List ω) {last : List ω} (h : last ≠ []) :
    passedOn acts (samples ++ last) = samples ++ passedOn acts last := by
  unfold passedOn
  split_ifs
  · rfl
  · exact List.dropLast_append_of_ne_nil h

lemma taken_of_finished {program : List (Stmt ι)} {pins : π} {device : σ} {acts : List Act}
    (h : schedule (step b) (init program pins device) acts = some s) (hfin : s.finished = true) :
    s.taken = (ticks program).filterMap id := by
  obtain ⟨done, -, hf⟩ := follows_schedule h
  exact (hf.of_finished hfin).2.2

theorem outcome {program : List (Stmt ι)} {pins : π} {device : σ} {acts : List Act}
    (h : schedule (step b) (init program pins device) acts = some s) (hfin : s.finished = true) :
    acts.count .posedge = (ticks program).length ∧
      (s.pins, s.device) = run b.tick (pins, device) (ticks program) ∧
      s.written = passedOn acts (b.observed (pins, device) (ticks program)) := by
  obtain ⟨done, hlen, hf⟩ := follows_schedule h
  obtain ⟨rfl, hpins, -⟩ := hf.of_finished hfin
  have hsampled := Sampled.schedule h
  have hobserved := hf.observed
  refine ⟨hlen.symm, ?_, ?_⟩
  · rw [hf.reached, hpins]
  · unfold passedOn
    by_cases hp : Act.posedge ∈ acts
    · split_ifs with hm
      · rw [(hsampled.after hp).mpr hm] at hobserved
        simpa using hobserved.symm
      · obtain ⟨v, hv⟩ := Option.ne_none_iff_exists'.mp fun hn => hm ((hsampled.after hp).mp hn)
        rw [hobserved, hv, Option.toList_some, List.dropLast_concat]
    · have hnil : ticks program = [] := by
        rw [← List.length_eq_zero_iff, hlen]
        exact List.count_eq_zero.mpr hp
      rw [hsampled.before hp, hnil] at hobserved
      have hw : s.written = [] := by simpa [Bench.observed] using hobserved.symm
      rw [hw, hnil]
      split_ifs <;> rfl

end State

end VerilogEx.Uvm
