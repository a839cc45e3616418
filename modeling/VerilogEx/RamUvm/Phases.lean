import VerilogEx.Hdl.Handshakes
import VerilogEx.Hdl.Schedules
import VerilogEx.RamUvm.Processes
import VerilogEx.RamUvm.Rtl

/-! When the objection is dropped the last item has been driven and not yet sampled:
the scoreboard of the RAM bench is given every item but that one. -/

namespace VerilogEx.RamUvm.Phases

open Hdl

variable {α : Type*}

def Test.todo : Test α → List α
  | .raiseObjection items => items
  | .body items => items
  | .finishItem items => items
  | .dropObjection => []
  | .done => []

namespace Driver

def inFlight : Driver α → List α
  | .getNextItem => []
  | .atNegedge _ i => [i]

def Waiting : Driver α → Prop
  | .getNextItem => False
  | .atNegedge woken _ => woken = false

def Woken : Driver α → Prop
  | .getNextItem => False
  | .atNegedge woken _ => woken = true

lemma Waiting.not_woken {d : Driver α} (h : d.Waiting) : ¬d.Woken := by
  cases d with
  | getNextItem => exact id
  | atNegedge woken i => exact fun hw => Bool.false_ne_true (h.symm.trans hw)

end Driver

namespace State

def Handshake (s : State α) : Prop :=
  match s.test with
  | .finishItem _ => Underway s.itemDone (s.driver = .getNextItem) s.request
  | _ => s.driver = .getNextItem ∧ s.request = none

def Timing (s : State α) : Prop :=
  match s.time with
  | .falling => s.monitor = .atPosedge false
  | .rising => s.driver.Waiting ∧ s.pins = s.driven ∧
      (s.monitor = .atPosedge true ∨ s.monitor = .delay false)
  | .unitLater => s.driver.Waiting ∧ s.pins = s.driven ∧
      (s.monitor = .delay true ∨ s.monitor = .atPosedge false)

def Caught (s : State α) : Prop :=
  s.driver.Woken ∨ s.time = .unitLater ∧ s.monitor = .atPosedge false

structure Inv (stream done : List α) (s : State α) : Prop where
  handshake : s.Handshake
  timing : s.Timing
  stream_eq : stream = done ++ s.driver.inFlight ++ s.request.toList ++ s.test.todo
  driven_eq : s.driven = done.getLast?
  caught : s.Caught → s.written = none :: done.map some
  behind : ¬s.Caught → s.written = (none :: done.map some).dropLast

variable {s t : State α} {stream done : List α}

lemma Handshake.of_request (h : s.Handshake) (hr : s.request ≠ none) :
    (∃ items, s.test = .finishItem items) ∧ s.itemDone = false := by
  unfold Handshake at h
  split at h
  case h_1 items ht => exact ⟨⟨items, ht⟩, (h.of_request hr).1⟩
  case h_2 => exact absurd h.2 hr

lemma Handshake.of_driver (h : s.Handshake) (hd : s.driver ≠ .getNextItem) :
    (∃ items, s.test = .finishItem items) ∧ s.itemDone = false ∧ s.request = none := by
  unfold Handshake at h
  split at h
  case h_1 items ht => exact ⟨⟨items, ht⟩, h.of_busy hd⟩
  case h_2 => exact absurd h.1 hd

lemma Handshake.underway (h : s.Handshake) {items : List α} (ht : s.test = .finishItem items) :
    Underway s.itemDone (s.driver = .getNextItem) s.request := by
  rw [Handshake, ht] at h
  exact h

lemma Timing.falling (h : s.Timing) (hd : ¬s.driver.Waiting) :
    s.time = .falling ∧ s.monitor = .atPosedge false := by
  unfold Timing at h
  split at h
  case h_1 ht => exact ⟨ht, h⟩
  case h_2 => exact absurd h.1 hd
  case h_3 => exact absurd h.1 hd

lemma Timing.rising (h : s.Timing) (hm : s.monitor = .atPosedge true) :
    s.time = .rising ∧ s.driver.Waiting ∧ s.pins = s.driven := by
  unfold Timing at h
  split at h
  case h_1 => simp [hm] at h
  case h_2 ht => exact ⟨ht, h.1, h.2.1⟩
  case h_3 => simp [hm] at h

lemma Timing.unitLater (h : s.Timing) (hm : s.monitor = .delay true) :
    s.time = .unitLater ∧ s.driver.Waiting ∧ s.pins = s.driven := by
  unfold Timing at h
  split at h
  case h_1 => simp [hm] at h
  case h_2 => simp [hm] at h
  case h_3 ht => exact ⟨ht, h.1, h.2.1⟩

lemma not_caught (hd : ¬s.driver.Woken) (h : s.time = .unitLater → s.monitor ≠ .atPosedge false) :
    ¬s.Caught := by
  rintro (hc | ⟨ht, hm⟩)
  · exact hd hc
  · exact h ht hm

lemma clockStep_cases (hh : s.Handshake) (htime : s.Timing) (hfin : s.finished = false)
    (h : s.clockStep = some t) : ∃ i, s.driver = .atNegedge false i ∧
    ((s.time = .falling ∧
        t = { s with time := .rising, pins := s.driven, monitor := .atPosedge true }) ∨
      (s.time = .rising ∧
        t = { s with time := .unitLater, pins := s.driven, monitor := .delay true }) ∨
      (s.time = .unitLater ∧ s.monitor = .atPosedge false ∧
        t = { s with time := .falling, pins := s.driven, driver := .atNegedge true i })) := by
  obtain ⟨hq, h⟩ := Option.ite_none_right_eq_some.mp h
  simp only [Bool.and_eq_true, Option.isNone_iff_eq_none] at hq
  obtain ⟨⟨htest, hdriver⟩, hmonitor⟩ := hq
  obtain ⟨⟨items, ht⟩, hdone⟩ := quiet_test hfin htest
  have hm := quiet_monitor hmonitor
  obtain ⟨i, hd⟩ : ∃ i, s.driver = .atNegedge false i := by
    rcases quiet_driver hdriver with ⟨hd, hr⟩ | hd
    · exact absurd hd ((hh.underway ht).busy hdone hr)
    · exact hd
  refine ⟨i, hd, ?_⟩
  unfold Timing at htime
  split at htime
  case h_1 hs =>
    rw [hs, htime] at h
    exact .inl ⟨hs, (Option.some.inj h).symm⟩
  case h_2 hs =>
    have hdelay : s.monitor = .delay false := by
      obtain ⟨-, -, hm' | hm'⟩ := htime
      · simp [hm'] at hm
      · exact hm'
    rw [hs, hdelay] at h
    exact .inr (.inl ⟨hs, (Option.some.inj h).symm⟩)
  case h_3 hs =>
    have hidle : s.monitor = .atPosedge false := by
      obtain ⟨-, -, hm' | hm'⟩ := htime
      · simp [hm'] at hm
      · exact hm'
    rw [hs, hd] at h
    exact .inr (.inr ⟨hs, hidle, (Option.some.inj h).symm⟩)

namespace Inv

lemma test_moves (hi : Inv stream done s) (hidle : s.driver = .getNextItem ∧ s.request = none)
    {test : Test α} (hn : ∀ items, test ≠ .finishItem items) (htodo : test.todo = s.test.todo) :
    Inv stream done { s with test } where
  handshake := by
    unfold Handshake
    split
    case h_1 items ht => exact absurd ht (hn items)
    case h_2 => exact hidle
  timing := hi.timing
  stream_eq := by rw [hi.stream_eq, htodo]
  driven_eq := hi.driven_eq
  caught := hi.caught
  behind := hi.behind

lemma idle (hi : Inv stream done s) (hn : ∀ items, s.test ≠ .finishItem items) :
    s.driver = .getNextItem ∧ s.request = none := by
  have hh := hi.handshake
  unfold Handshake at hh
  split at hh
  case h_1 items ht => exact absurd ht (hn items)
  case h_2 => exact hh

lemma sendItem (hi : Inv stream done s) {i : α} {is : List α} (ht : s.test = .body (i :: is)) :
    Inv stream done { s with test := .finishItem is, request := some i, itemDone := false } := by
  obtain ⟨hd, hr⟩ := hi.idle (by simp [ht])
  have hst := hi.stream_eq
  rw [hr, ht] at hst
  refine ⟨?_, hi.timing, ?_, hi.driven_eq, hi.caught, hi.behind⟩
  · exact Underway.sent rfl hd (Option.some_ne_none i)
  · simpa [Test.todo] using hst

lemma itemSent (hi : Inv stream done s) {is : List α} (ht : s.test = .finishItem is)
    (hd : s.itemDone = true) : Inv stream done { s with test := .body is } := by
  refine hi.test_moves ((hi.handshake.underway ht).of_done hd) nofun ?_
  rw [ht]
  rfl

lemma testStep (hi : Inv stream done s) (h : s.testStep = some t) : Inv stream done t := by
  rcases testStep_cases h with ⟨items, ht, rfl⟩ | ⟨ht, rfl⟩ | ⟨i, is, ht, rfl⟩ |
    ⟨is, ht, hd, rfl⟩ | ⟨ht, rfl⟩
  · refine hi.test_moves (hi.idle (by simp [ht])) nofun ?_
    rw [ht]
    rfl
  · refine hi.test_moves (hi.idle (by simp [ht])) nofun ?_
    rw [ht]
    rfl
  · exact hi.sendItem ht
  · exact hi.itemSent ht hd
  · refine hi.test_moves (hi.idle (by simp [ht])) nofun ?_
    rw [ht]
    rfl

lemma takeItem (hi : Inv stream done s) {i : α} (hd : s.driver = .getNextItem)
    (hr : s.request = some i) :
    Inv stream done { s with driver := .atNegedge false i, request := none } := by
  obtain ⟨⟨items, ht⟩, hdone⟩ := hi.handshake.of_request (by simp [hr])
  obtain ⟨htime, hm⟩ := hi.timing.falling (by rw [hd]; exact id)
  have hn : ¬s.Caught := not_caught (by rw [hd]; exact id) (by simp [htime])
  have hn' : ¬Caught { s with driver := .atNegedge false i, request := none } :=
    not_caught Bool.false_ne_true (by simp [htime])
  refine ⟨?_, ?_, ?_, hi.driven_eq, fun hc => absurd hc hn', fun _ => hi.behind hn⟩
  · rw [Handshake, ht]
    exact Underway.taken hdone nofun rfl
  · rw [Timing]
    simp [htime, hm]
  · have hst := hi.stream_eq
    rw [hd, hr] at hst
    simpa [Driver.inFlight] using hst

lemma driveItem (hi : Inv stream done s) {i : α} (hd : s.driver = .atNegedge true i) :
    Inv stream (done ++ [i])
      { s with driver := .getNextItem, driven := some i, itemDone := true } := by
  obtain ⟨⟨items, ht⟩, -, hr⟩ := hi.handshake.of_driver (by simp [hd])
  obtain ⟨htime, hm⟩ := hi.timing.falling (by rw [hd]; exact nofun)
  have hc : s.Caught := .inl (by rw [hd]; rfl)
  have hn' : ¬Caught { s with driver := .getNextItem, driven := some i, itemDone := true } :=
    not_caught id (by simp [htime])
  refine ⟨?_, ?_, ?_, by simp, fun hc => absurd hc hn', fun _ => ?_⟩
  · rw [Handshake, ht]
    exact Underway.returned rfl rfl hr
  · rw [Timing]
    simp [htime, hm]
  · have hst := hi.stream_eq
    rw [hd] at hst
    simpa [Driver.inFlight] using hst
  · rw [List.map_append, ← List.cons_append, List.map_singleton, List.dropLast_concat]
    exact hi.caught hc

lemma driverStep (hi : Inv stream done s) (h : s.driverStep = some t) :
    ∃ done, Inv stream done t := by
  rcases driverStep_cases h with ⟨i, hd, hr, rfl⟩ | ⟨i, hd, rfl⟩
  · exact ⟨done, hi.takeItem hd hr⟩
  · exact ⟨done ++ [i], hi.driveItem hd⟩

lemma monitorStep (hi : Inv stream done s) (h : s.monitorStep = some t) : Inv stream done t := by
  rcases monitorStep_cases h with ⟨hm, rfl⟩ | ⟨hm, rfl⟩
  · obtain ⟨ht, hw, hp⟩ := hi.timing.rising hm
    have hn : ¬s.Caught := not_caught hw.not_woken (by simp [ht])
    have hn' : ¬Caught { s with monitor := .delay false } := not_caught hw.not_woken (by simp)
    refine ⟨hi.handshake, ?_, hi.stream_eq, hi.driven_eq, fun hc => absurd hc hn',
      fun _ => hi.behind hn⟩
    rw [Timing]
    simp [ht, hw, hp]
  · obtain ⟨ht, hw, hp⟩ := hi.timing.unitLater hm
    have hn : ¬s.Caught := not_caught hw.not_woken (by simp [hm])
    have hc' : Caught { s with monitor := .atPosedge false, written := s.written ++ [s.pins] } :=
      .inr ⟨ht, rfl⟩
    refine ⟨hi.handshake, ?_, hi.stream_eq, hi.driven_eq, fun _ => ?_, fun hn => absurd hc' hn⟩
    · rw [Timing]
      simp [ht, hw, hp]
    · rw [hi.behind hn, hp, hi.driven_eq]
      exact behind_snoc_getLast done

lemma clockStep (hi : Inv stream done s) (hfin : s.finished = false) (h : s.clockStep = some t) :
    Inv stream done t := by
  obtain ⟨i, hd, hcases⟩ := clockStep_cases hi.handshake hi.timing hfin h
  have hh := hi.handshake
  have hst := hi.stream_eq
  have hw : s.driver.Waiting := by
    rw [hd]
    rfl
  rcases hcases with ⟨ht, rfl⟩ | ⟨ht, rfl⟩ | ⟨ht, hm, rfl⟩
  · have hn : ¬s.Caught := not_caught hw.not_woken (by simp [ht])
    have hn' : ¬Caught { s with time := .rising, pins := s.driven, monitor := .atPosedge true } :=
      not_caught hw.not_woken (by simp)
    exact ⟨hh, ⟨hw, rfl, .inl rfl⟩, hst, hi.driven_eq, fun hc => absurd hc hn', fun _ => hi.behind hn⟩
  · have hn : ¬s.Caught := not_caught hw.not_woken (by simp [ht])
    have hn' : ¬Caught { s with time := .unitLater, pins := s.driven, monitor := .delay true } :=
      not_caught hw.not_woken (by simp)
    exact ⟨hh, ⟨hw, rfl, .inl rfl⟩, hst, hi.driven_eq, fun hc => absurd hc hn', fun _ => hi.behind hn⟩
  · obtain ⟨⟨items, htest⟩, hdone, hr⟩ := hh.of_driver (by simp [hd])
    have hc' : Caught { s with time := .falling, pins := s.driven, driver := .atNegedge true i } :=
      .inl rfl
    refine ⟨?_, hm, ?_, hi.driven_eq, fun _ => hi.caught (.inr ⟨ht, hm⟩), fun hn => absurd hc' hn⟩
    · rw [Handshake, htest]
      exact Underway.taken hdone nofun hr
    · rw [hst, hd]
      rfl

lemma step (hi : Inv stream done s) {a : Act} (h : s.step a = some t) :
    ∃ done, Inv stream done t := by
  obtain ⟨hfin, h⟩ := Option.ite_none_left_eq_some.mp h
  cases a with
  | tick => exact ⟨done, hi.clockStep (by simpa using hfin) h⟩
  | test => exact ⟨done, hi.testStep h⟩
  | driver => exact hi.driverStep h
  | monitor => exact ⟨done, hi.monitorStep h⟩

lemma init (items : List α) : Inv items [] (State.init items) where
  handshake := ⟨rfl, rfl⟩
  timing := rfl
  stream_eq := rfl
  driven_eq := rfl
  caught := by
    rintro (hc | ⟨hc, -⟩) <;> cases hc
  behind := fun _ => rfl

end Inv

lemma inv_schedule {items : List α} {acts : List Act}
    (h : schedule State.step (init items) acts = some s) : ∃ done, Inv items done s :=
  schedule_induction (P := fun _ t => ∃ done, Inv items done t) ⟨[], Inv.init items⟩
    (fun _ _ _ _ ⟨_, hi⟩ hs => hi.step hs) h

lemma Inv.of_finished (hi : Inv stream done s) (hfin : s.finished = true) :
    stream = done ∧ s.written = (none :: done.map some).dropLast := by
  have ht : s.test = .done := by
    unfold finished at hfin
    split at hfin
    case h_1 ht => exact ht
    case h_2 => cases hfin
  obtain ⟨hd, hr⟩ := hi.idle (by simp [ht])
  have hst := hi.stream_eq
  rw [hd, hr, ht] at hst
  obtain ⟨htime, -⟩ := hi.timing.falling (by rw [hd]; exact id)
  refine ⟨by simpa [Driver.inFlight, Test.todo] using hst, hi.behind ?_⟩
  exact not_caught (by rw [hd]; exact id) (by simp [htime])

lemma dropWhile_behind (hne : done ≠ []) :
    (none :: done.map some).dropLast.dropWhile Option.isNone = done.dropLast.map some := by
  rw [List.dropLast_cons_of_ne_nil (by simpa using hne), ← List.map_dropLast,
    List.dropWhile_cons_of_pos rfl]
  cases done.dropLast <;> rfl

def afterDrive (is : List α) (i : α) (pins : Option α) (written : List (Option α)) : State α :=
  { test := .finishItem is, itemDone := true, driven := some i, pins, written }

def sendNext : List Act :=
  [.test, .driver, .tick, .monitor, .tick, .monitor, .tick, .driver]

lemma schedule_sendNext (is : List α) (i j : α) (pins : Option α) (written : List (Option α)) :
    schedule step (afterDrive (j :: is) i pins written) (.test :: sendNext) =
      some (afterDrive is j (some i) (written ++ [some i])) := rfl

lemma afterDrive_ends (is : List α) (i : α) (pins : Option α) (written : List (Option α)) :
    ∃ acts s, schedule step (afterDrive is i pins written) acts = some s ∧ s.finished = true := by
  induction is generalizing i pins written with
  | nil => exact ⟨[.test, .test, .test], _, rfl, rfl⟩
  | cons j is ih =>
    obtain ⟨acts, s, h, hfin⟩ := ih j (some i) (written ++ [some i])
    refine ⟨.test :: sendNext ++ acts, s, ?_, hfin⟩
    rw [schedule_append (schedule_sendNext is i j pins written)]
    exact h

lemma phase_ends (items : List α) :
    ∃ acts s, schedule step (init items) acts = some s ∧ s.finished = true := by
  cases items with
  | nil => exact ⟨[.test, .test, .test], _, rfl, rfl⟩
  | cons i is =>
    have hfirst : schedule step (init (i :: is)) (.test :: sendNext) =
        some (afterDrive is i none [none]) := rfl
    obtain ⟨acts, s, h, hfin⟩ := afterDrive_ends is i none [none]
    refine ⟨.test :: sendNext ++ acts, s, ?_, hfin⟩
    rw [schedule_append hfirst]
    exact h

theorem last_item_unchecked (items : List α) (hne : items ≠ []) :
    (∃ acts s, schedule step (init items) acts = some s ∧ s.finished = true) ∧
      ∀ acts s, schedule step (init items) acts = some s → s.finished = true →
        s.transactions = items.dropLast.map some ∧ s.transactions ≠ items.map some := by
  refine ⟨phase_ends items, fun acts s h hfin => ?_⟩
  obtain ⟨done, hi⟩ := inv_schedule h
  obtain ⟨hdone, hwritten⟩ := hi.of_finished hfin
  rw [hdone] at hne ⊢
  have hlast : s.transactions = done.dropLast.map some := by
    rw [transactions, hwritten, dropWhile_behind hne]
  refine ⟨hlast, fun heq => ?_⟩
  have hlen := congrArg List.length (hlast.symm.trans heq)
  have hpos := List.length_pos_iff.mpr hne
  simp only [List.length_map, List.length_dropLast] at hlen
  omega

def writeSeven : RamIf := ⟨.one, .ofBits 7, .ofBits 65⟩

theorem last_item_unchecked_ten :
    (∃ acts s, schedule step (init (List.replicate 10 writeSeven)) acts = some s ∧
        s.finished = true) ∧
      ∀ acts s, schedule step (init (List.replicate 10 writeSeven)) acts = some s →
        s.finished = true →
          s.transactions = (List.replicate 10 writeSeven).dropLast.map some ∧
            s.transactions ≠ (List.replicate 10 writeSeven).map some :=
  last_item_unchecked (List.replicate 10 writeSeven) nofun

theorem single_item_unchecked :
    ¬∀ (items : List RamIf) (acts : List Act) (s : State RamIf), items ≠ [] →
      schedule step (init items) acts = some s → s.finished = true →
        s.transactions = items.map some := by
  intro h
  have hs := h [writeSeven] (.test :: sendNext ++ [.test, .test, .test])
    { test := .done, itemDone := true, driven := some writeSeven, written := [none] } nofun rfl rfl
  cases hs

end State

end VerilogEx.RamUvm.Phases
