-- The event log, from iSSDStats.cc: the device puts the events into the shared queue, and the
-- thread of `write_event_log_to_file` takes them out and appends them to the file, ten at a
-- time or after 10 seconds without an event. Each assignment to the queue is a step of its own.
import S4Sim.Stats.EventLog
import S4Sim.Lib.SharedRing
import S4Sim.Lib.Run

namespace S4Sim

open Rings Runs Windows

/-- The assignments of `enQueueEvt`. The thread copies an event to `wait_buffer` with the same
four. -/
def eventCopies : FieldCopies StatsEvent :=
  [fun e evt => { evt with event_code := e.event_code },
    fun e evt => { evt with event_cycle := e.event_cycle },
    fun e evt => { evt with longs := (e.longs.1, evt.longs.2) },
    fun e evt => { evt with longs := (evt.longs.1, e.longs.2) }]

/-- The memory of the device, the shared queue, and the variables of the thread. `rest` are the
copies to `wait_buffer` that are left, and `accepted` is not in the source: the events that
found room, in the order of the writes. -/
structure EventLog where
  memory : Nat → UInt8
  event_queue : SharedRing StatsEvent
  rest : FieldCopies StatsEvent
  wait_buffer : Nat → StatsEvent
  writes : Nat
  idle_cycles : Nat
  file : List StatsEvent
  accepted : List StatsEvent

namespace EventLog

variable (s : EventLog)

/-! ## The device -/

/-- The stores of a register write. One behind `event[7]` changes the pointer `event_queue` in
the source; here it changes the memory only. -/
def storePkt (behind : Nat → UInt8) (curTick : Nat) (pkt : StatsPacket) : EventLog :=
  { s with
    memory := (pkt.stores behind curTick).foldl
      (fun memory store => writeWindow memory store.offset store.len store.bytes) s.memory }

/-- `addEvent`, up to its first assignment. A full queue drops the event. -/
def addEvent (evt : StatsEvent) : EventLog :=
  { s with
    event_queue := s.event_queue.produce eventCopies evt
    accepted :=
      if s.event_queue.head = (s.event_queue.tail + 1) % s.event_queue.size then s.accepted
      else s.accepted ++ [evt] }

/-- A step of `iSSDStats::write`. The next register write comes after the assignments of the one
before. -/
def deviceStep (behind : Nat → UInt8) (curTick : Nat) (pkt : StatsPacket) : EventLog :=
  match s.event_queue.producer with
  | .storing evt _ => { s with event_queue := s.event_queue.produce eventCopies evt }
  | .idle =>
    let s := s.storePkt behind curTick pkt
    if pkt.offset = 0 then s.addEvent (eventAt s.memory pkt.core_id) else s

/-! ## The thread -/

/-- The events in `wait_buffer`. -/
def waiting : List StatsEvent := (List.range s.writes).map s.wait_buffer

def flushtofile : EventLog := { s with file := s.file ++ s.waiting, writes := 0 }

/-- The queue is empty. -/
def idleTurn : EventLog :=
  if s.idle_cycles + 1 > 200 ∧ s.writes ≠ 0 then { s.flushtofile with idle_cycles := 0 }
  else { s with idle_cycles := s.idle_cycles + 1 }

/-- The event is in `wait_buffer`. -/
def takeEvent : EventLog :=
  let s := { s with
    event_queue := s.event_queue.consume, writes := s.writes + 1, idle_cycles := 0 }
  if s.writes ≥ 10 then s.flushtofile else s

/-- A step of `write_event_log_to_file`. -/
def threadStep : EventLog :=
  match s.event_queue.consumer with
  | .idle =>
    if s.event_queue.head = s.event_queue.tail then s.idleTurn
    else { s with event_queue := s.event_queue.consume }
  | .found _ => { s with event_queue := s.event_queue.consume, rest := eventCopies }
  | .taken i =>
    match s.rest with
    | copy :: rest =>
      { s with
        wait_buffer := Function.update s.wait_buffer s.writes
          (copy (s.event_queue.cells i) (s.wait_buffer s.writes))
        rest }
    | [] => s.takeEvent

end EventLog

inductive LogAction
  | device (behind : Nat → UInt8) (curTick : Nat) (pkt : StatsPacket)
  | thread

def logStep (s : EventLog) : LogAction → Option EventLog
  | .device behind curTick pkt => some (s.deviceStep behind curTick pkt)
  | .thread => some s.threadStep

namespace EventLog

/-- The thread starts. The shared memory keeps the events of an earlier run. -/
def start (memory : Nat → UInt8) (q : RingBuffer StatsEvent) (left : List StatsEvent)
    (wait_buffer : Nat → StatsEvent) : EventLog :=
  ⟨memory, .ofRing q left, [], wait_buffer, 0, 0, [], left⟩

/-! ## The invariant -/

/-- What the copies to `wait_buffer` have done so far. -/
def CopyGood (s : EventLog) : Prop :=
  match s.event_queue.consumer with
  | .taken i => copyFields s.rest (s.event_queue.cells i) (s.wait_buffer s.writes) =
      s.event_queue.cells i
  | _ => True

structure Logging (base : Nat) (s : EventLog) : Prop where
  shared : s.event_queue.Shared base
  accepted : s.accepted = s.event_queue.sent ++ s.event_queue.storing
  taken : s.file ++ s.waiting = s.event_queue.sent.take s.event_queue.done
  writes : s.writes < 10
  idle : s.writes ≠ 0 → s.idle_cycles ≤ 200
  copy : s.CopyGood
  rest : s.rest.length ≤ 4

section Steps

variable {s : EventLog} {base curTick : Nat} {behind : Nat → UInt8} {pkt : StatsPacket}

theorem whole_eventCopies : Whole eventCopies := fun _ _ => rfl

theorem logging_start {memory : Nat → UInt8} {q : RingBuffer StatsEvent} {left : List StatsEvent}
    {wait_buffer : Nat → StatsEvent} (h : q.Holds left) :
    (start memory q left wait_buffer).Logging q.head :=
  ⟨SharedRing.shared_ofRing h, by simp [start, SharedRing.storing, SharedRing.ofRing],
    by simp [start, waiting, SharedRing.ofRing], by simp [start], by simp [start], trivial,
    by simp [start]⟩

/-! ## The steps -/

theorem waiting_congr {t : EventLog} (hwrites : t.writes = s.writes)
    (hbuffer : ∀ i < s.writes, t.wait_buffer i = s.wait_buffer i) : t.waiting = s.waiting := by
  unfold waiting
  rw [hwrites]
  exact List.map_congr_left fun i hi => hbuffer i (List.mem_range.mp hi)

theorem Logging.memory (h : s.Logging base) (memory : Nat → UInt8) :
    Logging base { s with memory } :=
  ⟨h.shared, h.accepted, h.taken, h.writes, h.idle, h.copy, h.rest⟩

theorem memory_producer (hpc : s.event_queue.producer = .idle) (memory : Nat → UInt8) :
    ({ s with memory } : EventLog).event_queue.producer = .idle := hpc

theorem storePkt_producer (hpc : s.event_queue.producer = .idle) :
    (s.storePkt behind curTick pkt).event_queue.producer = .idle := by
  unfold EventLog.storePkt
  exact memory_producer hpc _

theorem Logging.storePkt (h : s.Logging base) : (s.storePkt behind curTick pkt).Logging base := by
  unfold EventLog.storePkt
  exact h.memory _

/-- The producer leaves the event that the thread copies. -/
theorem Logging.copy_produce (h : s.Logging base) (evt : StatsEvent) {t : EventLog}
    (hqueue : t.event_queue = s.event_queue.produce eventCopies evt) (hrest : t.rest = s.rest)
    (hbuffer : t.wait_buffer = s.wait_buffer) (hwrites : t.writes = s.writes) : t.CopyGood := by
  have hgood := h.copy
  have hconsumer := (s.event_queue.produce_frame eventCopies evt).1
  unfold CopyGood at hgood ⊢
  rw [hqueue, hconsumer, hrest, hbuffer, hwrites]
  split
  · rename_i i hpc
    rw [hpc] at hgood
    rw [h.shared.produce_taken whole_eventCopies hpc]
    exact hgood
  · trivial

theorem Logging.addEvent (h : s.Logging base) (hpc : s.event_queue.producer = .idle)
    (evt : StatsEvent) : (s.addEvent evt).Logging base := by
  refine ⟨h.shared.produce whole_eventCopies, ?_, h.taken.trans (h.shared.take_produce _ evt).symm,
    h.writes, h.idle, h.copy_produce evt rfl rfl rfl rfl, h.rest⟩
  have hold : s.accepted = s.event_queue.sent := by
    have hold := h.accepted
    rwa [SharedRing.storing, hpc, List.append_nil] at hold
  unfold EventLog.addEvent
  simp only
  rw [SharedRing.produce_idle hpc, hold]

/-- The device goes on with its event, or takes the next register write. -/
theorem Logging.device (h : s.Logging base) : (s.deviceStep behind curTick pkt).Logging base := by
  unfold deviceStep
  split
  · rename_i evt rest hpc
    refine ⟨h.shared.produce whole_eventCopies, ?_,
      h.taken.trans (h.shared.take_produce _ evt).symm, h.writes, h.idle,
      h.copy_produce evt rfl rfl rfl rfl, h.rest⟩
    exact h.accepted.trans (SharedRing.produce_storing hpc).symm
  · rename_i hpc
    simp only
    split
    · exact h.storePkt.addEvent (storePkt_producer hpc) _
    · exact h.storePkt

/-- A flush moves the events from `wait_buffer` to the file. -/
theorem flushtofile_events : s.flushtofile.file ++ s.flushtofile.waiting = s.file ++ s.waiting := by
  simp [flushtofile, waiting]

theorem Logging.thread (h : s.Logging base) : s.threadStep.Logging base := by
  unfold threadStep
  split
  · rename_i hpc
    split
    · unfold idleTurn
      split
      · refine ⟨h.shared, h.accepted, ?_, by simp [flushtofile], by simp [flushtofile], ?_, h.rest⟩
        · exact flushtofile_events.trans h.taken
        · simp only [CopyGood, flushtofile, hpc]
      · rename_i hidle
        refine ⟨h.shared, h.accepted, h.taken, h.writes, fun hwrites => ?_, h.copy, h.rest⟩
        have hwrites : s.writes ≠ 0 := hwrites
        simp only
        omega
    · rename_i htest
      have hconsume := SharedRing.consume_idle hpc htest
      refine ⟨h.shared.consume, ?_, ?_, h.writes, h.idle, ?_, h.rest⟩
      · simp only [hconsume]
        exact h.accepted
      · simp only [hconsume]
        exact h.taken
      · simp only [CopyGood, hconsume]
  · rename_i i hpc
    have hconsume := SharedRing.consume_found hpc
    refine ⟨h.shared.consume, ?_, ?_, h.writes, h.idle, ?_, Nat.le_refl _⟩
    · simp only [hconsume]
      exact h.accepted
    · simp only [hconsume]
      exact h.taken
    · simp only [CopyGood, hconsume]
      exact whole_eventCopies _ _
  · rename_i i hpc
    have hgood := h.copy
    rw [CopyGood, hpc] at hgood
    split
    · rename_i copy rest hrest
      rw [hrest] at hgood
      have hfew := h.rest
      rw [hrest, List.length_cons] at hfew
      refine ⟨h.shared, h.accepted, ?_, h.writes, h.idle, ?_, Nat.le_of_succ_le hfew⟩
      · refine Eq.trans ?_ h.taken
        congr 1
        refine waiting_congr rfl fun j hj => ?_
        simp only
        rw [Function.update_of_ne (Nat.ne_of_lt hj)]
      · simp only [CopyGood, hpc, Function.update_self]
        exact hgood
    · rename_i hrest
      rw [hrest] at hgood
      have hcell : s.wait_buffer s.writes = s.event_queue.cells i := hgood
      have hconsume := SharedRing.consume_taken hpc
      have hmoved : s.file ++ (List.range (s.writes + 1)).map s.wait_buffer =
          s.event_queue.sent.take (s.event_queue.done + 1) := by
        have htaken := h.shared.taken_cell hpc
        rw [List.range_succ, List.map_append, ← List.append_assoc, List.take_add_one, htaken]
        simp only [List.map_singleton, Option.toList_some, hcell]
        rw [show s.file ++ (List.range s.writes).map s.wait_buffer = _ from h.taken]
      unfold takeEvent
      simp only
      split
      · refine ⟨h.shared.consume, ?_, ?_, by simp [flushtofile], by simp [flushtofile], ?_, h.rest⟩
        · simp only [flushtofile, hconsume]
          exact h.accepted
        · simp only [flushtofile, waiting, hconsume, List.range_zero, List.map_nil, List.append_nil]
          exact hmoved
        · simp only [CopyGood, flushtofile, hconsume]
      · rename_i hfew
        refine ⟨h.shared.consume, ?_, ?_, by simp only; omega, by simp, ?_, h.rest⟩
        · simp only [hconsume]
          exact h.accepted
        · simp only [waiting, hconsume]
          exact hmoved
        · simp only [CopyGood, hconsume]

theorem logging_step {t : EventLog} {a : LogAction} (h : s.Logging base)
    (hs : logStep s a = some t) : t.Logging base := by
  cases a with
  | device behind curTick pkt =>
    obtain rfl := Option.some.inj hs
    exact h.device
  | thread =>
    obtain rfl := Option.some.inj hs
    exact h.thread

/-! ## The end of a silence -/

/-- The events that the thread is not done with. -/
def left (s : EventLog) : Nat := s.event_queue.sent.length - s.event_queue.done

/-- The steps that bring `left` events to `wait_buffer`, seven for each. -/
def takeSteps (left copies : Nat) : Consumer → Nat
  | .idle => 7 * left
  | .found _ => 7 * left - 1
  | .taken _ => 7 * left - 6 + copies

/-- The idle turns up to the last flush. -/
def flushSteps (left writes idle_cycles : Nat) : Nat :=
  if left = 0 then (if writes = 0 then 0 else 201 - idle_cycles) else 201

def stepsLeft (s : EventLog) : Nat :=
  takeSteps s.left s.rest.length s.event_queue.consumer + flushSteps s.left s.writes s.idle_cycles

theorem threadStep_accepted : s.threadStep.accepted = s.accepted := by
  unfold threadStep
  split
  · split
    · unfold idleTurn
      split <;> rfl
    · rfl
  · rfl
  · split
    · rfl
    · unfold takeEvent
      simp only
      split <;> rfl

theorem stepsLeft_eq {k : Nat} {consumer : Consumer} (hpc : s.event_queue.consumer = consumer)
    (hleft : s.left = k) : s.stepsLeft =
      takeSteps k s.rest.length consumer + flushSteps k s.writes s.idle_cycles := by
  unfold stepsLeft
  rw [hpc, hleft]

theorem flushSteps_le (left writes idle_cycles : Nat) :
    flushSteps left writes idle_cycles ≤ 201 := by
  unfold flushSteps
  split
  · split <;> omega
  · exact Nat.le_refl _

theorem left_of_idle (h : s.Logging base) (hpc : s.event_queue.consumer = .idle) :
    s.event_queue.head = s.event_queue.tail ↔ s.left = 0 := by
  have hpassed : s.event_queue.passed = s.event_queue.done := by
    unfold SharedRing.passed
    rw [hpc]
  have hle := h.shared.passed_le
  rw [h.shared.empty_test, left]
  omega

theorem left_pos (h : s.Logging base) {i : Nat}
    (hpc : s.event_queue.consumer = .found i ∨ s.event_queue.consumer = .taken i) :
    0 < s.left := by
  have hgood := h.shared.consumer
  unfold left
  rcases hpc with hpc | hpc <;> rw [SharedRing.ConsumerGood, hpc] at hgood <;> omega

/-- An idle turn comes nearer to the flush, or there is nothing to flush. -/
theorem Logging.idleTurn_steps (h : s.Logging base) (hpc : s.event_queue.consumer = .idle)
    (hnone : s.left = 0) : s.idleTurn.stepsLeft ≤ s.stepsLeft - 1 := by
  have hidle := h.idle
  have hold : s.stepsLeft = flushSteps 0 s.writes s.idle_cycles :=
    (stepsLeft_eq hpc hnone).trans (Nat.zero_add _)
  have hnew : s.idleTurn.stepsLeft = flushSteps 0 s.idleTurn.writes s.idleTurn.idle_cycles := by
    have hqueue : s.idleTurn.event_queue = s.event_queue := by
      unfold idleTurn
      split <;> rfl
    have hleft : s.idleTurn.left = 0 := by
      rw [left, hqueue]
      exact hnone
    exact (stepsLeft_eq (hqueue ▸ hpc) hleft).trans (Nat.zero_add _)
  have hidles : flushSteps 0 s.idleTurn.writes s.idleTurn.idle_cycles = 0 ∨
      s.idleTurn.writes = s.writes ∧ s.idleTurn.idle_cycles = s.idle_cycles + 1 := by
    unfold idleTurn
    split
    · exact Or.inl rfl
    · exact Or.inr ⟨rfl, rfl⟩
  rw [hnew, hold]
  obtain hflushed | ⟨hsame, hnext⟩ := hidles
  · rw [hflushed]
    exact Nat.zero_le _
  · rw [hsame, hnext]
    simp only [flushSteps, if_true]
    split
    · exact Nat.zero_le _
    · rename_i hwrites
      have := hidle hwrites
      omega

theorem Logging.takeEvent_steps (h : s.Logging base) {i : Nat}
    (hpc : s.event_queue.consumer = .taken i) (hrest : s.rest = []) :
    s.takeEvent.stepsLeft ≤ s.stepsLeft - 1 := by
  have hpos := left_pos h (Or.inr hpc)
  have hconsume := SharedRing.consume_taken hpc
  have hidle : s.takeEvent.event_queue.consumer = .idle ∧ s.takeEvent.left = s.left - 1 := by
    unfold takeEvent
    simp only
    split
    · simp only [flushtofile, left, hconsume, true_and]
      omega
    · simp only [left, hconsume, true_and]
      omega
  rw [stepsLeft_eq hidle.1 hidle.2, stepsLeft_eq hpc rfl, hrest]
  have hlast : flushSteps s.left s.writes s.idle_cycles = 201 := if_neg (by omega)
  have hnext := flushSteps_le (s.left - 1) s.takeEvent.writes s.takeEvent.idle_cycles
  simp only [takeSteps, List.length_nil, hlast]
  omega

theorem Logging.threadStep_steps (h : s.Logging base) :
    s.threadStep.stepsLeft ≤ s.stepsLeft - 1 := by
  unfold threadStep
  split
  · rename_i hpc
    split
    · rename_i htest
      exact h.idleTurn_steps hpc ((left_of_idle h hpc).mp htest)
    · rename_i htest
      have hpos : 0 < s.left := Nat.pos_of_ne_zero (mt (left_of_idle h hpc).mpr htest)
      have hconsume := SharedRing.consume_idle hpc htest
      have hold := stepsLeft_eq hpc rfl
      have hnew : stepsLeft { s with event_queue := s.event_queue.consume } =
          7 * s.left - 1 + flushSteps s.left s.writes s.idle_cycles := by
        rw [hconsume]
        rfl
      simp only [takeSteps] at hold
      omega
  · rename_i i hpc
    have hpos := left_pos h (Or.inl hpc)
    have hconsume := SharedRing.consume_found hpc
    have hold := stepsLeft_eq hpc rfl
    have hnew : stepsLeft { s with event_queue := s.event_queue.consume, rest := eventCopies } =
        7 * s.left - 6 + 4 + flushSteps s.left s.writes s.idle_cycles := by
      rw [hconsume]
      rfl
    simp only [takeSteps] at hold
    omega
  · rename_i i hpc
    have hpos := left_pos h (Or.inr hpc)
    have hold := stepsLeft_eq hpc rfl
    split
    · rename_i copy rest hrest
      have hnew : stepsLeft { s with
            wait_buffer := Function.update s.wait_buffer s.writes
              (copy (s.event_queue.cells i) (s.wait_buffer s.writes))
            rest } =
          7 * s.left - 6 + rest.length + flushSteps s.left s.writes s.idle_cycles := by
        unfold stepsLeft
        simp only [hpc]
        rfl
      rw [hrest] at hold
      simp only [takeSteps, List.length_cons] at hold
      omega
    · rename_i hrest
      exact h.takeEvent_steps hpc hrest

theorem Logging.all_written (h : s.Logging base) (hstoring : s.event_queue.storing = [])
    (hzero : s.stepsLeft = 0) : s.file = s.accepted := by
  have hdone : s.left = 0 ∧ s.writes = 0 := by
    have hflush : flushSteps s.left s.writes s.idle_cycles = 0 := by
      unfold stepsLeft at hzero
      omega
    have hidle := h.idle
    unfold flushSteps at hflush
    split at hflush
    · rename_i hleft
      refine ⟨hleft, ?_⟩
      split at hflush
      · assumption
      · rename_i hwrites
        have := hidle hwrites
        omega
    · cases hflush
  have htaken := h.taken
  have hle : s.event_queue.sent.length ≤ s.event_queue.done := by
    have := hdone.1
    unfold left at this
    omega
  rw [List.take_of_length_le hle, waiting, hdone.2] at htaken
  rw [h.accepted, hstoring, ← htaken]
  simp

theorem threadStep_storing : s.threadStep.event_queue.storing = s.event_queue.storing := by
  have hsame := (SharedRing.consume_frame s.event_queue).2.2
  unfold threadStep
  split
  · split
    · unfold idleTurn
      split <;> rfl
    · exact hsame
  · exact hsame
  · split
    · rfl
    · unfold takeEvent
      simp only
      split <;> exact hsame

/-- When the device is silent, the steps that are left bring every event to the file. -/
theorem Logging.drained (h : s.Logging base) (hstoring : s.event_queue.storing = []) {n : Nat}
    (hn : s.stepsLeft ≤ n) : (threadStep^[n] s).file = s.accepted := by
  induction n generalizing s with
  | zero => exact h.all_written hstoring (Nat.le_zero.mp hn)
  | succ n ih =>
    have hstep := h.threadStep_steps
    rw [Function.iterate_succ_apply, ih h.thread (threadStep_storing.trans hstoring) (by omega),
      threadStep_accepted]

theorem Logging.unread_length (h : s.Logging base) :
    (s.event_queue.unread base).length = s.left := by
  rw [h.shared.unread_eq, List.length_drop, left]

theorem Logging.stepsLeft_le (h : s.Logging base) : s.stepsLeft ≤ 7 * s.left + 201 := by
  have hrest := h.rest
  have hlast := flushSteps_le s.left s.writes s.idle_cycles
  cases hpc : s.event_queue.consumer with
  | idle =>
    rw [stepsLeft_eq hpc rfl, takeSteps]
    omega
  | found i =>
    rw [stepsLeft_eq hpc rfl, takeSteps]
    omega
  | taken i =>
    have := left_pos h (Or.inr hpc)
    rw [stepsLeft_eq hpc rfl, takeSteps]
    omega

end Steps

end EventLog

/-! ## The file -/

open EventLog

/-- Whatever the order of the assignments of the two threads, the file, `wait_buffer` and the
queue hold the events that found room, each once and in their order, and the array never
overflows. When the device stays silent, the thread brings all of them to the file: seven steps
for each event in the queue, and 201 idle turns. -/
theorem the_log_file_gets_every_event {memory : Nat → UInt8} {q : RingBuffer StatsEvent}
    {left : List StatsEvent} {wait_buffer : Nat → StatsEvent} {acts : List LogAction}
    {s : EventLog} (hq : q.Holds left)
    (hrun : run logStep (start memory q left wait_buffer) acts = some s) :
    s.accepted = s.file ++ s.waiting ++ s.event_queue.unread q.head ++ s.event_queue.storing ∧
      s.writes < 10 ∧
      (s.event_queue.storing = [] → ∀ n, 7 * (s.event_queue.unread q.head).length + 201 ≤ n →
        (threadStep^[n] s).file = s.accepted) := by
  have h : s.Logging q.head :=
    run_keeps (fun _ _ _ h hs => logging_step h hs) (logging_start hq) hrun
  refine ⟨?_, h.writes, fun hstoring n hn => h.drained hstoring ?_⟩
  · rw [h.taken, h.shared.unread_eq, List.take_append_drop]
    exact h.accepted
  · rw [h.unread_length] at hn
    exact h.stepsLeft_le.trans hn

/-- An event of core 0 comes to the file. The thread polls while the device stores it. -/
theorem the_log_file_gets_an_event : ∃ s,
    run logStep (start (fun _ => 0) ⟨0, 0, Event_Queue_Size, fun _ => ⟨0, 0, 0, 0⟩⟩ []
      fun _ => ⟨0, 0, 0, 0⟩)
      (.device (fun _ => 0) 9 (LOG_EVENT 0 5) :: .thread ::
        List.replicate 5 (.device (fun _ => 0) 10 (LOG_EVENT 0 6)) ++ [.thread, .thread]) = some s ∧
    (threadStep^[208] s).file = s.accepted ∧ s.accepted = [⟨5, 9, 0, 0⟩] := by
  have hq : RingBuffer.Holds ⟨0, 0, Event_Queue_Size, fun _ => (⟨0, 0, 0, 0⟩ : StatsEvent)⟩ [] :=
    ⟨by decide, by decide, by decide, by simp⟩
  refine ⟨_, rfl, ?_, by decide +kernel⟩
  exact (@the_log_file_gets_every_event (fun _ => 0) _ [] (fun _ => ⟨0, 0, 0, 0⟩)
    (.device (fun _ => 0) 9 (LOG_EVENT 0 5) :: .thread ::
      List.replicate 5 (.device (fun _ => 0) 10 (LOG_EVENT 0 6)) ++ [.thread, .thread])
    _ hq rfl).2.2 (by decide +kernel) 208 (by decide +kernel)

end S4Sim
