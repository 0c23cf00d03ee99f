-- The registers of the event log: LOG_EVENT of util.h writes them, and iSSDStats.cc takes the
-- write. Both sides count bytes in steps of a larger type: LOG_EVENT in words, the device in
-- events. They agree on the event code of core 0 alone.
import S4Sim.Lib.Ring
import S4Sim.Lib.Window
import S4Sim.Lib.LittleEndian

namespace S4Sim

open Rings Windows LittleEndian

/-- `event_t`, which is packed: 4, 8 and 16 bytes. -/
structure StatsEvent where
  event_code : Nat
  event_cycle : Nat
  longs : Nat × Nat
  deriving DecidableEq, Repr

def sizeof_event_t : Nat := 28

def Event_Queue_Size : Nat := 2 ^ 17

def SimEventLog : Nat := 0x2D419000

def pioAddr : Nat := 0x2D419000

/-- A write of the firmware to a register. -/
structure StatsPacket where
  addr : Nat
  size : Nat
  value : Nat
  deriving DecidableEq, Repr

/-- `SimEventLog` points to words, and `sizeof(event_t)` is a number of bytes. -/
def LOG_EVENT (Source : Nat) (EventCode : UInt32) : StatsPacket :=
  ⟨SimEventLog + 4 * (Source * sizeof_event_t), 4, EventCode.toNat⟩

/-- One of the stores of the device. The offset is from `event` on. -/
structure EventStore where
  offset : Nat
  len : Nat
  bytes : Nat → UInt8

namespace StatsPacket

variable (pkt : StatsPacket)

def daddr : Nat := pkt.addr - pioAddr

def offset : Nat := pkt.daddr % sizeof_event_t

def core_id : Nat :=
  if pkt.daddr / sizeof_event_t > 8 then 0 else pkt.daddr / sizeof_event_t

/-- The variable `data`. It stays 0 for a write of another size. -/
def data : Nat :=
  if pkt.size = 1 then pkt.value % 2 ^ 8
  else if pkt.size = 2 then pkt.value % 2 ^ 16
  else if pkt.size = 4 then pkt.value % 2 ^ 32
  else 0

/-- The copy goes to `use_event + offset`, in steps of an event. It reads from `data` on, and for
more than 4 bytes what lies behind it. -/
def stores (behind : Nat → UInt8) (curTick : Nat) : List EventStore :=
  ⟨sizeof_event_t * (pkt.core_id + pkt.offset), pkt.size,
      fun i => if i < 4 then byteOf pkt.data i else behind i⟩ ::
    if pkt.offset = 0 then [⟨sizeof_event_t * pkt.core_id + 4, 8, byteOf curTick⟩] else []

end StatsPacket

/-- The memory of the device from `event` on, whose 8 elements come first. The pointer
`event_queue` lies behind them in the source, and a store there changes it; here the queue is
kept apart from the memory. -/
structure StatsState where
  memory : Nat → UInt8
  event_queue : RingBuffer StatsEvent

/-- The event in a slot. -/
def eventAt (memory : Nat → UInt8) (slot : Nat) : StatsEvent where
  event_code := wordAt memory (sizeof_event_t * slot) 4
  event_cycle := wordAt memory (sizeof_event_t * slot + 4) 8
  longs := (wordAt memory (sizeof_event_t * slot + 12) 8,
    wordAt memory (sizeof_event_t * slot + 20) 8)

/-- A full queue drops the event. -/
def enQueueEvt (q : RingBuffer StatsEvent) (e : StatsEvent) : RingBuffer StatsEvent :=
  if q.head = (q.tail + 1) % q.size then q else q.push e

def deQueueEvt (q : RingBuffer StatsEvent) : RingBuffer StatsEvent :=
  if q.head = q.tail then q else q.pop

namespace StatsState

/-- `iSSDStats::write` -/
def write (behind : Nat → UInt8) (curTick : Nat) (s : StatsState) (pkt : StatsPacket) :
    StatsState :=
  let memory := (pkt.stores behind curTick).foldl
    (fun memory store => writeWindow memory store.offset store.len store.bytes) s.memory
  { memory
    event_queue :=
      if pkt.offset = 0 then enQueueEvt s.event_queue (eventAt memory pkt.core_id)
      else s.event_queue }

end StatsState

/-- A register write, or a turn of the thread that takes the events. -/
inductive StatsAction where
  | write (behind : Nat → UInt8) (curTick : Nat) (pkt : StatsPacket)
  | deQueueEvt

namespace StatsState

def act (s : StatsState) : StatsAction → StatsState
  | .write behind curTick pkt => s.write behind curTick pkt
  | .deQueueEvt => { s with event_queue := S4Sim.deQueueEvt s.event_queue }

/-- The shared memory keeps the indices of an earlier run. -/
def start (memory : Nat → UInt8) (head tail : Nat) (list : Nat → StatsEvent) : StatsState :=
  ⟨memory, ⟨head, tail, Event_Queue_Size, list⟩⟩

/-! ## What the writes should do -/

/-- The write takes one event from the slot of the core, with the code. -/
def LogsEvent (behind : Nat → UInt8) (curTick : Nat) (s : StatsState) (Source : Nat)
    (EventCode : UInt32) : Prop :=
  let s' := s.write behind curTick (LOG_EVENT Source EventCode)
  (LOG_EVENT Source EventCode).core_id = Source ∧
    s'.event_queue = s.event_queue.push (eventAt s'.memory Source) ∧
    (eventAt s'.memory Source).event_code = EventCode.toNat

end StatsState

/-- A write of 4 bytes to the registers of a core. -/
def fieldPacket (Source offset : Nat) (value : UInt32) : StatsPacket :=
  ⟨pioAddr + (sizeof_event_t * Source + offset), 4, value.toNat⟩

/-- The write stores to the bytes at the offset in the event of the core, and nowhere else. -/
def UpdatesOnly (behind : Nat → UInt8) (curTick Source offset : Nat) (value : UInt32) : Prop :=
  ((fieldPacket Source offset value).stores behind curTick).map
    (fun store => (store.offset, store.len)) = [(sizeof_event_t * Source + offset, 4)]

/-- The write stores nothing outside `event[0..7]`. -/
def InsideEvents (behind : Nat → UInt8) (curTick : Nat) (pkt : StatsPacket) : Prop :=
  ∀ store ∈ pkt.stores behind curTick, store.offset + store.len ≤ 8 * sizeof_event_t

/-! ## The event code -/

section

variable {behind : Nat → UInt8} {curTick Source offset : Nat} {EventCode value : UInt32}
  {s : StatsState} {pkt : StatsPacket}

theorem logEvent_daddr : (LOG_EVENT Source EventCode).daddr = sizeof_event_t * (4 * Source) := by
  unfold StatsPacket.daddr LOG_EVENT SimEventLog pioAddr
  rw [Nat.add_sub_cancel_left, Nat.mul_left_comm, Nat.mul_comm]
  ring

theorem logEvent_offset : (LOG_EVENT Source EventCode).offset = 0 := by
  unfold StatsPacket.offset
  rw [logEvent_daddr, Nat.mul_mod_right]

/-- Four slots for each core, and slot 0 from core 3 on. -/
theorem logEvent_core_id : (LOG_EVENT Source EventCode).core_id =
    if 4 * Source > 8 then 0 else 4 * Source := by
  unfold StatsPacket.core_id
  rw [logEvent_daddr, Nat.mul_div_cancel_left _ (by decide)]

theorem logEvent_core_id_iff : (LOG_EVENT Source EventCode).core_id = Source ↔ Source = 0 := by
  rw [logEvent_core_id]
  split <;> omega

/-- The write of core 0 stores the code in its slot. -/
theorem logEvent_code :
    (eventAt (s.write behind curTick (LOG_EVENT 0 EventCode)).memory 0).event_code =
      EventCode.toNat := by
  apply wordAt_eq
  · intro i hi
    have hcore : (LOG_EVENT 0 EventCode).core_id = 0 := logEvent_core_id
    have hdata : (LOG_EVENT 0 EventCode).data = EventCode.toNat :=
      Nat.mod_eq_of_lt EventCode.toNat_lt
    simp only [StatsState.write, StatsPacket.stores, logEvent_offset, hcore, hdata, if_true,
      List.foldl_cons, List.foldl_nil]
    rw [writeWindow_outside (Or.inl (by omega))]
    exact (writeWindow_inside hi).trans (if_pos hi)
  · exact EventCode.toNat_lt

/-- A full queue of more than one cell does not take an event. -/
theorem enQueueEvt_iff {q : RingBuffer StatsEvent} {e : StatsEvent} (hsize : q.size ≠ 1) :
    enQueueEvt q e = q.push e ↔ q.head ≠ (q.tail + 1) % q.size := by
  unfold enQueueEvt
  by_cases hfull : q.head = (q.tail + 1) % q.size
  · rw [if_pos hfull]
    refine iff_of_false ?_ (not_not.mpr hfull)
    intro he
    have htail : q.tail = (q.tail + 1) % q.size := congrArg RingBuffer.tail he
    rcases Nat.eq_zero_or_pos q.size with hzero | hpos
    · rw [hzero, Nat.mod_zero] at htail
      omega
    · have hlt : q.tail < q.size := htail ▸ Nat.mod_lt _ hpos
      rcases Nat.lt_or_ge (q.tail + 1) q.size with hnext | hnext
      · rw [Nat.mod_eq_of_lt hnext] at htail
        omega
      · have hend : q.tail + 1 = q.size := by omega
        rw [hend, Nat.mod_self] at htail
        omega
  · rw [if_neg hfull]
    exact iff_of_true rfl hfull

theorem logsEvent_iff (hsize : s.event_queue.size = Event_Queue_Size) :
    s.LogsEvent behind curTick Source EventCode ↔
      Source = 0 ∧ s.event_queue.head ≠ (s.event_queue.tail + 1) % Event_Queue_Size := by
  unfold StatsState.LogsEvent
  rw [logEvent_core_id_iff]
  refine and_congr_right ?_
  rintro rfl
  rw [and_iff_left logEvent_code, ← hsize, ← enQueueEvt_iff (by rw [hsize]; decide)]
  have hqueue : (s.write behind curTick (LOG_EVENT 0 EventCode)).event_queue =
      enQueueEvt s.event_queue
        (eventAt (s.write behind curTick (LOG_EVENT 0 EventCode)).memory 0) := by
    have hcore : (LOG_EVENT 0 EventCode).core_id = 0 := logEvent_core_id
    simp only [StatsState.write, logEvent_offset, if_true, hcore]
  rw [hqueue]

/-! ## The other registers -/

theorem fieldPacket_daddr : (fieldPacket Source offset value).daddr =
    sizeof_event_t * Source + offset := Nat.add_sub_cancel_left ..

/-- An offset other than 0 is taken as a number of events. -/
theorem not_updatesOnly (hSource : Source < 8) (hoffset : 0 < offset) (hlt : offset < 28) :
    ¬ UpdatesOnly behind curTick Source offset value := by
  have hdiv : (sizeof_event_t * Source + offset) / sizeof_event_t = Source := by
    unfold sizeof_event_t
    omega
  have hmod : (sizeof_event_t * Source + offset) % sizeof_event_t = offset := by
    unfold sizeof_event_t
    omega
  have hcore : (fieldPacket Source offset value).core_id = Source := by
    unfold StatsPacket.core_id
    rw [fieldPacket_daddr, hdiv, if_neg (by omega)]
  have hoff : (fieldPacket Source offset value).offset = offset := by
    unfold StatsPacket.offset
    rw [fieldPacket_daddr, hmod]
  unfold UpdatesOnly StatsPacket.stores
  rw [hcore, hoff, if_neg hoffset.ne']
  unfold sizeof_event_t
  simp only [List.map_cons, List.map_nil, List.cons.injEq, Prod.mk.injEq]
  omega

/-- The copy stays in the array when the slot and the offset together do. -/
theorem insideEvents_iff (hsize : 1 ≤ pkt.size) (hle : pkt.size ≤ sizeof_event_t) :
    InsideEvents behind curTick pkt ↔ pkt.core_id + pkt.offset < 8 := by
  unfold InsideEvents StatsPacket.stores
  unfold sizeof_event_t at hle ⊢
  rw [List.forall_mem_cons]
  by_cases hzero : pkt.offset = 0
  · rw [if_pos hzero]
    simp only [List.forall_mem_singleton, hzero]
    omega
  · rw [if_neg hzero]
    simp only [List.not_mem_nil, false_implies, implies_true, and_true]
    omega

end

/-! ## After any actions -/

theorem size_kept (s : StatsState) (acts : List StatsAction)
    (hsize : s.event_queue.size = Event_Queue_Size) :
    (acts.foldl StatsState.act s).event_queue.size = Event_Queue_Size := by
  induction acts generalizing s with
  | nil => exact hsize
  | cons a acts ih =>
    apply ih
    cases a with
    | write behind curTick pkt =>
      simp only [StatsState.act, StatsState.write, enQueueEvt]
      split
      · split
        · exact hsize
        · exact hsize
      · exact hsize
    | deQueueEvt =>
      simp only [StatsState.act, deQueueEvt]
      split
      · exact hsize
      · exact hsize

/-- After any actions: `LOG_EVENT` logs an event for core 0 while the queue has room, no other
register can be written alone, and a write stays in the array when slot and offset do. -/
theorem event_registers_iff (memory : Nat → UInt8) (head tail : Nat) (list : Nat → StatsEvent)
    (acts : List StatsAction) (behind : Nat → UInt8) (curTick : Nat) :
    let s := acts.foldl StatsState.act (.start memory head tail list)
    (∀ Source < 8, ∀ EventCode, s.LogsEvent behind curTick Source EventCode ↔
      Source = 0 ∧ s.event_queue.head ≠ (s.event_queue.tail + 1) % Event_Queue_Size) ∧
    (∀ Source < 8, ∀ offset ∈ [4, 8, 12, 16, 20, 24], ∀ value,
      ¬ UpdatesOnly behind curTick Source offset value) ∧
    ∀ pkt : StatsPacket, 1 ≤ pkt.size → pkt.size ≤ sizeof_event_t →
      (InsideEvents behind curTick pkt ↔ pkt.core_id + pkt.offset < 8) := by
  intro s
  have hsize : s.event_queue.size = Event_Queue_Size := size_kept _ acts rfl
  refine ⟨fun Source _ EventCode => logsEvent_iff hsize, fun Source hSource offset ho value => ?_,
    fun pkt hone hle => insideEvents_iff hone hle⟩
  have hrange : 0 < offset ∧ offset < 28 := by
    simp only [List.mem_cons, List.not_mem_nil, or_false] at ho
    omega
  exact not_updatesOnly hSource hrange.1 hrange.2

/-- Core 1 logs the event of slot 4, and core 2 stores behind the array. -/
theorem events_of_other_cores :
    ¬ StatsState.LogsEvent (fun _ => 0) 0 (.start (fun _ => 0) 0 0 fun _ => ⟨0, 0, 0, 0⟩) 1 100 ∧
      ¬ InsideEvents (fun _ => 0) 0 (LOG_EVENT 2 100) ∧
      ¬ UpdatesOnly (fun _ => 0) 0 0 4 0 := by
  refine ⟨fun h => absurd h.1 (by decide), fun h => ?_, not_updatesOnly ?_ ?_ ?_⟩
  · exact absurd (h _ (List.mem_cons_self ..)) (by decide)
  · decide
  · decide
  · decide

end S4Sim
