-- The way of a door bell: the host writes the register, `doorbell_collector` puts it into the
-- shared queue, a read of the register `dbUpdate` takes it out, and `check_door_bell` looks at
-- it. Each assignment to the queue, on either side, is a step of its own.
import S4Sim.Firmware.QueueCounts
import S4Sim.Lib.SharedRing
import S4Sim.Lib.Run

namespace S4Sim

open Rings Runs

/-! ## The queue of door bells, from host_ssd_interface.h -/

/-- `dbUpdateReg`, which is packed. -/
structure DbUpdate where
  DoorBell : UInt8
  Qindex : UInt8
  db_value : UInt16
  deriving DecidableEq, Repr

namespace DbUpdate

/-- The four bytes, read as one word. -/
def raw (u : DbUpdate) : Nat :=
  u.DoorBell.toNat + 2 ^ 8 * u.Qindex.toNat + 2 ^ 16 * u.db_value.toNat

/-- The union in `check_door_bell`. -/
def ofRaw (raw : Nat) : DbUpdate :=
  ⟨UInt8.ofNat raw, UInt8.ofNat (raw / 2 ^ 8), UInt16.ofNat (raw / 2 ^ 16)⟩

theorem ofRaw_raw (u : DbUpdate) : ofRaw u.raw = u := by
  obtain ⟨bell, index, value⟩ := u
  have hbell := bell.toNat_lt
  have hindex := index.toNat_lt
  have hvalue := value.toNat_lt
  simp only [ofRaw, raw, mk.injEq]
  refine ⟨?_, ?_, ?_⟩
  · rw [← UInt8.toNat_inj, UInt8.toNat_ofNat']
    omega
  · rw [← UInt8.toNat_inj, UInt8.toNat_ofNat']
    omega
  · rw [← UInt16.toNat_inj, UInt16.toNat_ofNat']
    omega

end DbUpdate

def dbUpdateQueueSize : Nat := 2 ^ 22

def isSQ_DB : UInt8 := 1

def isCQ_DB : UInt8 := 2

/-- The assignments of `enQueueDBUpdate`. -/
def bellCopies : FieldCopies DbUpdate :=
  [fun item update => { update with DoorBell := item.DoorBell },
    fun item update => { update with Qindex := item.Qindex },
    fun item update => { update with db_value := item.db_value }]

/-- A write of the host to the registers of the controller. -/
structure MmioWrite where
  addr : Nat
  val : Nat
  deriving DecidableEq, Repr

/-- `doorbell_collector`, with the test of `nvme_mmio_write_with_s4sim` before its call. -/
def doorbell_collector (w : MmioWrite) : Option DbUpdate :=
  if w.addr < 0x1000 ∨ w.addr % 4 ≠ 0 then none
  else if (w.addr - 0x1000) / 4 % 2 = 1 then
    some ⟨isCQ_DB, UInt8.ofNat ((w.addr - 0x1004) / 8), UInt16.ofNat w.val⟩
  else some ⟨isSQ_DB, UInt8.ofNat ((w.addr - 0x1000) / 8), UInt16.ofNat w.val⟩

/-! ## The host, the device and the firmware -/

/-- `dbUpdate` is the word that a read has returned and `check_door_bell` has not looked at.
The last two are not in the source: the writes of the host that found room, and the door bells
that `check_door_bell` has looked at. -/
structure BellSystem where
  db_queue : SharedRing DbUpdate
  dbUpdate : Option Nat
  fw : State
  accepted : List MmioWrite
  polled : List DbUpdate

namespace BellSystem

variable (s : BellSystem)

/-- A step of the host. Its next write comes after the assignments of the one before. -/
def hostStep (w : MmioWrite) : BellSystem :=
  match s.db_queue.producer with
  | .storing update _ => { s with db_queue := s.db_queue.produce bellCopies update }
  | .idle =>
    match doorbell_collector w with
    | none => s
    | some update =>
      { s with
        db_queue := s.db_queue.produce bellCopies update
        accepted :=
          if s.db_queue.head = (s.db_queue.tail + 1) % s.db_queue.size then s.accepted
          else s.accepted ++ [w] }

/-- A step of `iSSDHostInterface::read` for the register `dbUpdate`. -/
def readStep : BellSystem :=
  match s.db_queue.consumer with
  | .idle =>
    if s.db_queue.head = s.db_queue.tail then { s with dbUpdate := some 0 }
    else { s with db_queue := s.db_queue.consume }
  | .found _ => { s with db_queue := s.db_queue.consume }
  | .taken i =>
    { s with db_queue := s.db_queue.consume, dbUpdate := some (s.db_queue.cells i).raw }

/-- The environment of a poll has the word that was read. -/
def Reads (env : Env) (raw : Nat) : Prop :=
  let update := DbUpdate.ofRaw raw
  env.DoorBell = update.DoorBell.toNat ∧ env.Qindex = update.Qindex.toNat ∧
    env.db_value = update.db_value.toNat

instance (env : Env) (raw : Nat) : Decidable (Reads env raw) :=
  inferInstanceAs (Decidable (_ ∧ _ ∧ _))

/-- The door bells that a word has. -/
def bellsOf (raw : Nat) : List DbUpdate :=
  if (DbUpdate.ofRaw raw).DoorBell = 0 then [] else [.ofRaw raw]

end BellSystem

inductive BellAction
  | host (w : MmioWrite)
  | read
  | fw (a : Action)

open BellSystem

/-- `check_door_bell` waits for the read of the register, and it alone reads it. -/
def bellStep (c : Config) (s : BellSystem) : BellAction → Option BellSystem
  | .host w => some (s.hostStep w)
  | .read => if aboutToPoll s.fw ∧ s.dbUpdate = none then some s.readStep else none
  | .fw a =>
    match a with
    | .nvme env =>
      if aboutToPoll s.fw then
        match s.dbUpdate with
        | none => none
        | some raw =>
          if Reads env raw then
            (fwStep c s.fw (.nvme env)).map fun fw =>
              { s with fw, dbUpdate := none, polled := s.polled ++ bellsOf raw }
          else none
      else (fwStep c s.fw (.nvme env)).map fun fw => { s with fw }
    | a => (fwStep c s.fw a).map fun fw => { s with fw }

namespace BellSystem

/-- The device has connected the shared memory, and both initializations are done. -/
def start (fw : State) : BellSystem :=
  ⟨.ofRing ⟨0, 0, dbUpdateQueueSize, fun _ => ⟨0, 0, 0⟩⟩ [], none, fw, [], []⟩

/-- The door bell that was read and that `check_door_bell` has not looked at. -/
def held (s : BellSystem) : List DbUpdate :=
  match s.dbUpdate with
  | none => []
  | some raw => bellsOf raw

/-- The door bells on their way, in their order. -/
def onTheWay (s : BellSystem) : List DbUpdate :=
  s.held ++ s.db_queue.unread 0 ++ s.db_queue.storing

/-- The submission queues of the tail door bells. -/
def tailsOf (updates : List DbUpdate) : List Nat :=
  (updates.filter (·.DoorBell == isSQ_DB)).map fun u => u.Qindex.toNat

/-! ## The invariant -/

structure Ringing (s : BellSystem) : Prop where
  shared : s.db_queue.Shared 0
  size : s.db_queue.size = dbUpdateQueueSize
  accepted : s.accepted.filterMap doorbell_collector = s.db_queue.sent ++ s.db_queue.storing
  polled : s.polled ++ s.held = s.db_queue.sent.take s.db_queue.done
  fetched : s.fw.driver.fetched.map Fetch.sqid = tailsOf s.polled

section Steps

variable {c : Config} {env : Env} {s t : BellSystem} {fw fw' : State} {w : MmioWrite}
  {update : DbUpdate}

theorem whole_bellCopies : Whole bellCopies := fun _ _ => rfl

theorem ringing_start (h : fw.driver.fetched = []) : (start fw).Ringing := by
  have hempty : RingBuffer.Holds ⟨0, 0, dbUpdateQueueSize, fun _ => (⟨0, 0, 0⟩ : DbUpdate)⟩ [] :=
    ⟨by decide, by decide, by decide, by simp⟩
  refine ⟨SharedRing.shared_ofRing hempty, rfl, rfl, rfl, ?_⟩
  rw [start, h]
  rfl

/-! ## The host -/

/-- A door bell is one of the two kinds. -/
theorem doorbell_collector_bell (h : doorbell_collector w = some update) :
    update.DoorBell ≠ 0 := by
  unfold doorbell_collector at h
  split at h
  · cases h
  · split at h
    · cases h
      exact (by decide : isCQ_DB ≠ 0)
    · cases h
      exact (by decide : isSQ_DB ≠ 0)

theorem Ringing.sent_bell (h : s.Ringing) {i : Nat} (hi : s.db_queue.sent[i]? = some update) :
    update.DoorBell ≠ 0 := by
  have hmem : update ∈ s.accepted.filterMap doorbell_collector := by
    rw [h.accepted]
    exact List.mem_append_left _ (List.mem_of_getElem? hi)
  obtain ⟨w, -, hw⟩ := List.mem_filterMap.mp hmem
  exact doorbell_collector_bell hw

theorem Ringing.host (h : s.Ringing) (w : MmioWrite) : (s.hostStep w).Ringing := by
  unfold hostStep
  split
  · rename_i update rest hpc
    exact ⟨h.shared.produce whole_bellCopies, SharedRing.produce_size.trans h.size,
      h.accepted.trans (SharedRing.produce_storing hpc).symm,
      h.polled.trans (h.shared.take_produce _ update).symm, h.fetched⟩
  · rename_i hpc
    split
    · exact h
    · rename_i update hw
      refine ⟨h.shared.produce whole_bellCopies, SharedRing.produce_size.trans h.size, ?_,
        h.polled.trans (h.shared.take_produce _ update).symm, h.fetched⟩
      have hold : s.accepted.filterMap doorbell_collector = s.db_queue.sent := by
        have hold := h.accepted
        rwa [SharedRing.storing, hpc, List.append_nil] at hold
      simp only
      rw [SharedRing.produce_idle hpc]
      split
      · exact hold
      · rw [List.filterMap_append, hold]
        simp [hw]

/-! ## The device -/

theorem held_none (hread : s.dbUpdate = none) : s.held = [] := by
  rw [held, hread]

theorem bellsOf_raw (hbell : update.DoorBell ≠ 0) : bellsOf update.raw = [update] := by
  unfold bellsOf
  rw [DbUpdate.ofRaw_raw]
  exact if_neg hbell

theorem Ringing.read (h : s.Ringing) (hread : s.dbUpdate = none) : s.readStep.Ringing := by
  obtain ⟨hsize, hsent, hstoring⟩ := SharedRing.consume_frame s.db_queue
  have hold := h.polled
  rw [held_none hread, List.append_nil] at hold
  have haccepted : s.accepted.filterMap doorbell_collector =
      s.db_queue.consume.sent ++ s.db_queue.consume.storing := by
    rw [hsent, hstoring]
    exact h.accepted
  unfold readStep
  split
  · rename_i hpc
    split
    · refine ⟨h.shared, h.size, h.accepted, ?_, h.fetched⟩
      simpa [held, bellsOf, DbUpdate.ofRaw] using hold
    · rename_i htest
      refine ⟨h.shared.consume, hsize.trans h.size, haccepted, ?_, h.fetched⟩
      rw [SharedRing.consume_idle hpc htest]
      exact h.polled
  · rename_i i hpc
    refine ⟨h.shared.consume, hsize.trans h.size, haccepted, ?_, h.fetched⟩
    rw [SharedRing.consume_found hpc]
    exact h.polled
  · rename_i i hpc
    have hcell := h.shared.taken_cell hpc
    refine ⟨h.shared.consume, hsize.trans h.size, haccepted, ?_, h.fetched⟩
    rw [SharedRing.consume_taken hpc]
    simp only [held, bellsOf_raw (h.sent_bell hcell)]
    rw [List.take_add_one, hcell, hold]
    rfl

/-! ## The firmware -/

theorem nvmeStep_fetch (hf : fetches env fw = true) (hs : nvmeStep c env fw = some fw') :
    fw'.driver.fetched = fw.driver.fetched ++ [fetchOf fw.driver env] := by
  by_cases hq : env.Qindex = 0
  · obtain ⟨d1, d2, h⟩ := nvmeStep_admin hf hq hs
    exact h.fetched
  · obtain ⟨hpoll, hbell⟩ : aboutToPoll fw = true ∧ env.DoorBell = 1 := by simpa [fetches] using hf
    obtain ⟨callbacks, todo, hstep⟩ := nvmeStep_poll c env hpoll
    rw [hstep, check_door_bell, if_pos hbell] at hs
    obtain ⟨d, hd, hs⟩ := Option.bind_eq_some_iff.mp hs
    rw [if_pos hq] at hs
    obtain ⟨d1, hd1, h⟩ := process_io_cmd_handled hs (sq_door_bell_cases hd) rfl rfl hq
    obtain ⟨-, -, hfetched, -⟩ := read_after_door_bell hd hd1
    rcases h with h | ⟨req, -, -, h⟩
    · rw [h]
      exact hfetched
    · exact (enqueue_io_sameSqs h).fetched.trans hfetched

/-- A step of the NVMe thread fetches an entry exactly when it looks at a tail door bell. -/
theorem nvmeStep_fetched (hs : nvmeStep c env fw = some fw') :
    fw'.driver.fetched =
      fw.driver.fetched ++ if fetches env fw then [fetchOf fw.driver env] else [] := by
  split
  · rename_i hf
    exact nvmeStep_fetch hf hs
  · rename_i hf
    rcases (nvmeStep_driver hs).sqs with hsame | ⟨hf', -⟩
    · rw [hsame.fetched, List.append_nil]
    · exact absurd hf' hf

theorem tailsOf_bellsOf {raw : Nat} (hr : Reads env raw) (hpoll : aboutToPoll fw = true) :
    tailsOf (bellsOf raw) =
      (if fetches env fw then [fetchOf fw.driver env] else []).map Fetch.sqid := by
  obtain ⟨hbell, hindex, -⟩ := hr
  have hfetches : fetches env fw = true ↔ (DbUpdate.ofRaw raw).DoorBell = isSQ_DB := by
    rw [← UInt8.toNat_inj, ← hbell]
    simp [fetches, hpoll, isSQ_DB]
  unfold bellsOf tailsOf
  by_cases hf : fetches env fw = true
  · have hsq := hfetches.mp hf
    rw [if_pos hf, if_neg (by rw [hsq]; decide)]
    simp [hsq, fetchOf, hindex]
  · have hsq := mt hfetches.mpr hf
    rw [if_neg hf]
    split
    · rfl
    · simp [hsq]

theorem Ringing.fw_step {a : Action} (h : s.Ringing) (hs : bellStep c s (.fw a) = some t) :
    t.Ringing := by
  have hother : ∀ fw, fw.driver.fetched = s.fw.driver.fetched → Ringing { s with fw } := by
    intro fw hsame
    refine ⟨h.shared, h.size, h.accepted, h.polled, ?_⟩
    simp only [hsame]
    exact h.fetched
  cases a with
  | nvme env =>
    simp only [bellStep] at hs
    split at hs
    · rename_i hpoll
      split at hs
      · cases hs
      · rename_i raw hread
        split at hs
        · rename_i hr
          obtain ⟨fw, hfw, rfl⟩ := Option.map_eq_some_iff.mp hs
          refine ⟨h.shared, h.size, h.accepted, ?_, ?_⟩
          · have hold := h.polled
            rw [held, hread] at hold
            simpa [held] using hold
          · simp only [nvmeStep_fetched hfw, List.map_append, h.fetched]
            rw [← tailsOf_bellsOf hr hpoll]
            simp [tailsOf]
        · cases hs
    · rename_i hpoll
      obtain ⟨fw, hfw, rfl⟩ := Option.map_eq_some_iff.mp hs
      apply hother
      rw [nvmeStep_fetched hfw]
      simp [fetches, hpoll]
  | _ =>
    simp only [bellStep] at hs
    obtain ⟨fw, hfw, rfl⟩ := Option.map_eq_some_iff.mp hs
    apply hother
    rcases fwStep_driver hfw with ⟨env, ha, -⟩ | ⟨transfers, hd⟩
    · cases ha
    · rw [hd]

theorem ringing_step {a : BellAction} (h : s.Ringing) (hs : bellStep c s a = some t) :
    t.Ringing := by
  cases a with
  | host w =>
    cases hs
    exact h.host w
  | read =>
    simp only [bellStep] at hs
    split at hs
    · rename_i hread
      cases hs
      exact h.read hread.2
    · cases hs
  | fw a => exact h.fw_step hs

/-! ## The door bells of a run -/

/-- The registers of queue `q`. -/
theorem doorbell_collector_tail {q val : Nat} (hq : q < 256) :
    doorbell_collector ⟨0x1000 + 8 * q, val⟩ = some ⟨isSQ_DB, UInt8.ofNat q, UInt16.ofNat val⟩ := by
  have hodd : (0x1000 + 8 * q - 0x1000) / 4 % 2 ≠ 1 := by omega
  have hq' : (0x1000 + 8 * q - 0x1000) / 8 = q := by omega
  unfold doorbell_collector
  rw [if_neg (by simp only; omega), if_neg hodd, hq']

theorem doorbell_collector_head {q val : Nat} (hq : q < 256) :
    doorbell_collector ⟨0x1004 + 8 * q, val⟩ = some ⟨isCQ_DB, UInt8.ofNat q, UInt16.ofNat val⟩ := by
  have hodd : (0x1004 + 8 * q - 0x1000) / 4 % 2 = 1 := by omega
  have hq' : (0x1004 + 8 * q - 0x1004) / 8 = q := by omega
  unfold doorbell_collector
  rw [if_neg (by simp only; omega), if_pos hodd, hq']

theorem Ringing.order (h : s.Ringing) :
    s.accepted.filterMap doorbell_collector = s.polled ++ s.onTheWay := by
  unfold onTheWay
  rw [h.accepted, h.shared.unread_eq, ← List.append_assoc, ← List.append_assoc, h.polled,
    List.take_append_drop]

/-- A door bell finds room while fewer than 2^22 - 1 door bells are on their way. -/
theorem Ringing.room (h : s.Ringing) (hpc : s.db_queue.producer = .idle)
    (hw : doorbell_collector w = some update) (hfew : s.onTheWay.length < dbUpdateQueueSize - 1) :
    (s.hostStep w).accepted = s.accepted ++ [w] := by
  have hle : (s.db_queue.unread 0).length ≤ s.onTheWay.length := by
    simp only [onTheWay, List.length_append]
    omega
  rw [h.shared.unread_eq, List.length_drop] at hle
  have hroom : s.db_queue.head ≠ (s.db_queue.tail + 1) % s.db_queue.size := by
    intro hfull
    have := h.shared.full_test.mp hfull
    have := s.db_queue.done_le_passed
    rw [h.size] at *
    omega
  unfold hostStep
  rw [hpc, hw]
  exact if_neg hroom

/-- A read of the register finds no door bell only when none waits in the queue. -/
theorem Ringing.idle_read (h : s.Ringing) (hread : s.dbUpdate = none)
    (hzero : s.readStep.dbUpdate = some 0) : s.db_queue.unread 0 = [] := by
  unfold readStep at hzero
  split at hzero
  · rename_i hpc
    split at hzero
    · rename_i htest
      have hall := h.shared.empty_test.mp htest
      rw [SharedRing.passed, hpc] at hall
      rw [h.shared.unread_eq, List.drop_eq_nil_iff]
      exact hall.ge
    · simp [hread] at hzero
  · simp [hread] at hzero
  · rename_i i hpc
    have hbell := h.sent_bell (h.shared.taken_cell hpc)
    have hraw : (s.db_queue.cells i).raw = 0 := by simpa using hzero
    have hnone := bellsOf_raw hbell
    rw [hraw] at hnone
    simp [bellsOf, DbUpdate.ofRaw] at hnone

end Steps

end BellSystem

/-! ## The law -/

/-- Whatever the order of the assignments of the host, of the device and of the steps of the
firmware, the door bells that found room are looked at in the order of the writes, each once, and
each tail door bell fetches one entry of its queue. A door bell finds room while fewer than
2^22 - 1 are on their way, and a poll goes idle only when none waits. -/
theorem every_tail_door_bell_fetches_one_entry {c : Config} {asqs acqs asq acq : Nat}
    {flash : Ppa → Nat → UInt8} {acts : List BellAction} {s : BellSystem}
    (hrun : run (bellStep c) (start (initialState c asqs acqs asq acq flash)) acts = some s) :
    s.accepted.filterMap doorbell_collector = s.polled ++ s.onTheWay ∧
      s.fw.driver.fetched.map Fetch.sqid ++ tailsOf s.onTheWay =
        tailsOf (s.accepted.filterMap doorbell_collector) ∧
      (∀ w update, s.db_queue.producer = .idle → doorbell_collector w = some update →
        s.onTheWay.length < dbUpdateQueueSize - 1 →
          (s.hostStep w).accepted = s.accepted ++ [w]) ∧
      (s.dbUpdate = none → s.readStep.dbUpdate = some 0 → s.db_queue.unread 0 = []) := by
  have h : s.Ringing :=
    run_keeps (fun _ _ _ h hs => ringing_step h hs) (ringing_start rfl) hrun
  refine ⟨h.order, ?_, fun w update hpc hw hfew => h.room hpc hw hfew, h.idle_read⟩
  rw [h.order, h.fetched]
  simp [tailsOf]

/-- The host rings for an admin entry while the firmware polls, and rings again. The first ring
has fetched its entry, the second one waits. -/
theorem an_admin_door_bell_fetches_one_entry : ∃ s,
    run (bellStep smallDevice) (start bootState)
      (.host ⟨0x1000, 1⟩ :: .fw (.nvme noRing) :: List.replicate 4 (.host ⟨0x1000, 2⟩) ++
        [.read, .host ⟨0x1000, 2⟩, .read, .read,
          .fw (.nvme (ringFor 0 1 (readBlock 1)))]) = some s ∧
    s.fw.driver.fetched.map Fetch.sqid ++ tailsOf s.onTheWay = [0, 0] := by
  have hrun : ((run (bellStep smallDevice) (start bootState)
      (.host ⟨0x1000, 1⟩ :: .fw (.nvme noRing) :: List.replicate 4 (.host ⟨0x1000, 2⟩) ++
        [.read, .host ⟨0x1000, 2⟩, .read, .read,
          .fw (.nvme (ringFor 0 1 (readBlock 1)))])).map fun s =>
            tailsOf (s.accepted.filterMap doorbell_collector)) = some [0, 0] := by
    decide +kernel
  obtain ⟨s, hs, htails⟩ := Option.map_eq_some_iff.mp hrun
  exact ⟨s, hs, (every_tail_door_bell_fetches_one_entry hs).2.1.trans htails⟩

end S4Sim
