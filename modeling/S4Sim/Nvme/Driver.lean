-- The queues of the NVMe driver, from nvme_driver.c: the arrays `sqs` and `cqs`,
-- the two queue counters, and the functions that enqueue, post and retry
-- completions. The logs are not in the source: they record what the driver does.
import S4Sim.Nvme.CompletionQueue

namespace S4Sim

structure NvmeSQueue where
  sqid : Nat
  cqid : Nat
  head : Nat
  tail : Nat
  size : Nat
  hostAddr : Nat
  deriving DecidableEq, Repr

/-- `none`: the size of a deleted queue is 0, and it is the modulus. -/
def inc_sq_head (sq : NvmeSQueue) : Option NvmeSQueue :=
  if sq.size = 0 then none else some { sq with head := (sq.head + 1) % sq.size }

/-- One fetched submission entry: its queue and slot, the completion queue of
that queue, its bytes, and the host memory at that moment. -/
structure Fetch where
  uid : Nat
  sqid : Nat
  sqe : Nat
  cqid : Nat
  scmd : NvmeSCmd
  mem : Mem

/-- One transfer between the host memory and the memory of the device. -/
structure Transfer where
  uid : Nat
  toHost : Bool
  host_p_addr : Nat
  bytes : List UInt8

/-- `enqueued` and `posted` name the index in `cqs` of the queue. -/
structure Driver where
  cqs : Nat → NvmeCQueue
  sqs : Nat → NvmeSQueue
  iosqCount : Nat
  iocqCount : Nat
  fetched : List Fetch
  enqueued : List (Nat × Req)
  posted : List (Nat × Posting)
  transfers : List Transfer

namespace Driver

variable (d : Driver)

/-- The head of the submission queue of a request, for its completion entry. -/
def sqhd (req : Req) : Nat := (d.sqs req.sqid).head

/-- Writes back queue `q` after the posting loop. -/
def store (q : Nat) (cq : NvmeCQueue) (postings : List Posting) : Driver :=
  { d with
    cqs := Function.update d.cqs q cq
    posted := d.posted ++ postings.map (Prod.mk q) }

/-- Every admin completion has the head of the admin submission queue. -/
def enqueue_admin_ccmd (req : Req) : Option Driver :=
  ((d.cqs 0).enqueueAdmin (fun _ => (d.sqs 0).head) req).map fun (cq, postings) =>
    { d.store 0 cq postings with enqueued := d.enqueued ++ [(0, req)] }

/-- `none`: the index is outside the array `cqs`, or a size is 0. -/
def enqueue_io_ccmd (cqid : Nat) (req : Req) : Option Driver :=
  if cqid > MAX_IO_SQCQ_PAIRS then none
  else ((d.cqs cqid).enqueueIo d.sqhd req).map fun (cq, postings) =>
    { d.store cqid cq postings with
      enqueued := if (d.cqs cqid).pendingFull then d.enqueued
        else d.enqueued ++ [(cqid, req)] }

def post_io_ccmds (cqid : Nat) : Option Driver :=
  if cqid > MAX_IO_SQCQ_PAIRS then none
  else (postAll d.sqhd (d.cqs cqid)).map fun (cq, postings) => d.store cqid cq postings

/-- The loop of `check_door_bell` over the pending completions of the I/O queues. -/
def retry_io_ccmds : Option Driver :=
  (List.range' 1 d.iocqCount).foldlM (fun d q => d.post_io_ccmds q) d

def setCqHead (q head : Nat) : Driver :=
  let cq := { d.cqs q with head }
  { d with cqs := Function.update d.cqs q cq }

/-- The completion queue door bell in `check_door_bell`. -/
def cq_door_bell (CQIndex Head : Nat) : Option Driver :=
  if CQIndex > MAX_IO_SQCQ_PAIRS then none else (d.setCqHead CQIndex Head).retry_io_ccmds

/-- The tail that `check_door_bell` keeps from a submission queue door bell. -/
def sq_door_bell (SQIndex Tail : Nat) : Option Driver :=
  if SQIndex > MAX_IO_SQCQ_PAIRS then none
  else
    let sq := { d.sqs SQIndex with tail := Tail }
    some { d with sqs := Function.update d.sqs SQIndex sq }

/-- `sync_read_scmd` and `inc_sq_head`: the entry at the head of queue `sqid`. -/
def read_scmd (sqid : Nat) (scmd : NvmeSCmd) (mem : Mem) : Option Driver :=
  (inc_sq_head (d.sqs sqid)).map fun sq =>
    let f : Fetch :=
      { uid := d.fetched.length, sqid, sqe := (d.sqs sqid).head, cqid := (d.sqs sqid).cqid,
        scmd, mem }
    { d with sqs := Function.update d.sqs sqid sq, fetched := d.fetched ++ [f] }

/-- Zeroed memory, as at power on. -/
def zero : Driver where
  cqs _ := ⟨false, 0, 0, 0, 0, 0, 0, 0, ⟨0, 0, 0, fun _ => zeroReq⟩⟩
  sqs _ := ⟨0, 0, 0, 0, 0, 0⟩
  iosqCount := 0
  iocqCount := 0
  fetched := []
  enqueued := []
  posted := []
  transfers := []

/-! ## The logs of one queue -/

def postedTo (q : Nat) : List Posting := (d.posted.filter (·.1 == q)).map Prod.snd

def enqueuedTo (q : Nat) : List Req := (d.enqueued.filter (·.1 == q)).map Prod.snd

/-- The slots of queue `q` that were fetched, in order. -/
def fetchedFrom (q : Nat) : List Nat := (d.fetched.filter (·.sqid == q)).map Fetch.sqe

end Driver

/-! ## What one posting loop does to the driver -/

/-- Queue `q` has the postings of its log, the host has released `r` of them,
and the requests of `l` wait in its ring. -/
structure QueueAt (d : Driver) (q r : Nat) (l : List Req) : Prop where
  counters : CQAt (d.cqs q) (d.postedTo q).length r l
  order : (d.postedTo q).map Posting.req ++ l = d.enqueuedTo q

/-- Nothing waits while the queue has a free slot. -/
def Settled (d : Driver) (q r : Nat) (l : List Req) : Prop :=
  l = [] ∨ (d.postedTo q).length + 1 = r + (d.cqs q).size

/-- The two states agree on every queue but `q`, on the submission queues and on
the number of queues. -/
structure OnlyQueue (q : Nat) (d d' : Driver) : Prop where
  cqs : ∀ i ≠ q, d'.cqs i = d.cqs i
  posted : ∀ i ≠ q, d'.postedTo i = d.postedTo i
  enqueued : ∀ i ≠ q, d'.enqueuedTo i = d.enqueuedTo i
  sqs : d'.sqs = d.sqs
  iocqCount : d'.iocqCount = d.iocqCount
  size : ∀ i, (d'.cqs i).size = (d.cqs i).size

section Loops

variable {d d' : Driver} {q i r : Nat} {l : List Req} {req : Req}

@[simp] theorem store_cqs_self (cq : NvmeCQueue) (ps : List Posting) :
    (d.store q cq ps).cqs q = cq := by
  simp [Driver.store]

theorem store_cqs_of_ne (cq : NvmeCQueue) (ps : List Posting) (h : i ≠ q) :
    (d.store q cq ps).cqs i = d.cqs i := Function.update_of_ne h ..

@[simp] theorem store_postedTo_self (cq : NvmeCQueue) (ps : List Posting) :
    (d.store q cq ps).postedTo q = d.postedTo q ++ ps := by
  simp [Driver.postedTo, Driver.store, List.filter_map, Function.comp_def]

theorem store_postedTo_of_ne (cq : NvmeCQueue) (ps : List Posting) (h : i ≠ q) :
    (d.store q cq ps).postedTo i = d.postedTo i := by
  have : q ≠ i := h.symm
  simp [Driver.postedTo, Driver.store, List.filter_map, Function.comp_def, this]

@[simp] theorem store_enqueuedTo (cq : NvmeCQueue) (ps : List Posting) :
    (d.store q cq ps).enqueuedTo i = d.enqueuedTo i := rfl

theorem OnlyQueue.queueAt (h : OnlyQueue q d d') (hi : i ≠ q) (hat : QueueAt d i r l) :
    QueueAt d' i r l := by
  obtain ⟨hcounters, horder⟩ := hat
  refine ⟨?_, ?_⟩
  · rw [h.cqs i hi, h.posted i hi]
    exact hcounters
  · rw [h.posted i hi, h.enqueued i hi]
    exact horder

theorem OnlyQueue.settled (h : OnlyQueue q d d') (hi : i ≠ q) (hs : Settled d i r l) :
    Settled d' i r l := by
  unfold Settled at *
  rwa [h.posted i hi, h.cqs i hi]

theorem onlyQueue_store (ps : List Posting) {cq : NvmeCQueue} (h : cq.size = (d.cqs q).size) :
    OnlyQueue q d (d.store q cq ps) where
  cqs _ hi := store_cqs_of_ne cq ps hi
  posted _ hi := store_postedTo_of_ne cq ps hi
  enqueued _ _ := rfl
  sqs := rfl
  iocqCount := rfl
  size i := by
    by_cases hi : i = q
    · subst hi
      rw [store_cqs_self, h]
    · rw [store_cqs_of_ne cq ps hi]

/-- The loop posts from the ring until the ring is empty or the queue is full. -/
theorem postAll_settles {cq : NvmeCQueue} {p : Nat} (sqhd : Req → Nat) (h : CQAt cq p r l) :
    ∃ cq' ps l', postAll sqhd cq = some (cq', ps) ∧ cq'.size = cq.size ∧
      ps.map Posting.req ++ l' = l ∧ CQAt cq' (p + ps.length) r l' ∧
      (l' = [] ∨ p + ps.length + 1 = r + cq'.size) := by
  obtain ⟨cq', hpost, hsame, hat⟩ := postAll_spec sqhd h
  have hlen : (postingsFrom cq sqhd p (l.take (postable cq p r l))).length = postable cq p r l := by
    rw [← List.length_map Posting.req, map_req_postingsFrom, List.length_take]
    unfold postable
    omega
  refine ⟨cq', _, l.drop (postable cq p r l), hpost, hsame.size, ?_, ?_, ?_⟩
  · rw [map_req_postingsFrom, List.take_append_drop]
  · rw [hlen]
    exact hat
  · rw [hlen, hsame.size, List.drop_eq_nil_iff]
    have := h.room
    have := h.size
    unfold postable
    omega

theorem post_io_ccmds_spec (hq : q ≤ MAX_IO_SQCQ_PAIRS) (h : QueueAt d q r l) :
    ∃ d' l', d.post_io_ccmds q = some d' ∧ OnlyQueue q d d' ∧ QueueAt d' q r l' ∧
      Settled d' q r l' ∧ d'.enqueued = d.enqueued := by
  obtain ⟨cq', ps, l', hpost, hsize, horder, hat, hsettled⟩ :=
    postAll_settles d.sqhd h.counters
  refine ⟨d.store q cq' ps, l', ?_, onlyQueue_store ps hsize, ⟨?_, ?_⟩, ?_, rfl⟩
  · unfold Driver.post_io_ccmds
    rw [if_neg (by omega), hpost]
    rfl
  · simpa using hat
  · rw [store_postedTo_self, store_enqueuedTo, List.map_append, List.append_assoc, horder]
    exact h.order
  · simpa [Settled] using hsettled

/-- The loop over some queues: those queues and the ones that were settled are
settled, and the log of enqueued requests stays. -/
theorem retry_spec {r : Nat → Nat} {L : List Nat} (hL : ∀ q ∈ L, q ≤ MAX_IO_SQCQ_PAIRS)
    (hat : ∀ q ≤ MAX_IO_SQCQ_PAIRS, ∃ l, QueueAt d q (r q) l ∧ (q ∈ L ∨ Settled d q (r q) l)) :
    ∃ d', L.foldlM (fun d q => d.post_io_ccmds q) d = some d' ∧
      (∀ q ≤ MAX_IO_SQCQ_PAIRS, ∃ l, QueueAt d' q (r q) l ∧ Settled d' q (r q) l) ∧
      d'.enqueued = d.enqueued ∧ d'.iocqCount = d.iocqCount ∧
      ∀ i, (d'.cqs i).size = (d.cqs i).size := by
  induction L generalizing d with
  | nil =>
    refine ⟨d, rfl, fun q hq => ?_, rfl, rfl, fun _ => rfl⟩
    obtain ⟨l, h, hmem | hs⟩ := hat q hq
    · simp at hmem
    · exact ⟨l, h, hs⟩
  | cons q L ih =>
    have hq := hL q List.mem_cons_self
    obtain ⟨l, h, -⟩ := hat q hq
    obtain ⟨d1, l1, hpost, honly, hat1, hs1, henq⟩ := post_io_ccmds_spec hq h
    obtain ⟨d', hfold, hall, henq', hcount, hsize⟩ :=
      ih (d := d1) (fun i hi => hL i (List.mem_cons_of_mem _ hi)) fun i hi => by
        by_cases hiq : i = q
        · subst hiq
          exact ⟨l1, hat1, Or.inr hs1⟩
        · obtain ⟨li, hi', hmem | hs⟩ := hat i hi
          · refine ⟨li, honly.queueAt hiq hi', Or.inl ?_⟩
            simpa [hiq] using hmem
          · exact ⟨li, honly.queueAt hiq hi', Or.inr (honly.settled hiq hs)⟩
    refine ⟨d', ?_, hall, henq'.trans henq, hcount.trans honly.iocqCount, fun i =>
      (hsize i).trans (honly.size i)⟩
    rw [List.foldlM_cons, hpost]
    exact hfold

theorem onlyQueue_enqueue {cq : NvmeCQueue} {ps : List Posting}
    (h : cq.size = (d.cqs q).size) :
    OnlyQueue q d { d.store q cq ps with enqueued := d.enqueued ++ [(q, req)] } := by
  have hstore := onlyQueue_store ps h
  refine ⟨hstore.cqs, hstore.posted, fun i hi => ?_, rfl, rfl, hstore.size⟩
  have : q ≠ i := hi.symm
  simp [Driver.enqueuedTo, this]

/-- A request that goes into a ring with room. -/
theorem enqueue_spec (sqhd : Req → Nat) (req : Req) (h : QueueAt d q r l)
    (hroom : l.length + 1 < (d.cqs q).size)
    (hin : (d.cqs q).pending.tail < INTERNAL_IO_REQ_QUEUE) :
    ∃ cq ps l', ((d.cqs q).pushPending req).bind (postAll sqhd) = some (cq, ps) ∧
      OnlyQueue q d { d.store q cq ps with enqueued := d.enqueued ++ [(q, req)] } ∧
      QueueAt { d.store q cq ps with enqueued := d.enqueued ++ [(q, req)] } q r l' ∧
      Settled { d.store q cq ps with enqueued := d.enqueued ++ [(q, req)] } q r l' := by
  obtain ⟨cq1, hpush, hsame, hat1⟩ := CQAt.pushPending req h.counters hroom hin
  obtain ⟨cq, ps, l', hpost, hsize, horder, hat, hsettled⟩ := postAll_settles sqhd hat1
  have hcq : cq.size = (d.cqs q).size := hsize.trans hsame.size
  have hposted : Driver.postedTo { d.store q cq ps with
      enqueued := d.enqueued ++ [(q, req)] } q = d.postedTo q ++ ps := store_postedTo_self cq ps
  have hcqs : Driver.cqs { d.store q cq ps with
      enqueued := d.enqueued ++ [(q, req)] } q = cq := store_cqs_self cq ps
  refine ⟨cq, ps, l', ?_, onlyQueue_enqueue hcq, ⟨?_, ?_⟩, ?_⟩
  · rw [hpush]
    exact hpost
  · rw [hposted, hcqs, List.length_append]
    exact hat
  · rw [hposted, List.map_append, List.append_assoc, horder, ← List.append_assoc, h.order]
    simp [Driver.enqueuedTo]
  · unfold Settled
    rw [hposted, hcqs, List.length_append]
    exact hsettled

end Loops

end S4Sim
