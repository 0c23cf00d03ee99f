-- The law of the array indexes, for a host that stays within what the controller grants.
-- The grants go beyond the arrays in three places: Set Features answers with a zero-based
-- count that is not reduced by one, the admin queues may have 4096 entries, and the number
-- of completion queues counts the commands that create one, not the queues.
import S4Sim.Firmware.DriverIndexes

open Runs

namespace S4Sim

/-! ## What the controller grants -/

/-- `CAP.MQES`, zero-based. -/
def CAP_MQES : Nat := 3

/-- The ids of I/O submission and completion queues that the last Set Features for the
number of queues grants: from 1 to the zero-based count and one more. -/
def grantStep (g : Nat × Nat) (f : Fetch) : Nat × Nat :=
  if f.sqid = 0 ∧ f.scmd.opcode.toNat = 0x09 ∧ f.scmd.fid = 0x7 then
    (min f.scmd.nsq MAX_IO_SQCQ_PAIRS + 1, min f.scmd.ncq MAX_IO_SQCQ_PAIRS + 1)
  else g

def granted (fetched : List Fetch) : Nat × Nat := fetched.foldl grantStep (0, 0)

/-- An admin command on queues names granted ids, and a new queue has a granted size. -/
def CommandWithinGrants (g : Nat × Nat) (scmd : NvmeSCmd) : Prop :=
  match scmd.opcode.toNat with
  | 0x01 => 1 ≤ scmd.qid ∧ scmd.qid ≤ g.1 ∧ 1 ≤ scmd.cdw11High ∧ scmd.cdw11High ≤ g.2 ∧
      scmd.qsize ≤ CAP_MQES
  | 0x05 => 1 ≤ scmd.qid ∧ scmd.qid ≤ g.2 ∧ scmd.qsize ≤ CAP_MQES
  | 0x00 => 1 ≤ scmd.qid ∧ scmd.qid ≤ g.1
  | 0x04 => 1 ≤ scmd.qid ∧ scmd.qid ≤ g.2
  | _ => True

instance (g : Nat × Nat) (scmd : NvmeSCmd) : Decidable (CommandWithinGrants g scmd) := by
  unfold CommandWithinGrants
  split <;> infer_instance

/-- The host rings door bells of granted queues, and its commands stay within the grants. -/
def WithinGrants (s : State) : Action → Prop
  | .nvme env => aboutToPoll s = true →
      (env.DoorBell = 1 → env.Qindex ≤ (granted s.driver.fetched).1) ∧
      (env.DoorBell = 2 → env.Qindex ≤ (granted s.driver.fetched).2) ∧
      (env.DoorBell = 1 → env.Qindex = 0 →
        CommandWithinGrants (granted s.driver.fetched) env.scmd)
  | _ => True

instance (s : State) : (a : Action) → Decidable (WithinGrants s a)
  | .nvme env => inferInstanceAs (Decidable (aboutToPoll s = true →
      (env.DoorBell = 1 → env.Qindex ≤ (granted s.driver.fetched).1) ∧
      (env.DoorBell = 2 → env.Qindex ≤ (granted s.driver.fetched).2) ∧
      (env.DoorBell = 1 → env.Qindex = 0 →
        CommandWithinGrants (granted s.driver.fetched) env.scmd)))
  | .dma _ | .ftl .. | .isp_exit | .isp_host_dma _ | .isp_nand_op .. | .isp_function_exited
  | .isp_pending_dma _ | .isp_msg_out _ => inferInstanceAs (Decidable True)

/-! ## The condition -/

variable (c : Config)

/-- The step enqueues a completion in the admin queue. -/
def CompletesToAdmin (env : Env) (s : State) : Prop :=
  fetches env s = true ∧ env.Qindex = 0 ∨ completesTo c env s = some 0

/-- The loop over the I/O completion queues runs in the step. -/
def Retries (env : Env) (s : State) : Prop :=
  aboutToPoll s = true ∧
    (env.DoorBell = 2 ∨ env.DoorBell ≠ 1 ∧ s.idleTimeCounter + 1 ≥ 10000)

/-- The ids are at most `MAX_IO_SQCQ_PAIRS`, the loop over the completion queues runs for at
most as many, and an admin queue larger than its array has not reached the end of it. -/
structure StepWithinArrays (asqs acqs : Nat) (env : Env) (s : State) : Prop where
  bell : aboutToPoll s = true → env.DoorBell = 1 ∨ env.DoorBell = 2 →
    env.Qindex ≤ MAX_IO_SQCQ_PAIRS
  named : fetches env s = true → env.Qindex = 0 →
    env.scmd.opcode.toNat ∈ [0x00, 0x01, 0x04, 0x05] → env.scmd.qid ≤ MAX_IO_SQCQ_PAIRS
  cqid : fetches env s = true → env.Qindex ≠ 0 → unanswered env = false →
    (s.driver.sqs env.Qindex).cqid ≤ MAX_IO_SQCQ_PAIRS
  retried : Retries env s → s.driver.iocqCount ≤ MAX_IO_SQCQ_PAIRS
  fetched : fetches env s = true → env.Qindex = 0 → asqs < MAX_IO_SQCQ_ENTRIES ∨
    (s.driver.fetchedFrom 0).length < MAX_IO_SQCQ_ENTRIES
  enqueued : CompletesToAdmin c env s → acqs < INTERNAL_IO_REQ_QUEUE ∨
    (s.driver.enqueuedTo 0).length < INTERNAL_IO_REQ_QUEUE

instance (env : Env) (s : State) : Decidable (CompletesToAdmin c env s) := by
  unfold CompletesToAdmin
  infer_instance

instance (env : Env) (s : State) : Decidable (Retries env s) := by
  unfold Retries
  infer_instance

instance (asqs acqs : Nat) (env : Env) (s : State) :
    Decidable (StepWithinArrays c asqs acqs env s) :=
  decidable_of_iff
    ((aboutToPoll s = true → env.DoorBell = 1 ∨ env.DoorBell = 2 →
        env.Qindex ≤ MAX_IO_SQCQ_PAIRS) ∧
      (fetches env s = true → env.Qindex = 0 →
        env.scmd.opcode.toNat ∈ [0x00, 0x01, 0x04, 0x05] → env.scmd.qid ≤ MAX_IO_SQCQ_PAIRS) ∧
      (fetches env s = true → env.Qindex ≠ 0 → unanswered env = false →
        (s.driver.sqs env.Qindex).cqid ≤ MAX_IO_SQCQ_PAIRS) ∧
      (Retries env s → s.driver.iocqCount ≤ MAX_IO_SQCQ_PAIRS) ∧
      (fetches env s = true → env.Qindex = 0 → asqs < MAX_IO_SQCQ_ENTRIES ∨
        (s.driver.fetchedFrom 0).length < MAX_IO_SQCQ_ENTRIES) ∧
      (CompletesToAdmin c env s → acqs < INTERNAL_IO_REQ_QUEUE ∨
        (s.driver.enqueuedTo 0).length < INTERNAL_IO_REQ_QUEUE))
    ⟨fun ⟨h1, h2, h3, h4, h5, h6⟩ => ⟨h1, h2, h3, h4, h5, h6⟩,
      fun ⟨h1, h2, h3, h4, h5, h6⟩ => ⟨h1, h2, h3, h4, h5, h6⟩⟩

def WithinArrays (asqs acqs : Nat) (s : State) : Action → Prop
  | .nvme env => StepWithinArrays c asqs acqs env s
  | _ => True

instance (asqs acqs : Nat) (s : State) : (a : Action) → Decidable (WithinArrays c asqs acqs s a)
  | .nvme env => inferInstanceAs (Decidable (StepWithinArrays c asqs acqs env s))
  | .dma _ | .ftl .. | .isp_exit | .isp_host_dma _ | .isp_nand_op .. | .isp_function_exited
  | .isp_pending_dma _ | .isp_msg_out _ => inferInstanceAs (Decidable True)

/-! ## The invariant -/

/-- The positions of the ring of an I/O queue. -/
def IoRing (r : Rings.RingBuffer Req) : Prop :=
  r.size ≤ CAP_MQES + 1 ∧ (r.head < r.size ∨ r.head = 0) ∧ (r.tail < r.size ∨ r.tail = 0)

/-- The positions of the ring of the admin queue, with `n` requests enqueued so far. A ring
larger than its array has not come round. -/
def AdminRing (acqs n : Nat) (r : Rings.RingBuffer Req) : Prop :=
  r.size = acqs + 1 ∧ r.head < r.size ∧ r.tail < r.size ∧
    (INTERNAL_IO_REQ_QUEUE ≤ acqs → n ≤ INTERNAL_IO_REQ_QUEUE → r.tail = n ∧ r.head ≤ n)

/-- Completion queue `q`, with `n` requests enqueued so far. -/
structure CqIn (acqs q n : Nat) (cq : NvmeCQueue) : Prop where
  cqid : cq.cqid ≤ MAX_IO_SQCQ_PAIRS
  objs : ∀ i, (cq.pending.objs i).sqid ≤ MAX_IO_SQCQ_PAIRS
  admin : q = 0 → AdminRing acqs n cq.pending
  io : q ≠ 0 → IoRing cq.pending

/-- The submission queues: the admin queue by its number of fetches. -/
structure SqsIn (asqs : Nat) (d : Driver) : Prop where
  admin_size : (d.sqs 0).size = asqs + 1
  admin_head : (d.sqs 0).head = (d.fetchedFrom 0).length % (asqs + 1)
  io : ∀ q ≠ 0, (d.sqs q).size ≤ CAP_MQES + 1 ∧
    ((d.sqs q).head < (d.sqs q).size ∨ (d.sqs q).head = 0)

/-- A request names queues of the arrays. -/
structure ReqIn (req : Req) : Prop where
  cqid : req.cqid ≤ MAX_IO_SQCQ_PAIRS
  sqid : req.sqid ≤ MAX_IO_SQCQ_PAIRS

structure StateIn (asqs acqs : Nat) (s : State) : Prop where
  cqs : EachCq (CqIn acqs) s.driver
  sqs : SqsIn asqs s.driver
  reqs : ∀ req ∈ inFlight s, ReqIn req

section Queues

variable {c : Config} {env : Env} {s s' : State} {d d' : Driver} {cq cq' : NvmeCQueue} {req : Req}
  {asqs acqs q n m : Nat} {ix : ArrayIndex} {L : List Nat}

@[simp] theorem takePending_cqid : cq.takePending.cqid = cq.cqid := by
  unfold NvmeCQueue.takePending NvmeCQueue.inc_cq_tail
  split <;> rfl

theorem IoRing.pop {r : Rings.RingBuffer Req} (h : IoRing r) (hne : r.head ≠ r.tail) :
    IoRing r.pop := by
  obtain ⟨hsize, hhead, htail⟩ := h
  have hpos : 0 < r.size := by omega
  exact ⟨hsize, Or.inl (Nat.mod_lt _ hpos), htail⟩

theorem IoRing.push {r : Rings.RingBuffer Req} (h : IoRing r) (hpos : 0 < r.size) :
    IoRing (r.push req) := by
  obtain ⟨hsize, hhead, htail⟩ := h
  exact ⟨hsize, hhead, Or.inl (Nat.mod_lt _ hpos)⟩

theorem AdminRing.pop {r : Rings.RingBuffer Req} (h : AdminRing acqs n r)
    (hne : r.head ≠ r.tail) : AdminRing acqs n r.pop := by
  obtain ⟨hsize, hhead, htail, hlong⟩ := h
  refine ⟨hsize, Nat.mod_lt _ (by omega), htail, ?_⟩
  intro hacqs hn
  obtain ⟨htn, hhn⟩ := hlong hacqs hn
  refine ⟨htn, ?_⟩
  simp only [Rings.RingBuffer.pop]
  rw [Nat.mod_eq_of_lt (by omega)]
  omega

theorem AdminRing.push {r : Rings.RingBuffer Req} (h : AdminRing acqs n r) :
    AdminRing acqs (n + 1) (r.push req) := by
  obtain ⟨hsize, hhead, htail, hlong⟩ := h
  refine ⟨hsize, hhead, Nat.mod_lt _ (by omega), ?_⟩
  intro hacqs hn
  obtain ⟨htn, hhn⟩ := hlong hacqs (by omega)
  simp only [Rings.RingBuffer.push]
  rw [Nat.mod_eq_of_lt (by omega)]
  omega

theorem CqIn.take (h : CqIn acqs q n cq) (hne : cq.pending.head ≠ cq.pending.tail) :
    CqIn acqs q n cq.takePending := by
  obtain ⟨hcqid, hobjs, hadmin, hio⟩ := h
  refine ⟨?_, ?_, ?_, ?_⟩
  · rw [takePending_cqid]
    exact hcqid
  · intro i
    rw [takePending_pending]
    exact hobjs i
  · intro hq
    rw [takePending_pending]
    exact (hadmin hq).pop hne
  · intro hq
    rw [takePending_pending]
    exact (hio hq).pop hne

theorem CqIn.push (h : CqIn acqs q n cq) (hreq : req.sqid ≤ MAX_IO_SQCQ_PAIRS)
    (hpush : cq.pushPending req = some cq') : CqIn acqs q (n + 1) cq' := by
  obtain ⟨hcqid, hobjs, hadmin, hio⟩ := h
  unfold NvmeCQueue.pushPending at hpush
  split at hpush
  · rename_i hpos
    cases hpush
    refine ⟨hcqid, ?_, fun hq => (hadmin hq).push, fun hq => (hio hq).push hpos.2⟩
    intro i
    simp only [Rings.RingBuffer.push]
    by_cases hi : i = cq.pending.tail
    · subst hi
      rw [Function.update_self]
      exact hreq
    · rw [Function.update_of_ne hi]
      exact hobjs i
  · cases hpush

/-! ## The indexes of one function -/

/-- The admin queue that is larger than its array has had `n` requests, all in the array. -/
def CountIn (acqs q n : Nat) : Prop :=
  q = 0 → acqs < INTERNAL_IO_REQ_QUEUE ∨ n ≤ INTERNAL_IO_REQ_QUEUE

theorem CqIn.head_lt (h : CqIn acqs q n cq) (hn : CountIn acqs q n)
    (hne : cq.pending.head ≠ cq.pending.tail) : cq.pending.head < INTERNAL_IO_REQ_QUEUE := by
  by_cases hq : q = 0
  · obtain ⟨hsize, hhead, htail, hlong⟩ := h.admin hq
    rcases hn hq with hacqs | hn
    · omega
    · by_cases hacqs : acqs < INTERNAL_IO_REQ_QUEUE
      · omega
      · obtain ⟨htn, hhn⟩ := hlong (not_lt.mp hacqs) hn
        omega
  · obtain ⟨hsize, hhead, htail⟩ := h.io hq
    simp only [CAP_MQES, INTERNAL_IO_REQ_QUEUE] at *
    omega

theorem CqIn.tail_lt (h : CqIn acqs q n cq)
    (hn : q = 0 → acqs < INTERNAL_IO_REQ_QUEUE ∨ n < INTERNAL_IO_REQ_QUEUE) :
    cq.pending.tail < INTERNAL_IO_REQ_QUEUE := by
  by_cases hq : q = 0
  · obtain ⟨hsize, hhead, htail, hlong⟩ := h.admin hq
    rcases hn hq with hacqs | hn
    · omega
    · by_cases hacqs : acqs < INTERNAL_IO_REQ_QUEUE
      · omega
      · obtain ⟨htn, hhn⟩ := hlong (not_lt.mp hacqs) (by omega)
        omega
  · obtain ⟨hsize, hhead, htail⟩ := h.io hq
    simp only [CAP_MQES, INTERNAL_IO_REQ_QUEUE] at *
    omega

theorem post_ccmds_indexes_in (h : CqIn acqs q n cq) (hn : CountIn acqs q n) :
    ∀ ix ∈ post_ccmds_indexes cq m, ix.InBounds := by
  induction m generalizing cq with
  | zero => simp [post_ccmds_indexes]
  | succ m ih =>
    unfold post_ccmds_indexes
    split
    · simp
    · rename_i hgo
      have hne : cq.pending.head ≠ cq.pending.tail := fun he => hgo (Or.inl he)
      simp only [List.forall_mem_cons]
      exact ⟨h.head_lt hn hne, Nat.lt_succ_of_le (h.objs _), ih (h.take hne)⟩

theorem push_indexes_in (h : CqIn acqs q n (d.cqs q)) (hreq : req.sqid ≤ MAX_IO_SQCQ_PAIRS)
    (hn : q = 0 → acqs < INTERNAL_IO_REQ_QUEUE ∨ n < INTERNAL_IO_REQ_QUEUE) :
    ∀ ix ∈ d.push_indexes q req, ix.InBounds := by
  unfold Driver.push_indexes
  simp only [List.forall_mem_cons]
  refine ⟨h.tail_lt hn, ?_⟩
  split
  · simp
  · rename_i cq hpush
    exact post_ccmds_indexes_in (h.push hreq hpush) hn

theorem enqueue_io_ccmd_indexes_in (h : EachCq (CqIn acqs) d) (hq : q ≤ MAX_IO_SQCQ_PAIRS)
    (hreq : req.sqid ≤ MAX_IO_SQCQ_PAIRS)
    (hn : q = 0 → acqs < INTERNAL_IO_REQ_QUEUE ∨
      (d.enqueuedTo q).length < INTERNAL_IO_REQ_QUEUE) :
    ∀ ix ∈ d.enqueue_io_ccmd_indexes q req, ix.InBounds := by
  unfold Driver.enqueue_io_ccmd_indexes
  simp only [List.forall_mem_cons]
  refine ⟨Nat.lt_succ_of_le hq, ?_⟩
  split
  · simp
  · exact push_indexes_in (h q) hreq hn

theorem enqueue_admin_ccmd_indexes_in (h : EachCq (CqIn acqs) d) (hreq : req.sqid = 0)
    (hn : acqs < INTERNAL_IO_REQ_QUEUE ∨ (d.enqueuedTo 0).length < INTERNAL_IO_REQ_QUEUE) :
    ∀ ix ∈ d.enqueue_admin_ccmd_indexes req, ix.InBounds := by
  unfold Driver.enqueue_admin_ccmd_indexes
  simp only [List.forall_mem_cons]
  exact ⟨Nat.succ_pos _, Nat.succ_pos _, push_indexes_in (h 0) (by omega) fun _ => hn⟩

theorem retry_indexes_in (rule : CqRule env s (CqIn acqs)) (h : EachCq (CqIn acqs) d)
    (hL : ∀ q ∈ L, q ≠ 0 ∧ q ≤ MAX_IO_SQCQ_PAIRS) :
    ∀ ix ∈ Driver.retry_indexes L d, ix.InBounds := by
  induction L generalizing d with
  | nil => simp [Driver.retry_indexes]
  | cons q L ih =>
    obtain ⟨hq, hrest⟩ := List.forall_mem_cons.mp hL
    unfold Driver.retry_indexes Driver.post_io_ccmds_indexes
    intro ix hix
    rcases List.mem_append.mp hix with hix | hix
    · rcases List.mem_cons.mp hix with rfl | hix
      · exact Nat.lt_succ_of_le hq.2
      · exact post_ccmds_indexes_in (h q) (fun h0 => absurd h0 hq.1) ix hix
    · split at hix
      · cases hix
      · rename_i d' hd'
        exact ih (rule.post_io h hd') hrest ix hix

theorem retry_io_ccmds_indexes_in (rule : CqRule env s (CqIn acqs)) (h : EachCq (CqIn acqs) d)
    (hcount : d.iocqCount ≤ MAX_IO_SQCQ_PAIRS) :
    ∀ ix ∈ d.retry_io_ccmds_indexes, ix.InBounds := by
  apply retry_indexes_in rule h
  intro q hq
  rw [List.mem_range'_1] at hq
  omega

/-! ## What a step keeps -/

theorem fetches_iff : fetches env s = true ↔ aboutToPoll s = true ∧ env.DoorBell = 1 := by
  simp [fetches]

/-- The host stays within the grants in the step. -/
theorem commandWithinGrants_of (hg : WithinGrants s (.nvme env)) (hf : fetches env s = true)
    (hq : env.Qindex = 0) : CommandWithinGrants (granted s.driver.fetched) env.scmd := by
  obtain ⟨hpoll, hbell⟩ := fetches_iff.mp hf
  exact (hg hpoll).2.2 hbell hq

/-- The requests that the step pushes name submission queues of the array. -/
theorem Pushes.sqid_le (h : Pushes env s req) (hin : StateIn asqs acqs s)
    (hok : StepWithinArrays c asqs acqs env s) : req.sqid ≤ MAX_IO_SQCQ_PAIRS := by
  cases h with
  | admin hf hsqid => omega
  | inFlight hmem hsqid =>
    rw [hsqid]
    exact (hin.reqs _ hmem).sqid
  | asked hf hask =>
    obtain ⟨hpoll, hbell⟩ := fetches_iff.mp hf
    rw [hask.sqid]
    exact hok.bell hpoll (Or.inl hbell)

theorem cqIn_rule (hin : StateIn asqs acqs s) (hok : StepWithinArrays c asqs acqs env s)
    (hg : WithinGrants s (.nvme env)) : CqRule env s (CqIn acqs) where
  take h hne := h.take hne
  push h hreq hpush := h.push (hreq.sqid_le hin hok) hpush
  release _ h := ⟨h.cqid, h.objs, h.admin, h.io⟩
  create hf h := by
    obtain ⟨hfetch, hq, hop⟩ := hf
    have hwithin := commandWithinGrants_of hg hfetch hq
    simp only [CommandWithinGrants, hop] at hwithin
    refine ⟨hok.named hfetch hq (by simp [hop]), h.objs, fun h0 => absurd h0 (by omega), ?_⟩
    intro _
    refine ⟨?_, Or.inr rfl, Or.inr rfl⟩
    simp only [createdCq, NvmeCQueue.setUp]
    omega
  delete _ h := ⟨Nat.zero_le _, h.objs, h.admin, h.io⟩

theorem fetchedFrom_snoc {f : Fetch} {d d' : Driver} (h : d'.fetched = d.fetched ++ [f]) :
    d'.fetchedFrom q = d.fetchedFrom q ++ if f.sqid = q then [f.sqe] else [] := by
  unfold Driver.fetchedFrom
  rw [h, List.filter_append, List.map_append]
  by_cases hq : f.sqid = q
  · simp [hq]
  · simp [hq]

theorem fetchedFrom_congr (h : d'.fetched = d.fetched) : d'.fetchedFrom q = d.fetchedFrom q := by
  unfold Driver.fetchedFrom
  rw [h]

theorem sqsRead_of_ne (h : q ≠ env.Qindex) : sqsRead env d q = d.sqs q :=
  Function.update_of_ne h ..

theorem sqsRead_self : sqsRead env d env.Qindex = { d.sqs env.Qindex with
    tail := env.db_value
    head := ((d.sqs env.Qindex).head + 1) % (d.sqs env.Qindex).size } := by
  simp [sqsRead]

/-- The I/O submission queues after the read of an entry. -/
theorem SqsIn.read_io (h : SqsIn asqs d) (hread : (d.sqs env.Qindex).size ≠ 0) (hq : q ≠ 0) :
    (sqsRead env d q).size ≤ CAP_MQES + 1 ∧
      ((sqsRead env d q).head < (sqsRead env d q).size ∨ (sqsRead env d q).head = 0) := by
  obtain ⟨hsize, hhead⟩ := h.io q hq
  by_cases hself : q = env.Qindex
  · subst hself
    rw [sqsRead_self]
    exact ⟨hsize, Or.inl (Nat.mod_lt _ (Nat.pos_of_ne_zero hread))⟩
  · rw [sqsRead_of_ne hself]
    exact ⟨hsize, hhead⟩

/-- An entry is read, and the host stays within the grants. -/
theorem SqsIn.fetched (h : SqsIn asqs d) (hfetched : Fetched env d d')
    (hg : env.Qindex = 0 → CommandWithinGrants (granted d.fetched) env.scmd) : SqsIn asqs d' := by
  by_cases hq0 : env.Qindex = 0
  · obtain ⟨d1, d2, hsqs1, -, hcmd, hsqs2, -⟩ := hfetched.admin hq0
    have hadmin : d1.sqs 0 = { d.sqs 0 with
        tail := env.db_value, head := ((d.sqs 0).head + 1) % (d.sqs 0).size } := by
      rw [hsqs1, ← hq0]
      exact sqsRead_self
    have hsq0 : d2.sqs 0 = d1.sqs 0 := by
      have hwithin := hg hq0
      cases hcmd with
      | other => rfl
      | create_cq => rfl
      | delete_cq => rfl
      | create_sq hop =>
        simp only [CommandWithinGrants, hop] at hwithin
        exact Function.update_of_ne (by omega) ..
      | delete_sq hop =>
        simp only [CommandWithinGrants, hop] at hwithin
        exact Function.update_of_ne (by omega) ..
    refine ⟨?_, ?_, ?_⟩
    · rw [hsqs2, hsq0, hadmin]
      exact h.admin_size
    · rw [hsqs2, hsq0, hadmin, fetchedFrom_snoc hfetched.fetched,
        if_pos (show (fetchOf d env).sqid = 0 from hq0)]
      simp only [h.admin_size, h.admin_head, Nat.mod_add_mod, List.length_append,
        List.length_singleton]
    · intro q hq
      rw [hsqs2]
      have hread : (d1.sqs q).size ≤ CAP_MQES + 1 ∧
          ((d1.sqs q).head < (d1.sqs q).size ∨ (d1.sqs q).head = 0) := by
        rw [hsqs1]
        exact h.read_io hfetched.size hq
      have hwithin := hg hq0
      cases hcmd with
      | other => exact hread
      | create_cq => exact hread
      | delete_cq => exact hread
      | create_sq hop =>
        by_cases hqid : q = env.scmd.qid
        · subst hqid
          simp only [CommandWithinGrants, hop] at hwithin
          simp only [Function.update_self]
          exact ⟨Nat.succ_le_succ hwithin.2.2.2.2, Or.inr rfl⟩
        · simp only [Function.update_of_ne hqid]
          exact hread
      | delete_sq hop =>
        by_cases hqid : q = env.scmd.qid
        · subst hqid
          simp only [Function.update_self]
          exact ⟨Nat.zero_le _, Or.inr rfl⟩
        · simp only [Function.update_of_ne hqid]
          exact hread
  · have hsqs := (hfetched.io hq0).1
    have hne : ¬(fetchOf d env).sqid = 0 := hq0
    refine ⟨?_, ?_, ?_⟩
    · rw [hsqs, sqsRead_of_ne (fun he => hq0 he.symm)]
      exact h.admin_size
    · rw [hsqs, sqsRead_of_ne (fun he => hq0 he.symm), fetchedFrom_snoc hfetched.fetched,
        if_neg hne, List.append_nil]
      exact h.admin_head
    · intro q hq
      rw [hsqs]
      exact h.read_io hfetched.size hq

theorem SqsIn.same (h : SqsIn asqs d) (hsame : SameSqs d d') : SqsIn asqs d' := by
  refine ⟨?_, ?_, ?_⟩
  · rw [hsame.sqs]
    exact h.admin_size
  · rw [hsame.sqs, fetchedFrom_congr hsame.fetched]
    exact h.admin_head
  · rw [hsame.sqs]
    exact h.io

/-- The request of an entry that the step fetches. -/
theorem IoAsk.reqIn (hask : IoAsk s.driver env req) (hf : fetches env s = true)
    (hin : StateIn asqs acqs s) (hok : StepWithinArrays c asqs acqs env s) : ReqIn req := by
  obtain ⟨hpoll, hbell⟩ := fetches_iff.mp hf
  refine ⟨?_, ?_⟩
  · rw [hask.cqid]
    exact (hin.cqs _).cqid
  · rw [hask.sqid]
    exact hok.bell hpoll (Or.inl hbell)

/-- The requests in hand after a step were in hand before it, or are new. -/
theorem NvmeMove.held {st st' : Stage} {b : Books} (h : NvmeMove c env s st st' b) :
    ∀ req ∈ st'.held ++ b.ctrl_cmd_req.toList,
      req ∈ st.held ++ s.isp.ctrl_cmd_req.toList ∨
        fetches env s = true ∧ IoAsk s.driver env req := by
  intro req hreq
  cases h with
  | quiet => exact Or.inl hreq
  | shutdown => exact Or.inl hreq
  | isp_job => exact Or.inl hreq
  | unanswered => exact Or.inl hreq
  | admin => exact Or.inl hreq
  | answered => exact Or.inl hreq
  | rejected => exact Or.inl hreq
  | stored hf hask =>
    simp only [Stage.held, List.nil_append, Option.toList_some, List.mem_singleton] at hreq
    subst hreq
    exact Or.inr ⟨hf, hask⟩
  | recycled => simp [Stage.held] at hreq
  | write hf hask =>
    rcases List.mem_append.mp hreq with hreq | hreq
    · rw [List.mem_singleton.mp hreq]
      exact Or.inr ⟨hf, hask.toIoAsk⟩
    · exact Or.inl (List.mem_append_right _ hreq)
  | read hf hask =>
    rcases List.mem_append.mp hreq with hreq | hreq
    · rw [List.mem_singleton.mp hreq]
      exact Or.inr ⟨hf, hask.toIoAsk⟩
    · exact Or.inl (List.mem_append_right _ hreq)
  | received => exact Or.inl (List.mem_append_right _ hreq)
  | programmed => exact Or.inl hreq
  | loaded => exact Or.inl hreq
  | sent => exact Or.inl (List.mem_append_right _ hreq)
  | resumed => exact Or.inl hreq

/-- The firmware is at a stage, and its queues and requests are in the arrays. -/
def Inside (asqs acqs : Nat) (s : State) : Prop := ∃ st, At s st ∧ StateIn asqs acqs s

/-- A step keeps the queues in the arrays. -/
theorem StateIn.queues {a : Action} (h : StateIn asqs acqs s)
    (hok : WithinGrants s a ∧ WithinArrays c asqs acqs s a) (hstep : fwStep c s a = some s') :
    EachCq (CqIn acqs) s'.driver ∧ SqsIn asqs s'.driver := by
  rcases fwStep_driver hstep with ⟨env, rfl, hdriver⟩ | ⟨transfers, hd⟩
  · obtain ⟨hg, hok⟩ := hok
    refine ⟨(cqIn_rule h hok hg).move h.cqs hdriver, ?_⟩
    rcases hdriver.sqs with hsame | ⟨hf, hfetched⟩
    · exact h.sqs.same hsame
    · exact h.sqs.fetched hfetched fun hq => commandWithinGrants_of hg hf hq
  · rw [hd]
    exact ⟨h.cqs, h.sqs.admin_size, h.sqs.admin_head, h.sqs.io⟩

theorem inside_step {a : Action} (h : Inside asqs acqs s)
    (hok : WithinGrants s a ∧ WithinArrays c asqs acqs s a) (hstep : fwStep c s a = some s') :
    Inside asqs acqs s' := by
  obtain ⟨st, hat, hin⟩ := h
  obtain ⟨hcqs, hsqs⟩ := hin.queues hok hstep
  rcases fwStep_at hat hstep with ⟨env, st', rfl, hat', hmove⟩ | ⟨hat', hsame⟩
  · refine ⟨st', hat', hcqs, hsqs, ?_⟩
    intro req hreq
    rw [hat'.inFlight_eq] at hreq
    rcases hmove.held req hreq with hold | ⟨hf, hask⟩
    · rw [← hat.inFlight_eq] at hold
      exact hin.reqs req hold
    · exact hask.reqIn hf hin hok.2
  · refine ⟨st, hat', hcqs, hsqs, ?_⟩
    intro req hreq
    rw [hat'.inFlight_eq, hsame.ctrl, ← hat.inFlight_eq] at hreq
    exact hin.reqs req hreq

theorem inside_initialState (c : Config) (asqs acqs asq acq : Nat) (flash : Ppa → Nat → UInt8) :
    Inside asqs acqs (initialState c asqs acqs asq acq flash) := by
  refine ⟨.polling, at_initialState c asqs acqs asq acq flash, ?_, ⟨rfl, ?_, ?_⟩, ?_⟩
  · intro q
    by_cases hq : q = 0
    · subst hq
      refine ⟨Nat.zero_le _, fun _ => Nat.zero_le _, ?_, fun h => absurd rfl h⟩
      intro _
      refine ⟨rfl, Nat.succ_pos _, Nat.succ_pos _, ?_⟩
      intro _ _
      exact ⟨rfl, Nat.zero_le _⟩
    · have hcq : (initialState c asqs acqs asq acq flash).driver.cqs q = Driver.zero.cqs q :=
        Function.update_of_ne hq ..
      rw [hcq]
      refine ⟨Nat.zero_le _, fun _ => Nat.zero_le _, fun h => absurd h hq, fun _ => ?_⟩
      exact ⟨Nat.zero_le _, Or.inr rfl, Or.inr rfl⟩
  · simp [initialState, initialize_nvme, Driver.fetchedFrom, Driver.zero]
  · intro q hq
    have hsq : (initialState c asqs acqs asq acq flash).driver.sqs q = Driver.zero.sqs q :=
      Function.update_of_ne hq ..
    rw [hsq]
    exact ⟨Nat.zero_le _, Or.inr rfl⟩
  · simp [initialState, inFlight, FtlThread.jobs]

/-! ## The indexes of a step -/

theorem StateIn.sq_head_lt (h : StateIn asqs acqs s) (hok : StepWithinArrays c asqs acqs env s)
    (hf : fetches env s = true) : (s.driver.sqs env.Qindex).head < MAX_IO_SQCQ_ENTRIES := by
  by_cases hq : env.Qindex = 0
  · rw [hq, h.sqs.admin_head]
    have hlt := Nat.mod_lt (s.driver.fetchedFrom 0).length (show 0 < asqs + 1 by omega)
    have hle := Nat.mod_le (s.driver.fetchedFrom 0).length (asqs + 1)
    rcases hok.fetched hf hq with hasqs | hcount
    · omega
    · omega
  · obtain ⟨hsize, hhead⟩ := h.sqs.io _ hq
    simp only [CAP_MQES, MAX_IO_SQCQ_ENTRIES] at *
    omega

/-- The request of a completion names queues of the arrays. -/
theorem completion_indexes_in (h : StateIn asqs acqs s) (hok : StepWithinArrays c asqs acqs env s)
    (hreq : ReqIn req) (hto : completesTo c env s = some req.cqid) :
    ∀ ix ∈ s.driver.enqueue_io_ccmd_indexes req.cqid req, ix.InBounds := by
  refine enqueue_io_ccmd_indexes_in h.cqs hreq.cqid hreq.sqid ?_
  intro hq
  rw [hq]
  exact hok.enqueued (Or.inr (hq ▸ hto))

theorem process_io_cmd_indexes_in (h : StateIn asqs acqs s)
    (hok : StepWithinArrays c asqs acqs env s) (hf : fetches env s = true)
    (hq : env.Qindex ≠ 0) (hd : s.driver.sq_door_bell env.Qindex env.db_value = some d)
    (hto : completesAtOnce c env s = true → completesTo c env s = some (ioCqid s.driver env)) :
    ∀ ix ∈ process_io_cmd_indexes c env s d, ix.InBounds := by
  obtain ⟨hpoll, hbell⟩ := fetches_iff.mp hf
  have hindex := hok.bell hpoll (Or.inl hbell)
  have hsame := sq_door_bell_cases hd
  have hid := hsame.cqid
  have hhead := hsame.head
  unfold process_io_cmd_indexes
  simp only [List.forall_mem_cons]
  refine ⟨Nat.lt_succ_of_le hindex, hhead ▸ h.sq_head_lt hok hf, ?_⟩
  split
  · simp
  · rename_i d1 hd1
    obtain ⟨-, -, he, hcqs⟩ := read_scmd_cases hd1
    split
    · simp
    · rename_i hans
      have hcqid := hok.cqid hf hq (Bool.eq_false_of_not_eq_true hans)
      simp only [List.forall_mem_cons]
      refine ⟨Nat.lt_succ_of_le (hid ▸ hcqid), ?_⟩
      split
      · simp
      · rename_i req hreq
        split
        · rename_i hat
          obtain ⟨obj, -, hreq⟩ := Option.bind_eq_some_iff.mp hreq
          have hto := hto hat
          obtain ⟨-, hreqsq, hreqd, -⟩ := ioRequest_cases hreq
          have hreqcq : req.cqid = ioCqid s.driver env := hreqd.trans hsame.ioCqid
          refine enqueue_io_ccmd_indexes_in
            (h.cqs.congr (hcqs.trans hsame.cqs) (he.trans hsame.enqueued)) ?_ (hreqsq ▸ hindex) ?_
          · rw [hreqcq]
            exact (h.cqs _).cqid
          · intro hzero
            have hadmin := hok.enqueued (Or.inr (by rw [hto, ← hreqcq, hzero]))
            unfold Driver.enqueuedTo at hadmin ⊢
            rw [he, hsame.enqueued, hzero]
            exact hadmin
        · simp

theorem process_admin_cmd_indexes_in (h : StateIn asqs acqs s)
    (hok : StepWithinArrays c asqs acqs env s) (hg : WithinGrants s (.nvme env))
    (hf : fetches env s = true) (hq : env.Qindex = 0)
    (hd : s.driver.sq_door_bell env.Qindex env.db_value = some d) :
    ∀ ix ∈ process_admin_cmd_indexes env d, ix.InBounds := by
  have hsame := sq_door_bell_cases hd
  have hhead : (d.sqs env.Qindex).head = (s.driver.sqs env.Qindex).head :=
    congrArg Fetch.sqe hsame.fetchOf
  have hlt := h.sq_head_lt hok hf
  rw [← hhead, hq] at hlt
  unfold process_admin_cmd_indexes
  simp only [List.forall_mem_cons]
  refine ⟨Nat.succ_pos _, hlt, ?_⟩
  split
  · simp
  · rename_i d1 hd1
    rw [← hq] at hd1
    obtain ⟨-, -, he, hcqs⟩ := read_scmd_cases hd1
    have hcqs1 := h.cqs.congr (hcqs.trans hsame.cqs) (he.trans hsame.enqueued)
    intro ix hix
    rcases List.mem_append.mp hix with hix | hix
    · -- The queue that the command names.
      have hnamed := hok.named hf hq
      unfold queue_cmd_indexes at hix
      split at hix <;> rename_i hop <;>
        simp only [List.mem_singleton, List.not_mem_nil] at hix <;>
        subst hix <;> exact Nat.lt_succ_of_le (hnamed (by simp [hop]))
    · split at hix
      · rename_i obj d2 hobj hd2
        split at hix
        · cases hix
        · have hcmd := queueCommand_spec hd2
          refine enqueue_admin_ccmd_indexes_in
            ((cqIn_rule h hok hg).queueCommand hcqs1 hf hq hcmd) rfl ?_ ix hix
          have hadmin := hok.enqueued (Or.inl ⟨hf, hq⟩)
          unfold Driver.enqueuedTo at hadmin ⊢
          rw [hcmd.enqueued, he, hsame.enqueued]
          exact hadmin
      · cases hix

theorem check_door_bell_indexes_in (h : StateIn asqs acqs s)
    (hok : StepWithinArrays c asqs acqs env s) (hg : WithinGrants s (.nvme env))
    (hpoll : aboutToPoll s = true)
    (hto : env.DoorBell = 1 → env.Qindex ≠ 0 → completesAtOnce c env s = true →
      completesTo c env s = some (ioCqid s.driver env)) :
    ∀ ix ∈ check_door_bell_indexes c env s, ix.InBounds := by
  have rule := cqIn_rule h hok hg
  unfold check_door_bell_indexes
  split
  · rename_i hbell
    have hf : fetches env s = true := fetches_iff.mpr ⟨hpoll, hbell⟩
    simp only [List.forall_mem_cons]
    refine ⟨Nat.lt_succ_of_le (hok.bell hpoll (Or.inl hbell)), ?_⟩
    split
    · simp
    · rename_i d hd
      split
      · rename_i hq
        exact process_io_cmd_indexes_in h hok hf hq hd (hto hbell hq)
      · rename_i hq
        exact process_admin_cmd_indexes_in h hok hg hf (not_not.mp hq) hd
  · rename_i hne
    split
    · rename_i hbell
      simp only [List.forall_mem_cons]
      refine ⟨Nat.lt_succ_of_le (hok.bell hpoll (Or.inr hbell)), ?_⟩
      exact retry_io_ccmds_indexes_in rule (rule.setCqHead h.cqs _ _)
        (hok.retried ⟨hpoll, Or.inl hbell⟩)
    · split
      · rename_i hcount
        exact retry_io_ccmds_indexes_in rule h.cqs (hok.retried ⟨hpoll, Or.inr ⟨hne, hcount⟩⟩)
      · simp

theorem ctrl_cmd_indexes_in (h : StateIn asqs acqs s) (hok : StepWithinArrays c asqs acqs env s)
    (hto : completesTo c env s = s.isp.ctrl_cmd_req.map Req.cqid) :
    ∀ ix ∈ ctrl_cmd_indexes s, ix.InBounds := by
  unfold ctrl_cmd_indexes
  split
  · simp
  · rename_i req hreq
    exact completion_indexes_in h hok (h.reqs req (mem_inFlight_of_ctrl hreq))
      (by rw [hto, hreq]; rfl)

/-- Every index of a step within the grants and the arrays is in its array. -/
theorem nvmeStep_indexes_in (h : StateIn asqs acqs s) (hok : StepWithinArrays c asqs acqs env s)
    (hg : WithinGrants s (.nvme env)) : ∀ ix ∈ nvmeStep_indexes c env s, ix.InBounds := by
  unfold nvmeStep_indexes
  split
  · rename_i rest htodo
    split
    · rename_i rest' hcb
      refine check_door_bell_indexes_in h hok hg (by simp [aboutToPoll, htodo, hcb]) ?_
      intro hbell hq hat
      simp [completesTo, htodo, hcb, hbell, hq, hat]
    · rename_i rest' hcb
      exact ctrl_cmd_indexes_in h hok (by simp [completesTo, htodo, hcb])
    · simp
  · rename_i rest htodo
    split
    · rename_i dma_req msgs hmsg
      exact ctrl_cmd_indexes_in h hok (by simp [completesTo, htodo, hmsg])
    · rename_i msgs hmsg
      exact ctrl_cmd_indexes_in h hok (by simp [completesTo, htodo, hmsg])
    · simp
  · rename_i req rest htodo
    split
    · simp
    · rename_i hdma
      exact completion_indexes_in h hok (h.reqs req (mem_inFlight_of_task htodo rfl))
        (by simp [completesTo, htodo, Option.not_isSome_iff_eq_none.mp hdma])
  · rename_i req rest htodo
    split
    · simp
    · rename_i hdma
      exact completion_indexes_in h hok (h.reqs req (mem_inFlight_of_task htodo rfl))
        (by simp [completesTo, htodo, Option.not_isSome_iff_eq_none.mp hdma])
  · simp

end Queues

/-! ## The law -/

/-- In every run of a host that stays within the grants, whose steps also stay within the
arrays, every index that the driver uses is inside its array. -/
theorem every_index_is_in_its_array {asqs acqs asq acq : Nat} {flash : Ppa → Nat → UInt8}
    {acts : List Action} {s : State}
    (hok : AllSteps (fwStep c) (fun s a => WithinGrants s a ∧ WithinArrays c asqs acqs s a)
      (initialState c asqs acqs asq acq flash) acts)
    (h : run (fwStep c) (initialState c asqs acqs asq acq flash) acts = some s) {env : Env}
    (hg : WithinGrants s (.nvme env)) (harrays : WithinArrays c asqs acqs s (.nvme env)) :
    ∀ ix ∈ nvmeStep_indexes c env s, ix.InBounds := by
  have hinside : Inside asqs acqs s :=
    run_invariant_of_ok (I := fun _ s => Inside asqs acqs s) (inside_initialState ..)
      (fun _ _ _ _ _ ht hok hstep => inside_step ht hok hstep) hok h
  obtain ⟨st, -, hin⟩ := hinside
  exact nvmeStep_indexes_in hin harrays hg

/-- Set Features for `n` I/O queue pairs, zero-based, and the start of the next round. -/
def askForQueues (n : UInt32) : List Action :=
  roundFor (ringFor 0 1 ⟨0x09, 7, 0, 0, 0, 0, 0x7, n + 0x10000 * n, 0⟩) ++
    [.nvme (ringFor 0 2 (readBlock 1))]

/-- One queue pair is granted, and the host creates completion queue 1. -/
theorem every_index_is_in_its_array_for_a_first_queue :
    ∃ s, run (fwStep smallDevice) bootState (askForQueues 0) = some s ∧
      ∀ ix ∈ nvmeStep_indexes smallDevice
        (ringFor 0 2 ⟨0x05, 1, 0, 0, 0x10000, 0, 0x30001, 0x10003, 0⟩) s, ix.InBounds := by
  have hrun : (run (fwStep smallDevice) bootState (askForQueues 0)).map (fun s =>
      decide (WithinGrants s
          (.nvme (ringFor 0 2 ⟨0x05, 1, 0, 0, 0x10000, 0, 0x30001, 0x10003, 0⟩)) ∧
        WithinArrays smallDevice 31 31 s
          (.nvme (ringFor 0 2 ⟨0x05, 1, 0, 0, 0x10000, 0, 0x30001, 0x10003, 0⟩)))) =
      some true := by
    decide +kernel
  obtain ⟨s, hs, hin⟩ := Option.map_eq_some_iff.mp hrun
  obtain ⟨hg, harrays⟩ := of_decide_eq_true hin
  exact ⟨s, hs, every_index_is_in_its_array smallDevice (by decide +kernel) hs hg harrays⟩

/-- Set Features grants the zero-based count 4, which is five queues, and the host creates
completion queue 5: the index is outside `cqs`. -/
theorem the_fifth_queue_is_outside_its_array :
    ¬ ∀ (acts : List Action) (s : State),
      AllSteps (fwStep smallDevice) WithinGrants bootState acts →
        run (fwStep smallDevice) bootState acts = some s →
          ∀ env : Env, WithinGrants s (.nvme env) →
            ∀ ix ∈ nvmeStep_indexes smallDevice env s, ix.InBounds := by
  intro hall
  have hrun : (run (fwStep smallDevice) bootState (askForQueues 4)).map (fun s =>
      (decide (WithinGrants s
          (.nvme (ringFor 0 2 ⟨0x05, 1, 0, 0, 0x10000, 0, 0x30005, 0x10003, 0⟩))),
        (nvmeStep_indexes smallDevice
          (ringFor 0 2 ⟨0x05, 1, 0, 0, 0x10000, 0, 0x30005, 0x10003, 0⟩) s).contains
            (.cqs 5))) = some (true, true) := by
    decide +kernel
  obtain ⟨s, hs, hvals⟩ := Option.map_eq_some_iff.mp hrun
  obtain ⟨hg, hmem⟩ := Prod.mk.inj hvals
  have hin := hall _ s (by decide +kernel) hs _ (of_decide_eq_true hg) _
    (List.contains_iff_mem.mp hmem)
  exact absurd hin (by decide)

end S4Sim
