-- The array indexes of nvme_driver.c. Each function of the driver has the list of the
-- elements of `sqs`, `cqs`, `pending.objs` and `scmd_buf` that it uses, in its own control
-- flow; the list goes on up to the first statement without an outcome.
import S4Sim.Firmware.QueueRules

namespace S4Sim

def MAX_IO_SQCQ_ENTRIES : Nat := 128

/-- An element of one of the arrays of the driver. -/
inductive ArrayIndex
  | sqs (i : Nat)
  | cqs (i : Nat)
  | pending (i : Nat)
  | scmd_buf (i : Nat)
  deriving DecidableEq, Repr

def ArrayIndex.InBounds : ArrayIndex → Prop
  | sqs i => i < MAX_IO_SQCQ_PAIRS + 1
  | cqs i => i < MAX_IO_SQCQ_PAIRS + 1
  | pending i => i < INTERNAL_IO_REQ_QUEUE
  | scmd_buf i => i < MAX_IO_SQCQ_ENTRIES

instance : (ix : ArrayIndex) → Decidable ix.InBounds
  | .sqs i => inferInstanceAs (Decidable (i < MAX_IO_SQCQ_PAIRS + 1))
  | .cqs i => inferInstanceAs (Decidable (i < MAX_IO_SQCQ_PAIRS + 1))
  | .pending i => inferInstanceAs (Decidable (i < INTERNAL_IO_REQ_QUEUE))
  | .scmd_buf i => inferInstanceAs (Decidable (i < MAX_IO_SQCQ_ENTRIES))

/-! ## Posting and enqueueing -/

/-- The loop of `post_io_ccmds`, for at most the given number of turns: the request at the
head of the ring, and the submission queue that it came from. -/
def post_ccmds_indexes (cq : NvmeCQueue) : Nat → List ArrayIndex
  | 0 => []
  | n + 1 =>
    if cq.pending.head = cq.pending.tail ∨ cq.size = 0 ∨ cq.nvme_cq_full then []
    else
      .pending cq.pending.head :: .sqs (cq.pending.objs cq.pending.head).sqid ::
        post_ccmds_indexes cq.takePending n

namespace Driver

variable (d : Driver)

def post_io_ccmds_indexes (cqid : Nat) : List ArrayIndex :=
  .cqs cqid :: post_ccmds_indexes (d.cqs cqid) (d.cqs cqid).pending.size

/-- The write to the ring of queue `cqid`, and the posting loop after it. -/
def push_indexes (cqid : Nat) (req : Req) : List ArrayIndex :=
  .pending (d.cqs cqid).pending.tail ::
    match (d.cqs cqid).pushPending req with
    | none => []
    | some cq => post_ccmds_indexes cq cq.pending.size

def enqueue_io_ccmd_indexes (cqid : Nat) (req : Req) : List ArrayIndex :=
  .cqs cqid ::
    if (d.cqs cqid).pending.size = 0 ∨ (d.cqs cqid).pendingFull then []
    else d.push_indexes cqid req

/-- `post_admin_ccmds` uses queue 0 of both arrays. -/
def enqueue_admin_ccmd_indexes (req : Req) : List ArrayIndex :=
  .cqs 0 :: .sqs 0 :: d.push_indexes 0 req

/-- The loop of `check_door_bell` over the pending completions of the I/O queues. -/
def retry_indexes : List Nat → Driver → List ArrayIndex
  | [], _ => []
  | q :: L, d =>
    d.post_io_ccmds_indexes q ++
      match d.post_io_ccmds q with
      | none => []
      | some d' => retry_indexes L d'

def retry_io_ccmds_indexes : List ArrayIndex := retry_indexes (List.range' 1 d.iocqCount) d

end Driver

/-! ## The commands -/

/-- The queue that an admin command names. -/
def queue_cmd_indexes (scmd : NvmeSCmd) : List ArrayIndex :=
  match scmd.opcode.toNat with
  | 0x01 | 0x00 => [.sqs scmd.qid]
  | 0x05 | 0x04 => [.cqs scmd.qid]
  | _ => []

/-- The driver after an admin command has changed the queue that it names. -/
def queueCommand (scmd : NvmeSCmd) (d : Driver) : Option Driver :=
  if scmd.opcode.toNat ∈ [0x00, 0x01, 0x04, 0x05] ∧ scmd.qid > MAX_IO_SQCQ_PAIRS then none
  else
    match scmd.opcode.toNat with
    | 0x01 => some { d with
        sqs := Function.update d.sqs scmd.qid (createdSq scmd)
        iosqCount := (d.iosqCount + 1) % 2 ^ 32 }
    | 0x05 => some { d with
        cqs := Function.update d.cqs scmd.qid (createdCq scmd (d.cqs scmd.qid))
        iocqCount := (d.iocqCount + 1) % 2 ^ 32 }
    | 0x00 => some { d with
        sqs := Function.update d.sqs scmd.qid (deletedSq (d.sqs scmd.qid))
        iosqCount := (d.iosqCount + (2 ^ 32 - 1)) % 2 ^ 32 }
    | 0x04 => some { d with
        cqs := Function.update d.cqs scmd.qid (deletedCq (d.cqs scmd.qid))
        iocqCount := (d.iocqCount + (2 ^ 32 - 1)) % 2 ^ 32 }
    | _ => some d

theorem queueCommand_spec {scmd : NvmeSCmd} {d d' : Driver}
    (h : queueCommand scmd d = some d') : QueueCommand scmd d d' := by
  unfold queueCommand at h
  split at h
  · cases h
  · rename_i hin
    have hq : scmd.opcode.toNat ∈ [0x00, 0x01, 0x04, 0x05] → scmd.qid ≤ MAX_IO_SQCQ_PAIRS :=
      fun hop => not_lt.mp fun hlt => hin ⟨hop, hlt⟩
    split at h
    · rename_i hop
      cases h
      exact .create_sq hop (hq (by simp [hop]))
    · rename_i hop
      cases h
      exact .create_cq hop (hq (by simp [hop]))
    · rename_i hop
      cases h
      exact .delete_sq hop (hq (by simp [hop]))
    · rename_i hop
      cases h
      exact .delete_cq hop (hq (by simp [hop]))
    · rename_i h1 h5 h0 h4
      cases h
      refine .other ?_
      simp only [List.mem_cons, List.not_mem_nil, or_false]
      rintro (hop | hop | hop | hop)
      · exact h0 hop
      · exact h1 hop
      · exact h4 hop
      · exact h5 hop

variable (c : Config)

/-- `process_admin_cmd`. The handlers enqueue the request of the entry, but for an Identify
of an unknown structure. -/
def process_admin_cmd_indexes (env : Env) (d : Driver) : List ArrayIndex :=
  .sqs 0 :: .scmd_buf (d.sqs 0).head ::
    match d.read_scmd 0 env.scmd env.mem with
    | none => []
    | some d1 =>
      queue_cmd_indexes env.scmd ++
        match env.obj, queueCommand env.scmd d1 with
        | some obj, some d2 =>
          if unanswered env then []
          else d2.enqueue_admin_ccmd_indexes (adminRequest d env.scmd obj)
        | _, _ => []

/-- `process_io_cmd` and the handlers: the request takes its completion queue from the
submission queue. -/
def process_io_cmd_indexes (env : Env) (s : State) (d : Driver) : List ArrayIndex :=
  .sqs env.Qindex :: .scmd_buf (d.sqs env.Qindex).head ::
    match d.read_scmd env.Qindex env.scmd env.mem with
    | none => []
    | some d1 =>
      if unanswered env then []
      else
        .cqs (d.sqs env.Qindex).cqid ::
          match env.obj.bind (ioRequest d env.Qindex) with
          | none => []
          | some req =>
            if completesAtOnce c env s then d1.enqueue_io_ccmd_indexes req.cqid req else []

/-- `check_door_bell` -/
def check_door_bell_indexes (env : Env) (s : State) : List ArrayIndex :=
  if env.DoorBell = 1 then
    .sqs env.Qindex ::
      match s.driver.sq_door_bell env.Qindex env.db_value with
      | none => []
      | some d =>
        if env.Qindex ≠ 0 then process_io_cmd_indexes c env s d
        else process_admin_cmd_indexes env d
  else if env.DoorBell = 2 then
    .cqs env.Qindex :: (s.driver.setCqHead env.Qindex env.db_value).retry_io_ccmds_indexes
  else if s.idleTimeCounter + 1 ≥ 10000 then s.driver.retry_io_ccmds_indexes
  else []

/-- The completion of the stored control command. -/
def ctrl_cmd_indexes (s : State) : List ArrayIndex :=
  match s.isp.ctrl_cmd_req with
  | none => []
  | some req => s.driver.enqueue_io_ccmd_indexes req.cqid req

/-- The elements that one step of the NVMe thread uses. -/
def nvmeStep_indexes (env : Env) (s : State) : List ArrayIndex :=
  match s.todo with
  | .callback :: _ =>
    match s.callbacks with
    | .check_door_bell :: _ => check_door_bell_indexes c env s
    | .recycle_control_command :: _ => ctrl_cmd_indexes s
    | [] => []
  | .msg_out :: _ =>
    match s.isp.msg_out_q with
    | .host_dma _ :: _ | .execution_exit :: _ => ctrl_cmd_indexes s
    | _ => []
  | .read_dma req :: _ | .write_dma req :: _ =>
    if s.dma.isSome then [] else s.driver.enqueue_io_ccmd_indexes req.cqid req
  | _ => []

end S4Sim
