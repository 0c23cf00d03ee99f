-- Where the firmware has its one READ or WRITE. `Stage` is the abstract machine:
-- the polling callback is queued, or a command has it, from the door bell to the
-- callback of the FTL. `NvmeMove` says once what a step of the NVMe thread can do.
import S4Sim.Firmware.Threads

namespace S4Sim

/-! ## The stages -/

/-- The place of the READ or WRITE in hand, or of the polling callback when there
is none. A request that `verify_rw_param` rejects loses the callback for good. -/
inductive Stage
  | polling
  /-- `check_door_bell` waits for the data of a WRITE. -/
  | receiving (req : Req)
  /-- The FTL has the pages of a WRITE. -/
  | programming (req : Req)
  /-- The FTL has a READ. -/
  | loading (req : Req)
  /-- `completed_req_cbk` waits for the data of a READ. -/
  | sending (req : Req)
  /-- `completed_req_cbk` goes through the requests that wait. -/
  | resuming
  | stopped

namespace Stage

/-- The requests that have no completion yet. -/
def held : Stage → List Req
  | receiving req | loading req | sending req => [req]
  | _ => []

/-- The jobs of the FTL, those of applets apart. -/
def jobs : Stage → List FtlJob
  | programming _ => [.flush]
  | loading req => [.read req]
  | _ => []

/-- `page_buffer_inuse` -/
def inuse : Stage → Bool
  | receiving _ | programming _ | loading _ | sending _ => true
  | _ => false

/-- The request that the DMA thread may have, and the direction. -/
def transfer : Stage → Option (Req × Bool)
  | receiving req => some (req, false)
  | sending req => some (req, true)
  | _ => none

end Stage

def FtlJob.isRw : FtlJob → Bool
  | .isp .. => false
  | _ => true

def FtlPc.job : FtlPc → List FtlJob
  | .idle => []
  | .looping job _ _ => [job]
  | .waiting job _ => [job]

@[simp] theorem FtlPc.job_idle : FtlPc.idle.job = [] := rfl

@[simp] theorem FtlPc.job_looping (job : FtlJob) (i : Nat) (ops : List NandOp) :
    (FtlPc.looping job i ops).job = [job] := rfl

@[simp] theorem FtlPc.job_waiting (job : FtlJob) (ops : List NandOp) :
    (FtlPc.waiting job ops).job = [job] := rfl

/-- The jobs of the FTL thread in the order that they leave it. -/
def FtlThread.jobs (t : FtlThread) : List FtlJob := t.outq ++ t.pc.job ++ t.inq

def FtlThread.rwJobs (t : FtlThread) : List FtlJob := t.jobs.filter FtlJob.isRw

/-- What is left of a round of `run_thread`. -/
def rounds : List (List Task) :=
  [[.callback, .msg_out, .ftl_out], [.msg_out, .ftl_out], [.ftl_out], []]

/-- What is left of `completed_req_cbk` after its wait. -/
def resumptions : List (List Task) :=
  [[.read_ios_step_2, .write_ios_step_2, .add_check_door_bell],
    [.write_ios_step_2, .read_ios_step_2, .add_check_door_bell],
    [.write_ios_step_2, .add_check_door_bell], [.read_ios_step_2, .add_check_door_bell],
    [.add_check_door_bell]]

/-- The callbacks, the rest of the running function and the stored control command
of each stage. A stored control command is recycled before the next poll. -/
inductive Control : Stage → List Callback → List Task → Option Req → Prop
  | polling {todo} (h : todo ∈ rounds) : Control .polling [.check_door_bell] todo none
  | recycling {todo ctrl} (h : todo ∈ rounds) :
    Control .polling [.recycle_control_command, .check_door_bell] todo ctrl
  | receiving {req} : Control (.receiving req) [] [.write_dma req, .msg_out, .ftl_out] none
  | received {req} : Control (.programming req) [] [.write_ios_step_2, .msg_out, .ftl_out] none
  | programming {req todo} (h : todo ∈ rounds) : Control (.programming req) [] todo none
  | loading {req todo} (h : todo ∈ rounds) : Control (.loading req) [] todo none
  | sending {req} : Control (.sending req) []
    [.read_dma req, .read_ios_step_2, .write_ios_step_2, .add_check_door_bell] none
  | resuming {todo} (h : todo ∈ resumptions) : Control .resuming [] todo none
  | stopped {todo} (h : todo ∈ rounds) : Control .stopped [] todo none

/-- The firmware is at a stage. -/
structure At (s : State) (st : Stage) : Prop where
  control : Control st s.callbacks s.todo s.isp.ctrl_cmd_req
  r_buf_q : s.buf.r_buf_q = []
  w_buf_q : s.buf.w_buf_q = []
  inuse : s.buf.page_buffer_inuse = st.inuse
  jobs : s.ftl.rwJobs = st.jobs
  outq : ∀ job ∈ s.ftl.outq, job.isRw = true
  dma : ∀ job, s.dma = some job → st.transfer = some (job.req, job.toHost)

/-! ## What a step of the NVMe thread can do -/

/-- The part of the memory that the laws are about. -/
structure Books where
  fetched : List Fetch
  enqueued : List (Nat × Req)
  transfers : List Transfer
  ctrl_cmd_req : Option Req
  page_buffer : Nat → UInt8
  wbc : Wbc
  dma : Option DmaJob
  ftl : FtlThread

def State.books (s : State) : Books where
  fetched := s.driver.fetched
  enqueued := s.driver.enqueued
  transfers := s.driver.transfers
  ctrl_cmd_req := s.isp.ctrl_cmd_req
  page_buffer := s.buf.page_buffer
  wbc := s.buf.wbc
  dma := s.dma
  ftl := s.ftl

/-- The entry that a door bell of the submission queue `env.Qindex` fetches. -/
def fetchOf (d : Driver) (env : Env) : Fetch where
  uid := d.fetched.length
  sqid := env.Qindex
  sqe := (d.sqs env.Qindex).head
  cqid := (d.sqs env.Qindex).cqid
  scmd := env.scmd
  mem := env.mem

def Fetch.isRead (f : Fetch) : Bool := f.sqid != 0 && f.scmd.opcode.toNat == 0x02

def Fetch.isWrite (f : Fetch) : Bool := f.sqid != 0 && f.scmd.opcode.toNat == 0x01

/-- The log of enqueued requests after `enqueue_io_ccmd`: a full ring drops the
request. -/
def Driver.enqueuedAfter (d : Driver) (cqid : Nat) (req : Req) : List (Nat × Req) :=
  if (d.cqs cqid).pendingFull then d.enqueued else d.enqueued ++ [(cqid, req)]

variable (c : Config)

/-- The handler of the command completes it before it returns. -/
def completesAtOnce (env : Env) (s : State) : Bool :=
  match env.scmd.opcode.toNat with
  | 0x01 | 0x02 => !verify_rw_param c env.scmd
  | 0x00 | 0x80 | 0x82 => true
  | 0x81 => s.isp.function_exited || !s.isp.pending_dma.isEmpty
  | _ => false

/-- The completion queue id of an I/O request: the id that the queue record has. -/
def ioCqid (d : Driver) (env : Env) : Nat := (d.cqs (d.sqs env.Qindex).cqid).cqid

/-- The next step of the NVMe thread runs `check_door_bell`. -/
def aboutToPoll (s : State) : Bool :=
  match s.todo, s.callbacks with
  | .callback :: _, .check_door_bell :: _ => true
  | _, _ => false

/-- The next step of the NVMe thread is a poll that finds the door bell of a submission queue. -/
def fetches (env : Env) (s : State) : Bool := aboutToPoll s && env.DoorBell == 1

/-- The queue that a step of the NVMe thread calls `enqueue_io_ccmd` for. -/
def completesTo (env : Env) (s : State) : Option Nat :=
  match s.todo with
  | .callback :: _ =>
    match s.callbacks with
    | .check_door_bell :: _ =>
      if env.DoorBell = 1 ∧ env.Qindex ≠ 0 ∧ completesAtOnce c env s then
        some (ioCqid s.driver env)
      else none
    | .recycle_control_command :: _ => s.isp.ctrl_cmd_req.map Req.cqid
    | [] => none
  | .msg_out :: _ =>
    match s.isp.msg_out_q with
    | .host_dma _ :: _ | .execution_exit :: _ => s.isp.ctrl_cmd_req.map Req.cqid
    | _ => none
  | .read_dma req :: _ | .write_dma req :: _ => if s.dma.isSome then none else some req.cqid
  | _ => none

/-- The commands whose handler neither completes nor stores them: an I/O opcode without
a handler, and an Identify of an unknown structure. -/
def unanswered (env : Env) : Bool :=
  if env.Qindex = 0 then env.scmd.opcode.toNat == 0x06 && env.scmd.cns == 3
  else env.scmd.opcode.toNat ∉ [0x00, 0x01, 0x02, 0x80, 0x81, 0x82]

/-- The request of the I/O command that `env` has at the head of its queue. -/
structure IoAsk (d : Driver) (env : Env) (req : Req) : Prop where
  uid : req.uid = d.fetched.length
  cqid : req.cqid = ioCqid d env
  cid : req.scmd.cid = env.scmd.cid
  status : req.status = 0
  qindex : env.Qindex ≠ 0
  sqid : req.sqid = env.Qindex

/-- The request of a READ or WRITE, with what the decoder left in its descriptor. -/
structure RwAsk (d : Driver) (env : Env) (req : Req) : Prop extends IoAsk d env req where
  accepted : verify_rw_param c env.scmd = true
  slba : req.scmd.slba = env.scmd.slba
  nlbs : req.scmd.nlbs = env.scmd.nlbs
  decoded : ∃ (old : Dma) (ok : Bool),
    old.data_size = (env.scmd.nlbs + 1) * c.pageBytes % 2 ^ 32 ∧
    decode_prp c.hostPageBits env.mem env.scmd.prp1.toNat env.scmd.prp2.toNat old =
      some (req.dma, ok)

/-- A step of the NVMe thread from the state `s`: the stages and the books after it. -/
inductive NvmeMove (env : Env) (s : State) : Stage → Stage → Books → Prop
  | quiet {st} : NvmeMove env s st st s.books
  | shutdown {ftl flash} (hshn : env.shn = true) :
    NvmeMove env s .polling .polling { s.books with ftl := { s.ftl with ftl, flash } }
  | isp_job {st} {program : Bool} {start_lpn num_of_lpn : Nat}
    (hmsg : .nand_op program start_lpn num_of_lpn ∈ s.isp.msg_out_q) :
    NvmeMove env s st st { s.books with ftl :=
      { s.ftl with inq := s.ftl.inq ++ [.isp program start_lpn num_of_lpn] } }
  | unanswered (hf : fetches env s = true) (h : unanswered env = true) :
    NvmeMove env s .polling .polling
      { s.books with fetched := s.driver.fetched ++ [fetchOf s.driver env] }
  | admin {req : Req} (hf : fetches env s = true) (hq : env.Qindex = 0)
    (huid : req.uid = s.driver.fetched.length) (hcid : req.scmd.cid = env.scmd.cid)
    (hcq : req.cqid = 0) :
    NvmeMove env s .polling .polling
      { s.books with
        fetched := s.driver.fetched ++ [fetchOf s.driver env]
        enqueued := s.driver.enqueued ++ [(0, req)] }
  | answered {req} (hf : fetches env s = true) (hto : completesTo c env s = some req.cqid)
    (hask : IoAsk s.driver env req) :
    NvmeMove env s .polling .polling
      { s.books with
        fetched := s.driver.fetched ++ [fetchOf s.driver env]
        enqueued := s.driver.enqueuedAfter req.cqid req }
  | rejected {req} (hf : fetches env s = true) (hto : completesTo c env s = some req.cqid)
    (hask : IoAsk s.driver env req)
    (hrw : (fetchOf s.driver env).isRead || (fetchOf s.driver env).isWrite)
    (hbad : verify_rw_param c env.scmd = false) :
    NvmeMove env s .polling .stopped
      { s.books with
        fetched := s.driver.fetched ++ [fetchOf s.driver env]
        enqueued := s.driver.enqueuedAfter req.cqid req }
  | stored {req} (hf : fetches env s = true) (hask : IoAsk s.driver env req)
    (hnone : s.isp.ctrl_cmd_req = none) :
    NvmeMove env s .polling .polling
      { s.books with
        fetched := s.driver.fetched ++ [fetchOf s.driver env]
        ctrl_cmd_req := some req }
  | recycled {req} {dw0 : Nat} (hctrl : s.isp.ctrl_cmd_req = some req)
    (hto : completesTo c env s = some req.cqid) :
    NvmeMove env s .polling .polling
      { s.books with
        ctrl_cmd_req := none
        enqueued := s.driver.enqueuedAfter req.cqid { req with ccmd_dw0 := dw0 } }
  | write {req} (hf : fetches env s = true) (hask : RwAsk c s.driver env req)
    (hop : (fetchOf s.driver env).isWrite = true) :
    NvmeMove env s .polling (.receiving req)
      { s.books with
        fetched := s.driver.fetched ++ [fetchOf s.driver env]
        wbc := ⟨req.scmd.nlbs + 1, State.wbcPages c req s.buf.wbc.pages⟩
        dma := some ⟨req, false, 0, 0⟩ }
  | read {req} (hf : fetches env s = true) (hask : RwAsk c s.driver env req)
    (hop : (fetchOf s.driver env).isRead = true) :
    NvmeMove env s .polling (.loading req)
      { s.books with
        fetched := s.driver.fetched ++ [fetchOf s.driver env]
        ftl := { s.ftl with inq := s.ftl.inq ++ [.read req] } }
  | received {req} (hdma : s.dma = none) (hto : completesTo c env s = some req.cqid) :
    NvmeMove env s (.receiving req) (.programming req)
      { s.books with
        enqueued := s.driver.enqueuedAfter req.cqid req
        ftl := { s.ftl with inq := s.ftl.inq ++ [.flush] } }
  | programmed {req rest} (hout : s.ftl.outq = .flush :: rest) :
    NvmeMove env s (.programming req) .resuming
      { s.books with
        wbc := { s.buf.wbc with pages := fun i => { s.buf.wbc.pages i with valid := false } }
        ftl := { s.ftl with outq := rest } }
  | loaded {req rest} (hout : s.ftl.outq = .read req :: rest) :
    NvmeMove env s (.loading req) (.sending req)
      { s.books with dma := some ⟨req, true, 0, 0⟩, ftl := { s.ftl with outq := rest } }
  | sent {req} (hdma : s.dma = none) (hto : completesTo c env s = some req.cqid) :
    NvmeMove env s (.sending req) .resuming
      { s.books with enqueued := s.driver.enqueuedAfter req.cqid req }
  | resumed : NvmeMove env s .resuming .polling s.books

end S4Sim
