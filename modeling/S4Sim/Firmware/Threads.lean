-- The steps of the threads, from nvme_driver.c, isp.c, host_dma.c,
-- buffer_mgt_1wbc-r.c, equal.pages.c and issd_kernel.c. A step runs up to the next
-- point where its thread waits or where another thread can see it. `none` is a
-- step with no defined outcome: a null pointer, an index outside its array, or a
-- modulus of 0.
import S4Sim.Firmware.State
import S4Sim.Lib.Window

open Windows

namespace S4Sim

variable (c : Config)

namespace State

variable (s : State)

/-! ## Queues between the threads -/

def sys_push_to_ftl (job : FtlJob) : State :=
  { s with ftl := { s.ftl with inq := s.ftl.inq ++ [job] } }

def sys_add_callback_ftn (f : Callback) : State := { s with callbacks := s.callbacks ++ [f] }

/-- `enqueue_io_ccmd`. The NVMe thread waits for the posting; no other thread reads
what it changes. -/
def enqueue_io_ccmd (cqid : Nat) (req : Req) : Option State :=
  (s.driver.enqueue_io_ccmd cqid req).map fun driver => { s with driver }

/-! ## The page buffer -/

/-- `get_read_io_buffer` when the buffer is free. -/
def get_read_io_buffer : State := { s with buf := { s.buf with page_buffer_inuse := true } }

/-- The entries of the write back cache that the loop of `get_write_io_buffer` fills. -/
def wbcPages (req : Req) (pages : Nat → WbcPage) (i : Nat) : WbcPage :=
  if i ≤ req.scmd.nlbs then
    ⟨(req.scmd.slba + i) % 2 ^ 32, i * c.pageBytes, true⟩
  else pages i

/-- `get_write_io_buffer` when the buffer is free. -/
def get_write_io_buffer (req : Req) : State :=
  { s with buf := { s.buf with
      page_buffer_inuse := true
      wbc := ⟨req.scmd.nlbs + 1, wbcPages c req s.buf.wbc.pages⟩ } }

def free_read_io_buffer : State := { s with buf := { s.buf with page_buffer_inuse := false } }

/-- `free_write_io_buffer`: the buffer stays in use until the FTL has programmed it. -/
def free_write_io_buffer : State := s.sys_push_to_ftl .flush

def free_wbc_buffer : State :=
  { s with buf := { s.buf with
      page_buffer_inuse := false
      wbc := { s.buf.wbc with pages := fun i => { s.buf.wbc.pages i with valid := false } } } }

end State

/-! ## READ and WRITE -/

/-- The loop of `process_read_ios_step_2` over the requests that wait. -/
def read_ios_step_2 : List Req → State → State
  | [], s => { s with buf := { s.buf with r_buf_q := [] } }
  | req :: rest, s =>
    if s.buf.page_buffer_inuse then { s with buf := { s.buf with r_buf_q := req :: rest } }
    else read_ios_step_2 rest (s.get_read_io_buffer.sys_push_to_ftl (.read req))

def process_read_ios_step_2 (s : State) : State := read_ios_step_2 s.buf.r_buf_q s

/-- One turn of the loop of `process_write_ios_step_2`, up to the wait of
`sync_write_io_dma`. -/
def process_write_ios_step_2 (s : State) : State :=
  match s.buf.w_buf_q with
  | [] => s
  | req :: rest =>
    if s.buf.page_buffer_inuse then s
    else
      let s := s.get_write_io_buffer c req
      { s with
        buf := { s.buf with w_buf_q := rest }
        dma := some ⟨req, false, 0, 0⟩
        todo := .write_dma req :: s.todo }

/-- `verify_rw_param`: whether it returns 0. -/
def verify_rw_param (scmd : NvmeSCmd) : Bool :=
  if scmd.nsid.toNat > NUM_NS then false
  else if (scmd.slba + scmd.nlbs) % 2 ^ 64 > c.nsze then false
  else if MDTS_PAGES ≤ scmd.nlbs then false
  else true

/-- The request of a READ, WRITE or FLUSH before its own fields of the entry are
copied. `none`: the completion queue id of the submission queue is outside `cqs`. -/
def ioRequest (d : Driver) (sqid : Nat) (obj : Req) : Option Req :=
  let cqid := (d.sqs sqid).cqid
  if cqid > MAX_IO_SQCQ_PAIRS then none
  else
    some { obj with
      uid := d.fetched.length, sqid, cqid := (d.cqs cqid).cqid, sqe := (d.sqs sqid).head,
      status := 0 }

/-- `dma.data_size` and the PRP decoding of a READ or WRITE. The result of
`decode_prp` is not looked at. -/
def decodeRw (env : Env) (req : Req) : Option Req :=
  (decode_prp c.hostPageBits env.mem req.scmd.prp1.toNat req.scmd.prp2.toNat
    { req.dma with data_size := (req.scmd.nlbs + 1) * c.pageBytes % 2 ^ 32 }).map
      fun (dma, _) => { req with dma }

/-- `res1` is not copied from the entry. -/
def copyScmd (scmd : NvmeSCmd) (req : Req) : Req :=
  { req with scmd := { scmd with res1 := req.scmd.res1 } }

/-- A command that `verify_rw_param` rejects is completed with status 0. -/
def process_read_io (env : Env) (req : Req) (s : State) : Option State :=
  let req := copyScmd env.scmd req
  if verify_rw_param c env.scmd then
    (decodeRw c env req).map fun req =>
      process_read_ios_step_2 { s with buf := { s.buf with r_buf_q := s.buf.r_buf_q ++ [req] } }
  else s.enqueue_io_ccmd req.cqid req

def process_write_io (env : Env) (req : Req) (s : State) : Option State :=
  let req := copyScmd env.scmd req
  if verify_rw_param c env.scmd then
    (decodeRw c env req).map fun req =>
      process_write_ios_step_2 c { s with buf := { s.buf with w_buf_q := s.buf.w_buf_q ++ [req] } }
  else s.enqueue_io_ccmd req.cqid req

/-! ## FLUSH and the opcodes without a handler -/

/-- Only the first two dwords of the entry are copied. -/
def process_flush_io (env : Env) (req : Req) (s : State) : Option State :=
  let req := { req with scmd := { req.scmd with
    opcode := env.scmd.opcode, cid := env.scmd.cid, nsid := env.scmd.nsid } }
  (s.enqueue_io_ccmd req.cqid req).map fun s => s.sys_add_callback_ftn .check_door_bell

/-- No completion is posted: "TODO : post the ccmd". -/
def unknown_io_cmd (s : State) : State := s.sys_add_callback_ftn .check_door_bell

/-! ## ISP commands -/

def ISP_APPLET_ABR_MSG_RC : Nat := 0x102

/-- The DMA of an ISP command, whose decoding result is not looked at. -/
def ispDma (env : Env) (data_size : Nat) (req : Req) : Option Req :=
  do_sync_dma c.hostPageBits env data_size req

/-- `execute_command`. It frees a stored control command without completing it.
The objects that it takes for the applet are not in the model; `env.obj` is
`none` when one of them is missing. -/
def execute_command (env : Env) (req : Req) (s : State) : Option State :=
  let arg_size := env.scmd.agument_size
  (if arg_size > 24 then ispDma c env arg_size req else some req).bind fun req =>
    let isp := { s.isp with function_exited := false, ctrl_cmd_req := none }
    { s with isp }.enqueue_io_ccmd req.cqid { req with ccmd_dw0 := 1 }

/-- `post_dma_msg` -/
def post_dma_msg (dma_req : IspDma) (req : Req) (s : State) : Option State :=
  { s with isp := { s.isp with active_dma_req := some dma_req } }.enqueue_io_ccmd req.cqid
    { req with ccmd_dw0 := dma_req.request_code }

/-- `control_command`. A control command that is already stored is overwritten. -/
def control_command (req : Req) (s : State) : Option State :=
  if s.isp.function_exited then s.enqueue_io_ccmd req.cqid { req with ccmd_dw0 := 0 }
  else
    match s.isp.pending_dma with
    | dma_req :: rest =>
      post_dma_msg dma_req req { s with isp := { s.isp with pending_dma := rest } }
    | [] =>
      let s := { s with isp := { s.isp with ctrl_cmd_req := some req } }
      some (s.sys_add_callback_ftn .recycle_control_command)

/-- `recycle_control_command` -/
def recycle_control_command (s : State) : Option State :=
  match s.isp.ctrl_cmd_req with
  | none => some s
  | some req =>
    let s := { s with isp := { s.isp with ctrl_cmd_req := none } }
    match s.isp.pending_dma with
    | dma_req :: rest =>
      post_dma_msg dma_req req { s with isp := { s.isp with pending_dma := rest } }
    | [] =>
      if s.isp.function_exited then s.enqueue_io_ccmd req.cqid { req with ccmd_dw0 := 0 }
      else s.enqueue_io_ccmd req.cqid { req with ccmd_dw0 := ISP_APPLET_ABR_MSG_RC }

/-- `data_transfer_command`. `none`: no applet request is active. -/
def data_transfer_command (env : Env) (req : Req) (s : State) : Option State :=
  s.isp.active_dma_req.bind fun _ =>
    (ispDma c env env.scmd.cdw11.toNat req).bind fun req => s.enqueue_io_ccmd req.cqid req

/-- `process_isp_io`, with `setup_io_req` and `isp_io`. -/
def process_isp_io (env : Env) (req : Req) (s : State) : Option State :=
  let req := { req with scmd := { req.scmd with
    cid := env.scmd.cid, nsid := env.scmd.nsid, prp1 := env.scmd.prp1, prp2 := env.scmd.prp2 } }
  (match env.scmd.opcode.toNat with
    | 0x80 => execute_command c env req s
    | 0x81 => control_command req s
    | _ => data_transfer_command c env req s).map fun (s : State) =>
      s.sys_add_callback_ftn .check_door_bell

/-- `msg_cbk` -/
def msg_cbk (s : State) : IspMsg → Option State
  | .host_dma dma_req =>
    match s.isp.ctrl_cmd_req with
    | none => some s
    | some req => post_dma_msg dma_req req { s with isp := { s.isp with ctrl_cmd_req := none } }
  | .nand_op program start_lpn num_of_lpn =>
    some (s.sys_push_to_ftl (.isp program start_lpn num_of_lpn))
  | .execution_exit =>
    match s.isp.ctrl_cmd_req with
    | none => some s
    | some req =>
      { s with isp := { s.isp with ctrl_cmd_req := none } }.enqueue_io_ccmd req.cqid
        { req with ccmd_dw0 := 0 }

/-! ## The NVMe thread -/

/-- `process_io_cmd`. An opcode without a handler takes no request object. -/
def process_io_cmd (env : Env) (sqid : Nat) (s : State) : Option State :=
  let request := env.obj.bind (ioRequest s.driver sqid)
  (s.driver.read_scmd sqid env.scmd env.mem).bind fun driver =>
    let s := { s with driver }
    match env.scmd.opcode.toNat with
    | 0x02 => request.bind fun req => process_read_io c env req s
    | 0x01 => request.bind fun req => process_write_io c env req s
    | 0x00 => request.bind fun req => process_flush_io env req s
    | 0x80 | 0x81 | 0x82 => request.bind fun req => process_isp_io c env req s
    | _ => some (unknown_io_cmd s)

/-- The saved pages are in the flash after `store_mapping_tables`, whose operation objects are
taken as fresh. -/
def programAll (flash : Ppa → Nat → UInt8) (ftl : Ftl) : Ppa → Nat → UInt8 :=
  (store_programs c.g ftl).foldl (fun f p => Function.update f p.1 (c.image ftl p.2)) flash

/-- The idle branch of `check_door_bell`. A store that finds no free page does not
return: the thread stays in it. -/
def idle_poll (env : Env) (s : State) : Option State :=
  let s' := s.sys_add_callback_ftn .check_door_bell
  if s.idleTimeCounter + 1 ≥ 10000 then
    (s'.driver.retry_io_ccmds).map fun driver =>
      let s' := { s' with idleTimeCounter := 0, driver }
      if env.shn then
        match store_mapping_tables c.g s'.ftl.ftl with
        | none =>
          { s with callbacks := .check_door_bell :: s.callbacks, todo := .callback :: s.todo }
        | some ftl => { s' with ftl := { s'.ftl with ftl, flash := programAll c s'.ftl.flash ftl } }
      else s'
  else some { s' with idleTimeCounter := s.idleTimeCounter + 1 }

/-- `check_door_bell` -/
def check_door_bell (env : Env) (s : State) : Option State :=
  if env.DoorBell = 1 then
    (s.driver.sq_door_bell env.Qindex env.db_value).bind fun driver =>
      if env.Qindex ≠ 0 then process_io_cmd c env env.Qindex { s with driver }
      else
        (process_admin_cmd c.hostPageBits env driver).map fun driver =>
          { s with driver }.sys_add_callback_ftn .check_door_bell
  else if env.DoorBell = 2 then
    (s.driver.cq_door_bell env.Qindex env.db_value).map fun driver =>
      { s with driver }.sys_add_callback_ftn .check_door_bell
  else idle_poll c env s

/-- `completed_req_cbk`, up to its first wait. -/
def completed_req_cbk (s : State) : FtlJob → State
  | .read req =>
    { s with
      dma := some ⟨req, true, 0, 0⟩
      todo := [.read_dma req, .read_ios_step_2, .write_ios_step_2, .add_check_door_bell] ++ s.todo }
  | .flush =>
    let s := s.free_wbc_buffer
    { s with todo := [.write_ios_step_2, .read_ios_step_2, .add_check_door_bell] ++ s.todo }
  | .isp .. => s

/-- One task of the NVMe thread, which is no longer in `todo`. -/
def runTask (env : Env) (s : State) : Task → Option State
  | .callback =>
    match s.callbacks with
    | [] => some s
    | .check_door_bell :: rest => check_door_bell c env { s with callbacks := rest }
    | .recycle_control_command :: rest => recycle_control_command { s with callbacks := rest }
  | .msg_out =>
    match s.isp.msg_out_q with
    | [] => some s
    | msg :: rest => msg_cbk { s with isp := { s.isp with msg_out_q := rest } } msg
  | .ftl_out =>
    match s.ftl.outq with
    | [] => some s
    | job :: rest => some (completed_req_cbk { s with ftl := { s.ftl with outq := rest } } job)
  | .read_ios_step_2 => some (process_read_ios_step_2 s)
  | .write_ios_step_2 => some (process_write_ios_step_2 c s)
  | .read_dma req =>
    if s.dma.isSome then some { s with todo := .read_dma req :: s.todo }
    else s.free_read_io_buffer.enqueue_io_ccmd req.cqid req
  | .write_dma req =>
    if s.dma.isSome then some { s with todo := .write_dma req :: s.todo }
    else
      { s.free_write_io_buffer with todo := .write_ios_step_2 :: s.todo }.enqueue_io_ccmd
        req.cqid req
  | .add_check_door_bell => some (s.sys_add_callback_ftn .check_door_bell)

/-- A step of the NVMe thread: its next task, or the next round of `run_thread`. -/
def nvmeStep (env : Env) (s : State) : Option State :=
  match s.todo with
  | [] => some { s with todo := [.callback, .msg_out, .ftl_out] }
  | task :: rest => runTask c env { s with todo := rest } task

/-! ## The FTL thread -/

namespace State

variable (s : State)

def setPageBuffer (page_buffer : Nat → UInt8) : State :=
  { s with buf := { s.buf with page_buffer } }

def setPc (pc : FtlPc) : State := { s with ftl := { s.ftl with pc } }

end State

/-- One turn of the loop of `ftl_process_read_io`. `none`: the LPN is outside `lpa_table`. -/
def ftl_process_read_io (req : Req) (lpn_index : Nat) (rop : List NandOp) (s : State) :
    Option State :=
  if lpn_index ≤ req.scmd.nlbs then
    let lpn := (req.scmd.slba + lpn_index) % 2 ^ 32
    let dst := lpn_index * c.pageBytes
    if lpn < c.g.total_num_of_pages then
      if s.ftl.ftl.is_unmapped_lpa lpn then
        some ((s.setPageBuffer (writeWindow s.buf.page_buffer dst c.pageBytes fun _ => 0)).setPc
          (.looping (.read req) (lpn_index + 1) rop))
      else
        some (s.setPc (.looping (.read req) (lpn_index + 1)
          (rop ++ [⟨s.ftl.ftl.lpa_table lpn, false, some dst⟩])))
    else none
  else some (s.setPc (.waiting (.read req) rop))

/-- The FTL maps a page, or spins on a device with no free page. -/
def mapPage (s : State) (lpn : Nat) (next : Ppa → FtlPc) : Option State :=
  if lpn < c.g.total_num_of_pages then
    match make_new_mapping c.g s.ftl.ftl lpn with
    | none => some s
    | some (new_ppa, ftl) => some { s with ftl := { s.ftl with ftl, pc := next new_ppa } }
  else none

/-- One turn of the loop of `process_wbc`. The local counter that the loop compares
with `num_program_pgs` stays 0. The operation object `pop` is taken as fresh;
Firmware/OperationObjects.lean has the pools of the objects. -/
def process_wbc (icache : Nat) (pop : List NandOp) (s : State) : Option State :=
  if icache < WBC_PAGES ∧ 0 < s.buf.wbc.num_program_pgs then
    let page := s.buf.wbc.pages icache
    if page.valid then
      mapPage c s page.lpn fun new_ppa =>
        .looping .flush (icache + 1) (pop ++ [⟨new_ppa, true, some page.ssd_addr⟩])
    else some (s.setPc (.looping .flush (icache + 1) pop))
  else some (s.setPc (.waiting .flush pop))

/-- One turn of the loop of `__sync_read_pages` or `__sync_program_pages`. -/
def sync_isp_pages (program : Bool) (start_lpn num_of_lpn lpn_index : Nat) (ops : List NandOp)
    (s : State) : Option State :=
  let job := FtlJob.isp program start_lpn num_of_lpn
  if lpn_index < num_of_lpn then
    let lpn := (start_lpn + lpn_index) % 2 ^ 32
    if program then
      mapPage c s lpn fun new_ppa => .looping job (lpn_index + 1) (ops ++ [⟨new_ppa, true, none⟩])
    else if lpn < c.g.total_num_of_pages then
      if s.ftl.ftl.is_unmapped_lpa lpn then some (s.setPc (.looping job (lpn_index + 1) ops))
      else
        some (s.setPc (.looping job (lpn_index + 1)
          (ops ++ [⟨s.ftl.ftl.lpa_table lpn, false, none⟩])))
    else none
  else some (s.setPc (.waiting job ops))

/-- One page of a flash operation. `applet` is what the buffer of an applet holds. -/
def nandOp (applet : Nat → UInt8) (op : NandOp) (s : State) : State :=
  if op.program then
    let bytes := match op.ssd_addr with
      | some offset => fun i => s.buf.page_buffer (offset + i)
      | none => applet
    { s with ftl := { s.ftl with flash := Function.update s.ftl.flash op.ppa bytes } }
  else
    match op.ssd_addr with
    | some offset =>
      s.setPageBuffer (writeWindow s.buf.page_buffer offset c.pageBytes (s.ftl.flash op.ppa))
    | none => s

/-- `sync_end_read_op` or `sync_end_program_op` has returned. -/
def endJob (job : FtlJob) (s : State) : State :=
  match job with
  | .isp .. => s.setPc .idle
  | job => { s with ftl := { s.ftl with pc := .idle, outq := s.ftl.outq ++ [job] } }

/-- A step of the FTL thread. The pages of a flash operation end in any order:
`pick` is the one that ends next. -/
def ftlThreadStep (pick : Nat) (applet : Nat → UInt8) (s : State) : Option State :=
  match s.ftl.pc with
  | .idle =>
    match s.ftl.inq with
    | [] => some s
    | job :: rest => some { s with ftl := { s.ftl with inq := rest, pc := .looping job 0 [] } }
  | .looping (.read req) i ops => ftl_process_read_io c req i ops s
  | .looping .flush i ops => process_wbc c i ops s
  | .looping (.isp program start_lpn num_of_lpn) i ops =>
    sync_isp_pages c program start_lpn num_of_lpn i ops s
  | .waiting job [] => some (endJob job s)
  | .waiting job (op :: ops) =>
    let k := pick % (op :: ops).length
    some ((nandOp c applet ((op :: ops).getD k op) s).setPc (.waiting job ((op :: ops).eraseIdx k)))

/-! ## The DMA thread -/

/-- One turn of the loop of `do_sync_rw_io_dma_operation`, with the host memory at
that moment. After the last segment the wait of the NVMe thread ends. -/
def dmaThreadStep (mem : Mem) (s : State) : State :=
  match s.dma with
  | none => s
  | some job =>
    if job.ix < job.req.dma.n_ops then
      let e := job.req.dma.list job.ix
      let bytes := if job.toHost then fun i => s.buf.page_buffer (job.offset + i)
        else fun i => mem (e.host_p_addr + i)
      let page_buffer := if job.toHost then s.buf.page_buffer
        else writeWindow s.buf.page_buffer job.offset e.len bytes
      let t : Transfer := ⟨job.req.uid, job.toHost, e.host_p_addr, window bytes 0 e.len⟩
      { s with
        buf := { s.buf with page_buffer }
        driver := { s.driver with transfers := s.driver.transfers ++ [t] }
        dma := some { job with ix := job.ix + 1, offset := job.offset + e.len } }
    else { s with dma := none }

/-! ## Runs of the firmware -/

/-- The steps of the NVMe, DMA and FTL threads, and what an applet does on the
ISP thread: it exits, asks for a transfer, or asks for a flash operation. The
code of the applet is outside, so these can come at any time. An exit and a
request have two writes each, and the last three are single writes: the other
threads can come in between. -/
inductive Action
  | nvme (env : Env)
  | dma (mem : Mem)
  | ftl (pick : Nat) (applet : Nat → UInt8)
  | isp_exit
  | isp_host_dma (dma_req : IspDma)
  | isp_nand_op (program : Bool) (start_lpn num_of_lpn : Nat)
  | isp_function_exited
  | isp_pending_dma (dma_req : IspDma)
  | isp_msg_out (msg : IspMsg)

/-- The entries of `pending_dma_req_queue`. -/
def PENDING_DMA_QUEUE_SIZE : Nat := 8

/-- `enQueue` on `pending_dma`: the ring keeps one entry free. -/
def Isp.enqueuePending (isp : Isp) (dma_req : IspDma) : List IspDma :=
  if isp.pending_dma.length + 1 < PENDING_DMA_QUEUE_SIZE then isp.pending_dma ++ [dma_req]
  else isp.pending_dma

def fwStep (s : State) : Action → Option State
  | .nvme env => nvmeStep c env s
  | .dma mem => some (dmaThreadStep mem s)
  | .ftl pick applet => ftlThreadStep c pick applet s
  | .isp_exit =>
    some { s with isp := { s.isp with
      function_exited := true, msg_out_q := s.isp.msg_out_q ++ [.execution_exit] } }
  | .isp_host_dma dma_req =>
    some { s with isp := { s.isp with
      pending_dma := s.isp.enqueuePending dma_req
      msg_out_q := s.isp.msg_out_q ++ [.host_dma dma_req] } }
  | .isp_nand_op program start_lpn num_of_lpn =>
    some { s with isp := { s.isp with
      msg_out_q := s.isp.msg_out_q ++ [.nand_op program start_lpn num_of_lpn] } }
  | .isp_function_exited => some { s with isp := { s.isp with function_exited := true } }
  | .isp_pending_dma dma_req =>
    some { s with isp := { s.isp with pending_dma := s.isp.enqueuePending dma_req } }
  | .isp_msg_out msg =>
    some { s with isp := { s.isp with msg_out_q := s.isp.msg_out_q ++ [msg] } }

end S4Sim
