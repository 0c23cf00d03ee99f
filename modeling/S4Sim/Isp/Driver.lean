-- The steps of the ISP driver, from isp.c, issd_kernel_mem_alloc.c and nvme_driver.c. The
-- NVMe thread and the applet thread have a CPU each. A step runs up to the next point
-- where its thread waits or where the other thread can see it. `none` is a step with no
-- defined outcome: a null pointer, an empty pool, or a write outside a buffer.
import S4Sim.Firmware.MessageQueue
import S4Sim.Isp.Types

open Windows

namespace S4Sim

/-- `__push_obj_to_queue`: a full queue loses the message. -/
def pushMsg (q : List MsgOut) (m : MsgOut) : List MsgOut :=
  if q.length + 1 < MSG_Q_SIZE then q ++ [m] else q

/-- `enQueue` on a ring of `PENDING_DMA_QUEUE_SIZE` entries. -/
def enQueue (q : List Nat) (x : Nat) : Option (List Nat) :=
  if q.length + 1 < PENDING_DMA_QUEUE_SIZE then some (q ++ [x]) else none

namespace AppletPc

/-- The object that the applet has taken from `cmplt_dma`. -/
def object : AppletPc → Option Nat
  | dequeued x _ _ | filled x _ | queued x _ | waiting x _ | completed x _ => some x
  | _ => none

/-- The object of the request that the applet has made and not yet returned. -/
def request : AppletPc → Option Nat
  | filled x _ | queued x _ | waiting x _ | completed x _ => some x
  | _ => none

end AppletPc

namespace IspState

variable (s : IspState)

/-! ## The pool -/

def writeObj (x : Nat) (obj : HostDma) : IspState :=
  { s with objs := Function.update s.objs x obj }

def setStage (x : Nat) (req_stage : ReqStage) : IspState :=
  s.writeObj x { s.objs x with req_stage }

def sys_malloc_req_obj : Option (Nat × IspState) :=
  match s.free_req_objs with
  | [] => none
  | x :: rest => some (x, { s with free_req_objs := rest }.setStage x .REQ_STAGE_INUSE)

def sys_free_req_obj (x : Nat) : IspState :=
  { s with free_req_objs := s.free_req_objs ++ [x] }.setStage x .REQ_STAGE_FREE

/-- `enqueue_io_ccmd`: from here on the object belongs to the posting of completions. -/
def enqueue_io_ccmd (req ccmd_dw0 : Nat) : IspState :=
  { s with others := s.others ++ [req], completions := s.completions ++ [⟨req, ccmd_dw0, 0⟩] }

/-! ## execute_command -/

/-- A stored control command is freed without a completion. -/
def freeControl : IspState :=
  match s.ctrl_cmd_req with
  | none => s
  | some ctrl => { s with ctrl_cmd_req := none }.sys_free_req_obj ctrl

/-- The first writes of `execute_command`. -/
def execute_command (req : Nat) (cmd : IspCommand) : IspState :=
  { s with
    ftn_id := cmd.scmd.ftn_id.toNat
    arg_size := cmd.scmd.agument_size.toNat
    function_exited := false
    nvme := .execute_objects req cmd }.freeControl

/-- The loop that empties `cmplt_dma`. -/
def freeCompleted : IspState :=
  s.cmplt_dma.foldl sys_free_req_obj { s with cmplt_dma := [] }

/-- `n` turns of the loop that fills `cmplt_dma`. An object that finds no room is freed. -/
def addCompleted : Nat → IspState → Option IspState
  | 0, s => some s
  | n + 1, s => s.sys_malloc_req_obj.bind fun (x, s) =>
    addCompleted n (match enQueue s.cmplt_dma x with
      | some cmplt_dma => { s with cmplt_dma }
      | none => s.sys_free_req_obj x)

def freeNandOp : IspState :=
  match s.sync_nand_op_req with
  | none => s
  | some op => s.sys_free_req_obj op

/-- The objects that the next function will use. -/
def execute_objects (req : Nat) (cmd : IspCommand) : Option IspState :=
  (addCompleted PENDING_DMA_QUEUE_SIZE s.freeCompleted).bind fun s =>
    s.freeNandOp.sys_malloc_req_obj.map fun (op, s) =>
      { s with sync_nand_op_req := some op, nvme := .execute_arguments req cmd }

/-- What `execute_command` copies from the entry. -/
def copiedArg (arg : ScmdArg) : ScmdArg :=
  { arg with cdw11 := arg.cdw12 }

/-- The arguments: a transfer from the host, or the copy from the entry. -/
def execute_arguments (c : Config) (req : Nat) (cmd : IspCommand) : Option IspState :=
  if s.arg_size > 24 then
    (commandWindows c.hostPageBits cmd 0 s.arg_size).map fun ws =>
      { s with nvme := .execute_transfer req cmd ws }
  else
    some { s with
      arg_buffer := writeWindow s.arg_buffer 0 24 fun i =>
        (copiedArg cmd.scmd.scmdarg).bytes.getD i 0
      nvme := .execute_message req cmd }

/-- `MAX_TX_SIZE`, the size of `arg_buffer`. -/
def MAX_TX_SIZE (c : Config) : Nat := MDTS_PAGES * c.pageBytes

def execute_transfer (c : Config) (req : Nat) (cmd : IspCommand) (ws : List DmaWindow) :
    Option IspState :=
  if ws.all fun w => w.ssd_addr + w.len ≤ MAX_TX_SIZE c then
    some { s with
      arg_buffer := readHost cmd.mem s.arg_buffer ws, nvme := .execute_message req cmd }
  else none

def execute_message (req : Nat) (cmd : IspCommand) : IspState :=
  { s with
    msg_in_q := if s.msg_in_q + 1 < MSG_Q_SIZE then s.msg_in_q + 1 else s.msg_in_q
    nvme := .execute_post req cmd }

def execute_post (req : Nat) (cmd : IspCommand) : IspState :=
  { s with nvme := .free, executed := s.executed ++ [cmd] }.enqueue_io_ccmd req 1

/-! ## Control commands -/

/-- How the driver sees a request when it announces it. -/
def announcement (dma_req : Nat) : Announcement :=
  ⟨s.requestOf dma_req, (s.objs dma_req).request_code, (s.objs dma_req).req_stage,
    s.applet.request == some dma_req⟩

/-- `post_dma_msg` -/
def post_dma_msg (dma_req req : Nat) : IspState :=
  { s with
    active_dma_req := some dma_req
    announced := s.announced ++ [s.announcement dma_req] }.enqueue_io_ccmd req
      (s.objs dma_req).request_code

/-- `control_command` up to its look at `pending_dma`. -/
def control_command (req : Nat) : IspState :=
  if s.function_exited then s.enqueue_io_ccmd req 0
  else { s with nvme := .control_pending req }

/-- The rest of `control_command`. A control command that is already stored is overwritten. -/
def control_pending (req : Nat) : IspState :=
  match s.pending_dma with
  | dma_req :: rest => { s with pending_dma := rest, nvme := .free }.post_dma_msg dma_req req
  | [] => { s with ctrl_cmd_req := some req, recycles := s.recycles + 1, nvme := .free }

/-- `recycle_control_command` up to its look at `function_exited`. -/
def recycle_control_command : IspState :=
  match s.ctrl_cmd_req with
  | none => s
  | some req =>
    match s.pending_dma with
    | dma_req :: rest =>
      { s with pending_dma := rest, ctrl_cmd_req := none }.post_dma_msg dma_req req
    | [] => { s with nvme := .recycle_exited }

def recycle_exited : Option IspState :=
  s.ctrl_cmd_req.map fun req =>
    { s with ctrl_cmd_req := none, nvme := .free }.enqueue_io_ccmd req
      (if s.function_exited then 0 else ISP_APPLET_ABR_MSG_RC)

/-! ## Data transfer commands -/

/-- The request that the applet has made and that is not complete. -/
def liveRequest : Option HostDma :=
  s.applet.request.bind fun x =>
    if (s.objs x).req_stage = .ISP_HOST_DMA_REQ_CMPT then none else some (s.objs x)

/-- The record of a command that goes through `ws`. Only the two types of an applet
request start a transfer. -/
def dataTransfer (x data_size : Nat) (ws : List DmaWindow) : DataTransfer where
  size := data_size
  live := s.liveRequest
  ws := if (s.objs x).tx_type = ISP_APPLET_READ_DTX ∨ (s.objs x).tx_type = ISP_APPLET_WRITE_DTX
    then ws else []

/-- `data_transfer_command` up to the wait of `sync_host_dma`. `none`: no request was ever
announced, and the slot is still null. -/
def data_transfer_command (c : Config) (req : Nat) (cmd : IspCommand) : Option IspState :=
  s.active_dma_req.bind fun x =>
    let data_size := cmd.scmd.scmdarg.cdw11.toNat
    (commandWindows c.hostPageBits cmd (s.objs x).ssd_addr data_size).map fun ws =>
      { s with
        nvme := .transfer_wait req x cmd.ccmd_dw0 (s.dataTransfer x data_size ws) }.setStage x
          .ISP_HOST_DMA_REQ_TX_ON

def transfer_wait (req dma_req ccmd_dw0 : Nat) (transfer : DataTransfer) : IspState :=
  let o := s.objs dma_req
  let completion : IspCompletion := ⟨req, ccmd_dw0, 0⟩
  { s.writeObj dma_req
      { o with transfered_size := (o.transfered_size + transfer.size) % 2 ^ 32 } with
    nvme := .transfer_complete dma_req
    answered := s.answered ++ [(transfer, completion)] }.enqueue_io_ccmd req ccmd_dw0

/-- The request is complete whether or not all of it was transferred. -/
def transfer_complete (dma_req : Nat) : IspState :=
  { s with nvme := .free }.setStage dma_req .ISP_HOST_DMA_REQ_CMPT

/-! ## Entry of the commands -/

/-- `isp_io` -/
def isp_io (c : Config) (opcode req : Nat) (cmd : IspCommand) : Option IspState :=
  match opcode with
  | 0x80 => some (s.execute_command req cmd)
  | 0x81 => some (s.control_command req)
  | 0x82 => s.data_transfer_command c req cmd
  | _ => some s

/-- `process_isp_io`, with the object that `setup_io_req` takes. `obj` is what an earlier
request left in the object. -/
def process_isp_io (c : Config) (opcode : Nat) (cmd : IspCommand) (obj : HostDma) :
    Option IspState :=
  s.sys_malloc_req_obj.bind fun (req, s) => (s.writeObj req obj).isp_io c opcode req cmd

/-! ## Messages of the applet -/

/-- `msg_cbk` -/
def msg_cbk : MsgOut → Option IspState
  | .host_dma dma_req =>
    if (s.objs dma_req).exec_thrd then
      match s.ctrl_cmd_req with
      | none => some s
      | some req => some ({ s with ctrl_cmd_req := none }.post_dma_msg dma_req req)
    else none
  | .nand_op op => some { s with ftl_in_q := s.ftl_in_q ++ [op] }
  | .execution_exit =>
    match s.ctrl_cmd_req with
    | none => some s
    | some req => some ({ s with ctrl_cmd_req := none }.enqueue_io_ccmd req 0)

/-! ## Download and activation -/

/-- `nvme_fw_download` -/
def nvme_fw_download (c : Config) (num_dwords dword_off : Nat) (cmd : IspCommand) :
    Option IspState :=
  (commandWindows c.hostPageBits cmd (dword_off * 4 % 2 ^ 32)
    ((num_dwords + 1) * 4 % 2 ^ 32)).bind fun ws =>
      if ws.all fun w => w.ssd_addr + w.len ≤ ISP_MAX_APPLET_BIN_SIZE then
        some { s with
          external_code_buffer := readHost cmd.mem s.external_code_buffer ws, checked := false }
      else none

/-- The loop of `add_applet`. Each of its 8 turns compares the first byte. -/
def mis_match (image : Nat → UInt8) : Nat :=
  (List.range 8).foldl (fun n _ => if magic_string.getD 0 0 ≠ image 0 then n + 1 else n) 0

/-- `add_applet`, as `nvme_fw_activate` calls it. A header that does not match stays
installed, and so does one whose initialization fails. -/
def add_applet : IspState :=
  let image := s.external_code_buffer
  if mis_match image ≠ 0 then { s with header := true, checked := false }
  else
    { s with
      header := true
      checked := true
      accepted := s.accepted ++ [image]
      calls := s.calls ++ [⟨initializeFtn image, none, image, true⟩] }

/-! ## The applet thread -/

/-- `thrd_cbk` up to the call, which needs `header`. Without one it reads the memory at
address 0, `low`. -/
def call_function (low : Nat → UInt8) : IspState :=
  let image := if s.header then s.external_code_buffer else low
  { s with
    applet := .running []
    called := s.called ++ [⟨s.ftn_id, s.arg_size, window s.arg_buffer 0 s.arg_size⟩]
    calls := s.calls ++ [⟨entryAddress image s.ftn_id, some s.ftn_id, image, s.header⟩] }

/-- The turns of the loop of `do_sync_host_dma`. -/
def hostDmaChunks (c : Config) (tx_type : Nat) : Nat → (start_mem_page ssd_addr size : Nat) →
    List DmaChunk
  | 0, _, _, _ => []
  | n + 1, start_mem_page, ssd_addr, size =>
    let next_tx_size := min (MAX_TX_SIZE c) size
    ⟨start_mem_page, ssd_addr, next_tx_size, tx_type⟩ ::
      hostDmaChunks c tx_type n (start_mem_page + next_tx_size / 2 ^ c.hostPageBits)
        (ssd_addr + next_tx_size) (size - next_tx_size)

/-- `do_read_host_buffer` and `do_write_host_buffer`, up to the first turn. -/
def do_sync_host_dma (c : Config) (start_mem_page ssd_addr size : Nat) (write : Bool) :
    IspState :=
  let tx_type := if write then ISP_APPLET_WRITE_DTX else ISP_APPLET_READ_DTX
  let num_host_dma_op := size / MAX_TX_SIZE c + if size % MAX_TX_SIZE c = 0 then 0 else 1
  { s with
    applet := .running (hostDmaChunks c tx_type num_host_dma_op start_mem_page ssd_addr size) }

/-- The first step of `_do_sync_host_dma_`. `none`: `cmplt_dma` is empty. -/
def dequeue_dma_req (chunk : DmaChunk) (chunks : List DmaChunk) : Option IspState :=
  match s.cmplt_dma with
  | [] => none
  | x :: rest => some { s with cmplt_dma := rest, applet := .dequeued x chunk chunks }

/-- The fields that `_do_sync_host_dma_` writes into its request. -/
def newRequest (chunk : DmaChunk) : HostDma where
  req_stage := .ISP_HOST_DMA_REQ_INIT
  ssd_addr := chunk.ssd_addr
  start_mem_page := chunk.start_mem_page
  size := chunk.size
  tx_type := chunk.tx_type
  request_code := requestCode chunk.start_mem_page chunk.size chunk.tx_type
  transfered_size := 0
  exec_thrd := true

def fill_dma_req (x : Nat) (chunk : DmaChunk) (chunks : List DmaChunk) : IspState :=
  { s.writeObj x (newRequest chunk) with
    applet := .filled x chunks
    requests := s.requests ++ [newRequest chunk]
    requestOf := Function.update s.requestOf x (some s.requests.length) }

/-- A full `pending_dma` is only reported. -/
def enqueue_dma_req (x : Nat) (chunks : List DmaChunk) : IspState :=
  { s with
    pending_dma := (enQueue s.pending_dma x).getD s.pending_dma
    applet := .queued x chunks }

def push_dma_req (x : Nat) (chunks : List DmaChunk) : IspState :=
  { s with msg_out_q := pushMsg s.msg_out_q (.host_dma x), applet := .waiting x chunks }

def wait_dma_req (x : Nat) (chunks : List DmaChunk) : IspState :=
  if (s.objs x).req_stage = .ISP_HOST_DMA_REQ_CMPT then { s with applet := .completed x chunks }
  else s

/-- The end of `_do_sync_host_dma_`. An object that finds no room is lost. -/
def return_dma_req (x : Nat) (chunks : List DmaChunk) : IspState :=
  { s with
    cmplt_dma := (enQueue s.cmplt_dma x).getD s.cmplt_dma
    applet := .running chunks
    returned := s.returned ++ (s.requestOf x).toList }

/-- The first step of `do_sync_nand_op`. `op` is how its fields look as `isp_host_dma_t`. -/
def do_sync_nand_op (op : HostDma) : Option IspState :=
  s.sync_nand_op_req.map fun x =>
    { s.writeObj x { op with req_stage := .other } with applet := .nand_filled }

def push_nand_op : Option IspState :=
  s.sync_nand_op_req.map fun x =>
    { s with msg_out_q := pushMsg s.msg_out_q (.nand_op x), applet := .nand_waiting }

def wait_nand_op : Option IspState :=
  s.sync_nand_op_req.map fun x =>
    if (s.objs x).req_stage = .ISP_NAND_OP_CMPLT then { s with applet := .running [] } else s

/-- What the applet thread does next where it has no choice. -/
def appletStep : Option IspState :=
  match s.applet with
  | .idle =>
    if s.msg_in_q = 0 then some s
    else some { s with msg_in_q := s.msg_in_q - 1, applet := .starting }
  | .starting | .running [] => some s
  | .running (chunk :: chunks) => s.dequeue_dma_req chunk chunks
  | .dequeued x chunk chunks => some (s.fill_dma_req x chunk chunks)
  | .filled x chunks => some (s.enqueue_dma_req x chunks)
  | .queued x chunks => some (s.push_dma_req x chunks)
  | .waiting x chunks => some (s.wait_dma_req x chunks)
  | .completed x chunks => some (s.return_dma_req x chunks)
  | .nand_filled => s.push_nand_op
  | .nand_waiting => s.wait_nand_op
  | .exited =>
    some { s with msg_out_q := pushMsg s.msg_out_q .execution_exit, applet := .idle }

/-- What the NVMe thread does next inside an ISP function. -/
def nvmeContinue (c : Config) : Option IspState :=
  match s.nvme with
  | .free => some s
  | .execute_objects req cmd => s.execute_objects req cmd
  | .execute_arguments req cmd => s.execute_arguments c req cmd
  | .execute_transfer req cmd ws => s.execute_transfer c req cmd ws
  | .execute_message req cmd => some (s.execute_message req cmd)
  | .execute_post req cmd => some (s.execute_post req cmd)
  | .control_pending req => some (s.control_pending req)
  | .recycle_exited => s.recycle_exited
  | .transfer_wait req x ccmd_dw0 transfer => some (s.transfer_wait req x ccmd_dw0 transfer)
  | .transfer_complete x => some (s.transfer_complete x)

end IspState

/-! ## Runs of the driver -/

/-- What the NVMe thread takes up when it is not inside an ISP function: a command, a
message of the applet, a callback, or work for other requests of the pool. -/
inductive NvmeTask
  | isp_io (opcode : Nat) (cmd : IspCommand) (obj : HostDma)
  | msg_out
  | recycle
  | fw_download (num_dwords dword_off : Nat) (cmd : IspCommand)
  | fw_activate
  | other_malloc (obj : HostDma)
  | other_write (x : Nat) (obj : HostDma)
  | other_free (x : Nat)

/-- The steps of the two threads and the end of a flash operation in the FTL thread. The
code of the applet is outside: what a function asks for, and when it returns, is open. -/
inductive IspAction
  | nvme (task : NvmeTask)
  | nvme_continue
  | applet
  | call (low : Nat → UInt8)
  | host_dma (start_mem_page ssd_addr size : Nat) (write : Bool)
  | nand_op (op : HostDma)
  | return_function
  | ftl

/-- A task of the NVMe thread when it is free. -/
def IspState.take (c : Config) (s : IspState) : NvmeTask → Option IspState
  | .isp_io opcode cmd obj => s.process_isp_io c opcode cmd obj
  | .msg_out =>
    match s.msg_out_q with
    | [] => some s
    | m :: rest => { s with msg_out_q := rest }.msg_cbk m
  | .recycle =>
    if s.recycles = 0 then some s
    else some { s with recycles := s.recycles - 1 }.recycle_control_command
  | .fw_download num_dwords dword_off cmd => s.nvme_fw_download c num_dwords dword_off cmd
  | .fw_activate => some s.add_applet
  | .other_malloc obj =>
    s.sys_malloc_req_obj.map fun (x, s) =>
      { s.writeObj x obj with others := s.others ++ [x] }
  | .other_write x obj =>
    if x ∈ s.others then some (s.writeObj x obj) else some s
  | .other_free x =>
    if x ∈ s.others then some ({ s with others := s.others.erase x }.sys_free_req_obj x)
    else some s

/-- A step that its thread cannot take yet leaves the state. -/
def ispStep (c : Config) (s : IspState) : IspAction → Option IspState
  | .nvme task =>
    match s.nvme with
    | .free => s.take c task
    | _ => some s
  | .nvme_continue => s.nvmeContinue c
  | .applet => s.appletStep
  | .call low =>
    match s.applet with
    | .starting => some (s.call_function low)
    | _ => some s
  | .host_dma start_mem_page ssd_addr size write =>
    match s.applet with
    | .running [] => some (s.do_sync_host_dma c start_mem_page ssd_addr size write)
    | _ => some s
  | .nand_op op =>
    match s.applet with
    | .running [] => s.do_sync_nand_op op
    | _ => some s
  | .return_function =>
    match s.applet with
    | .running [] => some { s with function_exited := true, applet := .exited }
    | _ => some s
  | .ftl =>
    match s.ftl_in_q with
    | [] => some s
    | x :: rest => some ({ s with ftl_in_q := rest }.setStage x .ISP_NAND_OP_CMPLT)

/-- `init_req_obj` and `init_isp_driver` are done. The memory holds anything. -/
def initialIsp (objs : Nat → HostDma) (arg_buffer external_code_buffer : Nat → UInt8) :
    IspState where
  objs := objs
  free_req_objs := List.range (O_SIZE - 1)
  others := []
  ftn_id := 0
  arg_size := 0
  arg_buffer := arg_buffer
  ctrl_cmd_req := none
  sync_nand_op_req := none
  pending_dma := []
  cmplt_dma := []
  active_dma_req := none
  function_exited := true
  msg_in_q := 0
  msg_out_q := []
  recycles := 0
  ftl_in_q := []
  header := false
  external_code_buffer := external_code_buffer
  checked := false
  nvme := .free
  applet := .idle
  requests := []
  requestOf := fun _ => none
  announced := []
  returned := []
  completions := []
  executed := []
  called := []
  calls := []
  accepted := []
  answered := []

/-! ## Small runs -/

/-- A zeroed object. -/
def zeroDma : HostDma := ⟨.other, 0, 0, 0, 0, 0, 0, false⟩

def zeroIsp : IspState := initialIsp (fun _ => zeroDma) (fun _ => 0) (fun _ => 0)

/-- A command whose buffer is one page at the host address 4096. -/
def ispCommand (ftn_id : UInt8) (agument_size : UInt32) (scmdarg : ScmdArg) : IspCommand :=
  ⟨⟨ftn_id, agument_size, 4096, 0, scmdarg⟩, zeroReq.dma, 0, fun _ => 0⟩

/-- An execute command with its arguments in the entry, a control command, and a data
transfer command of the given size. -/
def runExecute (ftn_id : UInt8) (agument_size : UInt32) (scmdarg : ScmdArg) : List IspAction :=
  .nvme (.isp_io 0x80 (ispCommand ftn_id agument_size scmdarg) zeroDma) ::
    List.replicate 4 .nvme_continue

def runControl : List IspAction :=
  [.nvme (.isp_io 0x81 (ispCommand 0 0 ⟨0, 0, 0, 0, 0, 0⟩) zeroDma), .nvme_continue]

def runTransfer (size : UInt32) : List IspAction :=
  [.nvme (.isp_io 0x82 (ispCommand 0 0 ⟨0, size, 0, 0, 0, 0⟩) zeroDma), .nvme_continue,
    .nvme_continue]

/-- A function starts, and asks for a host buffer. -/
def startFunction : List IspAction := [.applet, .call fun _ => 0]

def askHost (ssd_addr size : Nat) : List IspAction :=
  .host_dma 0 ssd_addr size false :: List.replicate 4 .applet

end S4Sim
