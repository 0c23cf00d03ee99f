-- The memory of the ISP driver, from isp.c, in_storage_processing.h and the pool of
-- issd_kernel_mem_alloc.c: the DMA requests of the applet, the thread slot
-- `threads[0]`, the code buffer, and where the NVMe and the applet thread are.
import S4Sim.Firmware.Threads

open Windows

namespace S4Sim

/-! ## Request objects -/

/-- The stages that the driver writes. `other` is any stage of another kind of request. -/
inductive ReqStage
  | REQ_STAGE_FREE
  | REQ_STAGE_INUSE
  | ISP_HOST_DMA_REQ_INIT
  | ISP_HOST_DMA_REQ_TX_ON
  | ISP_HOST_DMA_REQ_CMPT
  | ISP_NAND_OP_CMPLT
  | other
  deriving DecidableEq, Repr

/-- `isp_host_dma_t`, which is also how the driver sees an object of the pool that
another kind of request uses. -/
structure HostDma where
  req_stage : ReqStage
  ssd_addr : Nat
  start_mem_page : Nat
  size : Nat
  tx_type : Nat
  request_code : Nat
  transfered_size : Nat
  /-- `exec_thrd` points to `threads[0]`. -/
  exec_thrd : Bool
  deriving DecidableEq, Repr

def ISP_APPLET_READ_DTX : Nat := 0x1

def ISP_APPLET_WRITE_DTX : Nat := 0x3

def CTRL_MSG_DTX_SPAGE_BITS : Nat := 12

/-- The dword that announces a request to the host. -/
def requestCode (start_mem_page size tx_type : Nat) : Nat :=
  (size * 2 ^ (CTRL_MSG_DTX_SPAGE_BITS + 2) ||| start_mem_page * 4 ||| tx_type) % 2 ^ 32

/-! ## Commands -/

/-- The arguments in a submission entry, `scmd_arg_t`. -/
structure ScmdArg where
  cdw10 : UInt32
  cdw11 : UInt32
  cdw12 : UInt32
  cdw13 : UInt32
  cdw14 : UInt32
  cdw15 : UInt32
  deriving DecidableEq, Repr

/-- The fields of `NvmeISPSCmd` that the driver reads. -/
structure NvmeISPSCmd where
  ftn_id : UInt8
  agument_size : UInt32
  prp1 : UInt64
  prp2 : UInt64
  scmdarg : ScmdArg
  deriving DecidableEq, Repr

/-- A command with the host memory that it names, and what an earlier request left in
the DMA descriptor and the completion dword of its request object. -/
structure IspCommand where
  scmd : NvmeISPSCmd
  dma : Dma
  ccmd_dw0 : Nat
  mem : Mem

/-- The bytes of a dword in memory. -/
def wordBytes (w : UInt32) : List UInt8 :=
  (List.range 4).map fun i => UInt8.ofNat (w.toNat / 256 ^ i)

/-- The 24 bytes of `scmd_arg_t`. -/
def ScmdArg.bytes (arg : ScmdArg) : List UInt8 :=
  wordBytes arg.cdw10 ++ (wordBytes arg.cdw11 ++ (wordBytes arg.cdw12 ++ (wordBytes arg.cdw13 ++
    (wordBytes arg.cdw14 ++ wordBytes arg.cdw15))))

/-! ## Transfers -/

/-- One turn of the loop of `do_sync_dma_operation`. -/
structure DmaWindow where
  host_p_addr : Nat
  ssd_addr : Nat
  len : Nat
  deriving DecidableEq, Repr

/-- The turns of `do_sync_dma_operation`, for a transfer of `r_len` bytes. -/
def dmaWindows : List DmaOp → (next_ssd_addr r_len : Nat) → List DmaWindow
  | [], _, _ => []
  | e :: rest, next_ssd_addr, r_len =>
    if r_len = 0 then []
    else
      let tran_len := min e.len r_len
      ⟨e.host_p_addr, next_ssd_addr, tran_len⟩ ::
        dmaWindows rest (next_ssd_addr + tran_len) (r_len - tran_len)

/-- The SSD memory after the turns have read from the host. -/
def readHost (mem : Mem) (ssd : Nat → UInt8) (ws : List DmaWindow) : Nat → UInt8 :=
  ws.foldl (fun ssd w => writeWindow ssd w.ssd_addr w.len fun i => mem (w.host_p_addr + i)) ssd

/-- The segments of a command. The result of `decode_prp` is not looked at. -/
def commandOps (hostPageBits : Nat) (cmd : IspCommand) (data_size : Nat) : Option (List DmaOp) :=
  (decode_prp hostPageBits cmd.mem cmd.scmd.prp1.toNat cmd.scmd.prp2.toNat
    { cmd.dma with data_size }).map fun (dma, _) => dma.ops

/-- The turns of the transfer of a command. -/
def commandWindows (hostPageBits : Nat) (cmd : IspCommand) (ssd_addr data_size : Nat) :
    Option (List DmaWindow) :=
  (commandOps hostPageBits cmd data_size).map fun ops => dmaWindows ops ssd_addr data_size

/-! ## The applet header -/

/-- `magic_string` of `add_applet`, with the zeros that fill the array. -/
def magic_string : List UInt8 :=
  [115, 110, 112, 32, 105, 115, 112, 32, 97, 112, 112, 108, 101, 116, 0, 0]

def ISP_MAX_APPLET_FUNCTIONS : Nat := 64

/-- Four bytes of the memory of the firmware. -/
def readU32 (m : Nat → UInt8) (addr : Nat) : Nat :=
  (List.range 4).foldr (fun i n => (m (addr + i)).toNat + 256 * n) 0

/-- The fields of `isp_applet_header_t` at the head of an image. -/
def initializeFtn (image : Nat → UInt8) : Nat := readU32 image 88

def numFtn (image : Nat → UInt8) : Nat := readU32 image 96

/-- `functions[ftn_id - 1].entry_address`: an entry has 68 bytes, the first is at 100. -/
def entryAddress (image : Nat → UInt8) (ftn_id : Nat) : Nat := readU32 image (32 + 68 * ftn_id)

/-! ## The state -/

/-- The messages of `msg_out_q`. -/
inductive MsgOut
  | host_dma (dma_req : Nat)
  | nand_op (op : Nat)
  | execution_exit
  deriving DecidableEq, Repr

/-- One turn of the loop of `do_sync_host_dma`. -/
structure DmaChunk where
  start_mem_page : Nat
  ssd_addr : Nat
  size : Nat
  tx_type : Nat
  deriving DecidableEq, Repr

/-- A data transfer command: the size that it asked for, the request that was live when
it came, and the SSD memory that it goes through. -/
structure DataTransfer where
  size : Nat
  live : Option HostDma
  ws : List DmaWindow

/-- Where the NVMe thread is in an ISP function. `req` is the request object of the
command. -/
inductive NvmePc
  | free
  | execute_objects (req : Nat) (cmd : IspCommand)
  | execute_arguments (req : Nat) (cmd : IspCommand)
  | execute_transfer (req : Nat) (cmd : IspCommand) (ws : List DmaWindow)
  | execute_message (req : Nat) (cmd : IspCommand)
  | execute_post (req : Nat) (cmd : IspCommand)
  | control_pending (req : Nat)
  | recycle_exited
  | transfer_wait (req dma_req ccmd_dw0 : Nat) (transfer : DataTransfer)
  | transfer_complete (dma_req : Nat)

/-- Where the applet thread is: without a function, at its call, in its code with the
turns of `do_sync_host_dma` that are left, inside `_do_sync_host_dma_` or
`do_sync_nand_op`, or after the function has returned. -/
inductive AppletPc
  | idle
  | starting
  | running (chunks : List DmaChunk)
  | dequeued (dma_req : Nat) (chunk : DmaChunk) (chunks : List DmaChunk)
  | filled (dma_req : Nat) (chunks : List DmaChunk)
  | queued (dma_req : Nat) (chunks : List DmaChunk)
  | waiting (dma_req : Nat) (chunks : List DmaChunk)
  | completed (dma_req : Nat) (chunks : List DmaChunk)
  | nand_filled
  | nand_waiting
  | exited
  deriving DecidableEq

/-- One call of `post_dma_msg`: the number of the request, the code that is posted, the
stage of the request, and whether the applet still held its object. -/
structure Announcement where
  request : Option Nat
  request_code : Nat
  stage : ReqStage
  held : Bool
  deriving DecidableEq, Repr

/-- One completion that the driver asks for. -/
structure IspCompletion where
  req : Nat
  ccmd_dw0 : Nat
  status : Nat
  deriving DecidableEq, Repr

/-- A function with its argument size and its argument bytes. -/
structure Execution where
  ftn_id : Nat
  arg_size : Nat
  args : List UInt8
  deriving DecidableEq, Repr

/-- A call of an applet address. `ftn_id` is `none` for `initialize_ftn`; `image` is what
`header` pointed to, and `downloaded` says whether that was the code buffer. -/
structure AppletCall where
  address : Nat
  ftn_id : Option Nat
  image : Nat → UInt8
  downloaded : Bool

/-- The state of the driver. `others` are the objects of the pool that other requests
hold, `requestOf` numbers the requests of the applet by their object, `checked` says that
the code buffer was not written since `add_applet` last accepted it, and the last fields
are records of what happened, oldest first. -/
structure IspState where
  objs : Nat → HostDma
  free_req_objs : List Nat
  others : List Nat
  ftn_id : Nat
  arg_size : Nat
  arg_buffer : Nat → UInt8
  ctrl_cmd_req : Option Nat
  sync_nand_op_req : Option Nat
  pending_dma : List Nat
  cmplt_dma : List Nat
  active_dma_req : Option Nat
  function_exited : Bool
  msg_in_q : Nat
  msg_out_q : List MsgOut
  recycles : Nat
  ftl_in_q : List Nat
  header : Bool
  external_code_buffer : Nat → UInt8
  checked : Bool
  nvme : NvmePc
  applet : AppletPc
  requests : List HostDma
  requestOf : Nat → Option Nat
  announced : List Announcement
  returned : List Nat
  completions : List IspCompletion
  executed : List IspCommand
  called : List Execution
  calls : List AppletCall
  accepted : List (Nat → UInt8)
  answered : List (DataTransfer × IspCompletion)

end S4Sim
