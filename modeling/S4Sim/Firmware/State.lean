-- The memory of the whole firmware: the driver, the page buffer, the queues
-- between the threads, the FTL thread, the DMA thread and the ISP driver, and the
-- state after `initialize_nvme` and `initialize_ftl`.
import S4Sim.Nvme.Admin
import S4Sim.Ftl.Ftl

namespace S4Sim

/-- The build with equal host and NAND pages, and the host page size of the run
(`cc.mps + 12` bits). `image` is the bytes that one page of the stored tables has. -/
structure Config where
  g : Geometry
  hostPageBits : Nat
  image : Ftl → StoredPage → Nat → UInt8
  equal : g.nand_page_size = g.host_page_size

namespace Config

variable (c : Config)

/-- `HOST_PAGE_SIZE` -/
def pageBytes : Nat := 2 ^ c.g.host_page_size

/-- `ssd_config.nsze` on new media. -/
def nsze : Nat := (new_media_config c.g).total_logical_pages

end Config

/-! ## The page buffer, from buffer_mgt_1wbc-r.c -/

/-- One page of the write back cache. `ssd_addr` is its offset in `page_buffer`. -/
structure WbcPage where
  lpn : Nat
  ssd_addr : Nat
  valid : Bool

structure Wbc where
  num_program_pgs : Nat
  pages : Nat → WbcPage

/-- `page_buffer`, its owner flag, the write back cache, and the requests that
wait for the buffer. -/
structure Buffers where
  page_buffer : Nat → UInt8
  page_buffer_inuse : Bool
  wbc : Wbc
  r_buf_q : List Req
  w_buf_q : List Req

/-! ## The FTL thread -/

/-- What the FTL gets through its queue: a READ, the write back cache, or the
flash operation of an applet. -/
inductive FtlJob
  | read (req : Req)
  | flush
  | isp (program : Bool) (start_lpn num_of_lpn : Nat)

/-- One page of a read or program operation. `ssd_addr` is an offset in
`page_buffer`, and `none` for the buffer of an applet. -/
structure NandOp where
  ppa : Ppa
  program : Bool
  ssd_addr : Option Nat

/-- Where the FTL thread is: between two jobs, in the loop that builds the flash
operation of a job (page `i` next), or waiting for the pages of the operation. -/
inductive FtlPc
  | idle
  | looping (job : FtlJob) (i : Nat) (ops : List NandOp)
  | waiting (job : FtlJob) (ops : List NandOp)

structure FtlThread where
  inq : List FtlJob
  pc : FtlPc
  outq : List FtlJob
  ftl : Ftl
  flash : Ppa → Nat → UInt8

/-! ## The DMA thread -/

/-- The data transfer of a READ (to the host) or of a WRITE, at segment `ix`. -/
structure DmaJob where
  req : Req
  toHost : Bool
  ix : Nat
  offset : Nat

/-! ## The ISP driver -/

/-- The field of `isp_host_dma_t` that a completion carries. -/
structure IspDma where
  request_code : Nat

/-- The messages of an applet to the NVMe thread. -/
inductive IspMsg
  | host_dma (dma_req : IspDma)
  | nand_op (program : Bool) (start_lpn num_of_lpn : Nat)
  | execution_exit

structure Isp where
  function_exited : Bool
  pending_dma : List IspDma
  active_dma_req : Option IspDma
  ctrl_cmd_req : Option Req
  msg_out_q : List IspMsg

/-! ## The NVMe thread -/

/-- The functions that are queued as callbacks of the NVMe thread. -/
inductive Callback
  | check_door_bell
  | recycle_control_command
  deriving DecidableEq

/-- What is left of the function that the NVMe thread runs. A round of
`run_thread` is the first three. -/
inductive Task
  | callback
  | msg_out
  | ftl_out
  | read_ios_step_2
  | write_ios_step_2
  /-- `sync_read_io_dma` waits, in `completed_req_cbk`. -/
  | read_dma (req : Req)
  /-- `sync_write_io_dma` waits, in `process_write_ios_step_2`. -/
  | write_dma (req : Req)
  | add_check_door_bell

/-- The firmware. The queues between the threads are lists; the code gives each
of them 256 entries and never has more than a few in them. -/
structure State where
  driver : Driver
  idleTimeCounter : Nat
  callbacks : List Callback
  todo : List Task
  buf : Buffers
  ftl : FtlThread
  dma : Option DmaJob
  isp : Isp

/-! ## The first state -/

/-- The driver after `initialize_nvme`, for admin queues of the given sizes. -/
def initialize_nvme (asqs acqs asq acq : Nat) : Driver :=
  { Driver.zero with
    cqs := Function.update Driver.zero.cqs 0 ((Driver.zero.cqs 0).setUp 0 (acqs + 1) acq 1 0)
    sqs := Function.update Driver.zero.sqs 0 ⟨0, 0, 0, 0, asqs + 1, asq⟩ }

/-- Both initializations are done, on new media whose pages hold anything. -/
def initialState (c : Config) (asqs acqs asq acq : Nat) (flash : Ppa → Nat → UInt8) : State where
  driver := initialize_nvme asqs acqs asq acq
  idleTimeCounter := 0
  callbacks := [.check_door_bell]
  todo := []
  buf :=
    { page_buffer := fun _ => 0, page_buffer_inuse := false,
      wbc := ⟨0, fun _ => ⟨0, 0, false⟩⟩, r_buf_q := [], w_buf_q := [] }
  ftl := { inq := [], pc := .idle, outq := [], ftl := initialize_ftl c.g, flash }
  dma := none
  isp :=
    { function_exited := true, pending_dma := [], active_dma_req := none, ctrl_cmd_req := none,
      msg_out_q := [] }

end S4Sim
