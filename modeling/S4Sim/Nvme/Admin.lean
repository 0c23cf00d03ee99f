-- The admin commands, from nvme_driver.c. Each handler completes its request at
-- once. The data that Identify sends and the code that a download stores are not
-- in the model, only the PRP decoding for their transfers.
import S4Sim.Nvme.Driver
import S4Sim.Nvme.Prp

namespace S4Sim

def NVME_SC_INVALID_OPCODE : Nat := 0x01

def NVME_SC_INVALID_FIELD : Nat := 0x02

def NVME_SC_DNR : Nat := 0x4000

/-- What one step of the NVMe thread reads from outside: the door bell register,
the submission entry at the head of the queue, the host memory, the object that
`sys_malloc_req_obj` takes from its pool (with what an earlier request left in it,
`none` when the pool is empty), whether `sys_find_io_request` finds a request,
and the shutdown notification of the host. -/
structure Env where
  DoorBell : Nat
  Qindex : Nat
  db_value : Nat
  scmd : NvmeSCmd
  mem : Mem
  obj : Option Req
  found : Bool
  shn : Bool

variable (hostPageBits : Nat)

/-- `do_sync_dma`: it does not look at the result of `decode_prp`. -/
def do_sync_dma (env : Env) (data_size : Nat) (req : Req) : Option Req :=
  (decode_prp hostPageBits env.mem req.scmd.prp1.toNat req.scmd.prp2.toNat
    { req.dma with data_size }).map fun (dma, _) => { req with dma }

/-- The sizes of `NvmeIdController`, of `NvmeIdNameSpace` and of the namespace list. -/
def IdDataSize : Nat := 4096

def nvme_identify (env : Env) (req : Req) (d : Driver) : Option Driver :=
  match req.scmd.cns with
  | 0x01 | 0x00 | 0x02 =>
    (do_sync_dma hostPageBits env IdDataSize req).bind d.enqueue_admin_ccmd
  | _ => some d

/-- The two words of the completion dword. -/
def dwordOf (w0 w1 : Nat) : Nat := w0 % 2 ^ 16 + 2 ^ 16 * (w1 % 2 ^ 16)

def nvme_set_feature (req : Req) (d : Driver) : Option Driver :=
  match req.scmd.fid with
  | 0x7 => d.enqueue_admin_ccmd { req with
      ccmd_dw0 := dwordOf (min req.scmd.nsq MAX_IO_SQCQ_PAIRS)
        (min req.scmd.ncq MAX_IO_SQCQ_PAIRS) }
  | 0x6 => d.enqueue_admin_ccmd req
  | _ => d.enqueue_admin_ccmd { req with status := NVME_SC_INVALID_FIELD ||| NVME_SC_DNR }

def nvme_get_feature (req : Req) (d : Driver) : Option Driver :=
  match req.scmd.fid with
  | 0x7 => d.enqueue_admin_ccmd { req with ccmd_dw0 := dwordOf d.iosqCount d.iocqCount }
  | 0x6 => d.enqueue_admin_ccmd req
  | _ => d.enqueue_admin_ccmd { req with status := NVME_SC_INVALID_FIELD ||| NVME_SC_DNR }

/-- The size of `external_code_buffer`. -/
def ISP_MAX_APPLET_BIN_SIZE : Nat := 0x10000000

/-- `none`: the download goes past the end of the buffer. -/
def nvme_fw_download (env : Env) (req : Req) (d : Driver) : Option Driver :=
  let data_size := (req.scmd.num_dwords + 1) * 4 % 2 ^ 32
  if req.scmd.dword_off * 4 % 2 ^ 32 + data_size ≤ ISP_MAX_APPLET_BIN_SIZE then
    (do_sync_dma hostPageBits env data_size req).bind d.enqueue_admin_ccmd
  else none

def nvme_fw_activate (req : Req) (d : Driver) : Option Driver := d.enqueue_admin_ccmd req

/-- `none`: the index is outside the array `sqs`. -/
def nvme_create_sq (req : Req) (d : Driver) : Option Driver :=
  let index := req.scmd.qid
  if index > MAX_IO_SQCQ_PAIRS then none
  else
    let sq : NvmeSQueue :=
      { sqid := index, cqid := req.scmd.cdw11High, head := 0, tail := 0,
        size := req.scmd.qsize + 1, hostAddr := req.scmd.prp1.toNat }
    { d with sqs := Function.update d.sqs index sq,
             iosqCount := (d.iosqCount + 1) % 2 ^ 32 }.enqueue_admin_ccmd req

def nvme_create_cq (req : Req) (d : Driver) : Option Driver :=
  let index := req.scmd.qid
  if index > MAX_IO_SQCQ_PAIRS then none
  else
    let cq := (d.cqs index).setUp index (req.scmd.qsize + 1) req.scmd.prp1.toNat req.scmd.ien
      req.scmd.cdw11High
    { d with cqs := Function.update d.cqs index cq,
             iocqCount := (d.iocqCount + 1) % 2 ^ 32 }.enqueue_admin_ccmd req

def nvme_delete_sq (req : Req) (d : Driver) : Option Driver :=
  let index := req.scmd.qid
  if index > MAX_IO_SQCQ_PAIRS then none
  else
    let sq := { d.sqs index with sqid := 0, size := 0, hostAddr := 0, head := 0 }
    { d with sqs := Function.update d.sqs index sq,
             iosqCount := (d.iosqCount + (2 ^ 32 - 1)) % 2 ^ 32 }.enqueue_admin_ccmd req

/-- The tail and the ring of pending completions stay. -/
def nvme_delete_cq (req : Req) (d : Driver) : Option Driver :=
  let index := req.scmd.qid
  if index > MAX_IO_SQCQ_PAIRS then none
  else
    let cq := { d.cqs index with
      cqid := 0, phase := false, size := 0, hostAddr := 0, irq_enabled := 0, vector := 0,
      head := 0 }
    { d with cqs := Function.update d.cqs index cq,
             iocqCount := (d.iocqCount + (2 ^ 32 - 1)) % 2 ^ 32 }.enqueue_admin_ccmd req

/-- The error text of `nvme_adort_cmd` reads the request that was found. `none`: it
was not found, and the pointer is null. -/
def nvme_adort_cmd (env : Env) (req : Req) (d : Driver) : Option Driver :=
  if env.found then d.enqueue_admin_ccmd req else none

def nvme_unimplemented_cmd (req : Req) (d : Driver) : Option Driver :=
  d.enqueue_admin_ccmd { req with status := NVME_SC_INVALID_OPCODE ||| NVME_SC_DNR }

/-- The switch of `process_admin_cmd`. -/
def admin_cmd (env : Env) (req : Req) (d : Driver) : Option Driver :=
  match req.scmd.opcode.toNat with
  | 0x06 => nvme_identify hostPageBits env req d
  | 0x09 => nvme_set_feature req d
  | 0x0a => nvme_get_feature req d
  | 0x01 => nvme_create_sq req d
  | 0x05 => nvme_create_cq req d
  | 0x00 => nvme_delete_sq req d
  | 0x04 => nvme_delete_cq req d
  | 0x11 => nvme_fw_download hostPageBits env req d
  | 0x10 => nvme_fw_activate req d
  | 0x08 => nvme_adort_cmd env req d
  | _ => nvme_unimplemented_cmd req d

/-- The request of an admin command. It copies the first dwords, the PRPs and
dwords 10 and 11 of the entry. -/
def adminRequest (d : Driver) (scmd : NvmeSCmd) (obj : Req) : Req :=
  { obj with
    uid := d.fetched.length
    sqid := 0
    cqid := 0
    sqe := (d.sqs 0).head
    status := 0
    ccmd_dw0 := 0
    scmd := { obj.scmd with
      opcode := scmd.opcode, cid := scmd.cid, nsid := scmd.nsid, prp1 := scmd.prp1
      prp2 := scmd.prp2, cdw10 := scmd.cdw10, cdw11 := scmd.cdw11 } }

def process_admin_cmd (env : Env) (d : Driver) : Option Driver :=
  env.obj.bind fun obj =>
    let req := adminRequest d env.scmd obj
    (d.read_scmd 0 env.scmd env.mem).bind fun d => admin_cmd hostPageBits env req d

end S4Sim
