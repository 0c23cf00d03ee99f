-- The NVMe data of the firmware: submission and completion entries, the
-- request object and its DMA descriptor, from nvmeDataStructures.h and
-- global.h.
import Mathlib.Tactic.Ring

namespace S4Sim

/-- The bytes of the host memory. -/
abbrev Mem := Nat → UInt8

/-! ## Submission entries -/

/-- One 64-byte submission entry. `res1` is the third and fourth dword, where an
ISP command has its argument size. -/
structure NvmeSCmd where
  opcode : UInt8
  cid : UInt16
  nsid : UInt32
  res1 : UInt64
  prp1 : UInt64
  prp2 : UInt64
  cdw10 : UInt32
  cdw11 : UInt32
  cdw12 : UInt32
  deriving DecidableEq, Repr

namespace NvmeSCmd

variable (c : NvmeSCmd)

/-- `slba` of `NvmeIOSCmd`. -/
def slba : Nat := c.cdw10.toNat + 2 ^ 32 * c.cdw11.toNat

/-- `nlbs` of `NvmeIOSCmd`: the number of blocks less one. -/
def nlbs : Nat := c.cdw12.toNat % 2 ^ 16

/-- `cns` of `NvmeIdentifyCmd`. -/
def cns : Nat := c.cdw10.toNat % 4

/-- `fid` of `NvmeSetFeatureCmd` and `NvmeGetFeatureCmd`. -/
def fid : Nat := c.cdw10.toNat % 2 ^ 8

/-- `nsq` of `NvmeSetFeatureCmd`. -/
def nsq : Nat := c.cdw11.toNat % 2 ^ 16

/-- `ncq` of `NvmeSetFeatureCmd`. -/
def ncq : Nat := c.cdw11.toNat / 2 ^ 16

/-- The queue id of the commands that create or delete a queue. -/
def qid : Nat := c.cdw10.toNat % 2 ^ 16

/-- `size` of the commands that create a queue: the entries less one. -/
def qsize : Nat := c.cdw10.toNat / 2 ^ 16

/-- `num_dwords` of `NvmefwdlCmd`. -/
def num_dwords : Nat := c.cdw10.toNat

/-- `dword_off` of `NvmefwdlCmd`. -/
def dword_off : Nat := c.cdw11.toNat

/-- `cqid` of `NvmeCreateSQCmd` and `ivector` of `NvmeCreateCQCmd`. -/
def cdw11High : Nat := c.cdw11.toNat / 2 ^ 16

/-- `ien` of `NvmeCreateCQCmd`. -/
def ien : Nat := c.cdw11.toNat / 2 % 2

/-- `agument_size` of `NvmeISPSCmd`. -/
def agument_size : Nat := c.res1.toNat / 2 ^ 32

end NvmeSCmd

/-! ## Request objects -/

/-- The limits of global_macro.h. -/
def MAX_IO_SQCQ_PAIRS : Nat := 4

def INTERNAL_IO_REQ_QUEUE : Nat := 128

def MDTS_PAGES : Nat := 16

def WBC_PAGES : Nat := MDTS_PAGES

def NUM_NS : Nat := 1

/-- The objects of `other_req_alloc` in issd_kernel_mem_alloc.c. -/
def O_SIZE : Nat := 128

/-- One segment of a transfer, the fields of `dma_op_t` that the transfer reads. -/
structure DmaOp where
  host_p_addr : Nat
  len : Nat
  deriving DecidableEq, Repr

/-- `dma_t`. The list keeps what an earlier command left in it. -/
structure Dma where
  data_size : Nat
  n_ops : Nat
  list : Nat → DmaOp

/-- A request object. `uid` is not in the source: it numbers the commands in
the order they are fetched. -/
structure Req where
  uid : Nat
  sqid : Nat
  cqid : Nat
  sqe : Nat
  status : Nat
  ccmd_dw0 : Nat
  scmd : NvmeSCmd
  dma : Dma

/-- Zeroed memory: what the objects hold before their first use. -/
def zeroReq : Req where
  uid := 0
  sqid := 0
  cqid := 0
  sqe := 0
  status := 0
  ccmd_dw0 := 0
  scmd := ⟨0, 0, 0, 0, 0, 0, 0, 0, 0⟩
  dma := ⟨0, 0, fun _ => ⟨0, 0⟩⟩

/-! ## Completion entries -/

/-- The fields of `NvmeCCmd` that the firmware writes. -/
structure NvmeCCmd where
  cdw0 : Nat
  sqhd : Nat
  cid : Nat
  status_p : Nat
  deriving DecidableEq, Repr

/-- One call of `sync_post_ccmd`, with the request that it completes. -/
structure Posting where
  cqid : Nat
  cqe : Nat
  hostAddr : Nat
  ccmd : NvmeCCmd
  vector : Nat
  irq_enabled : Nat
  req : Req

end S4Sim
