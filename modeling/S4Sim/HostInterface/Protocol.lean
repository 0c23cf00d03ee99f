-- The shared memory between the SSD simulator and the host: the ring of
-- messages and the page register of host_ssd_interface.h, the device side of
-- iSSDHostInterface.cc and the message thread of the qemu patch. Both sides
-- move in small steps; a copy of many bytes moves one byte a step, in any order.
import S4Sim.Lib.Run
import Mathlib.Tactic.Ring
import Mathlib.Logic.Function.Basic

namespace S4Sim

/-! ## The shared memory -/

/-- The commands for the host that the firmware writes to `cmd`. -/
inductive HostCmd
  | PCI_DMA_READ
  | PCI_DMA_WRITE
  | PCI_DMA_SQ_READ
  | PCI_DMA_CQ_WRITE
  | PCI_ENABLE_MSIX_VECTOR
  deriving DecidableEq

/-- `cmdStatus`. -/
inductive CmdStatus
  | HOST_ATTACHED
  | PROCESSING
  | COMPLETE
  deriving DecidableEq

inductive DataStatus
  | data_status_free
  | data_status_ready
  | data_status_used
  deriving DecidableEq

def SSDMsgQueueSize : Nat := 2 ^ 10

def INTERFACE_DMA_PAGE_COUNT : Nat := SSDMsgQueueSize

def INTERFACE_DMA_PAGE_SIZE : Nat := 2 ^ 16

/-- The command issue register set, `hostCmdReg`. -/
structure HostCmdReg where
  cmd : HostCmd
  dma_addr : UInt64
  size : UInt32
  ssdAddr : UInt32
  sqe : UInt32
  sqAddr : UInt32
  sqeDmaAddr : UInt64
  cqe : UInt32
  cqAddr : UInt32
  cqeDmaAddr : UInt64
  cqIntVector : UInt32
  isr_notify : UInt32
  deriving DecidableEq

/-- `ssd_msg_t`. The place of the command in the sequence, `number`, is not in the code. -/
structure SsdMsg where
  cmd : HostCmd
  dma_addr : UInt64
  size : UInt32
  ssdAddr : UInt32
  cqIntVector : UInt32
  isr_notify : UInt32
  msg_ready : Bool
  page_index : Nat
  number : Nat
  deriving DecidableEq

/-- `page_reg_t`. The command that wrote each byte, `writer`, is not in the code. -/
structure PageReg where
  data_status : DataStatus
  page_index : Nat
  data : Nat → UInt8
  writer : Nat → Nat

/-- The index in `page_queue->list`, or `none` for an index out of range. -/
def getPageRegister (page_index : Nat) : Option Nat :=
  if page_index = 0 ∨ INTERFACE_DMA_PAGE_COUNT < page_index then none else some (page_index - 1)

/-- The fields that `start_read_host`, `start_write_host` and `enable_msix_on_hostcpu` put
into a message. The other fields are those of an older message. -/
def fillMsg (r : HostCmdReg) (page_index : Nat) (msg : SsdMsg) : SsdMsg :=
  match r.cmd with
  | .PCI_DMA_READ | .PCI_DMA_WRITE =>
    { msg with
      dma_addr := r.dma_addr
      ssdAddr := r.ssdAddr
      size := r.size
      page_index := page_index }
  | .PCI_DMA_SQ_READ =>
    { msg with
      dma_addr := r.sqeDmaAddr + (r.sqe * 64).toUInt64
      ssdAddr := r.sqAddr
      size := 64
      page_index := page_index }
  | .PCI_DMA_CQ_WRITE =>
    { msg with
      dma_addr := r.cqeDmaAddr + (r.cqe * 16).toUInt64
      ssdAddr := r.cqAddr
      size := 16
      cqIntVector := r.cqIntVector
      isr_notify := r.isr_notify
      page_index := page_index }
  | .PCI_ENABLE_MSIX_VECTOR => { msg with cqIntVector := r.cqIntVector }

def HostCmd.isRead : HostCmd → Bool
  | .PCI_DMA_READ | .PCI_DMA_SQ_READ => true
  | _ => false

def HostCmd.isWrite : HostCmd → Bool
  | .PCI_DMA_WRITE | .PCI_DMA_CQ_WRITE => true
  | _ => false

def HostCmd.isDma (cmd : HostCmd) : Bool := cmd.isRead || cmd.isWrite

/-! ## The two sides -/

/-- Where the routine of a command is: the function it calls next, or the write it makes
next, for the message in the slot. -/
inductive DevicePc
  | idle
  | enQueuePageRegister
  | enQueueSSDMsg
  | move_tail (msg : Nat)
  | fill (msg : Nat)
  | set_ready (msg : Nat)
  | set_status (msg : Nat)
  | panic
  deriving DecidableEq

/-- The events of the simulator, with the message in the slot, and the bytes that a DMA in
the SSD still has to move before its call back. -/
inductive DeviceEvent
  | read_host_complete (msg : Nat)
  | write_ssd_complete (msg : Nat) (left : List Nat)
  | read_ssd_complete (msg : Nat) (left : List Nat)
  | write_host_complete (msg : Nat)
  deriving DecidableEq

/-- Where `ssd_msg_check_thread` is, with the message in the slot and the bytes that a copy
still has to move. -/
inductive HostPc
  | idle
  | wait_msg (msg : Nat)
  | pci_dma_read (msg : Nat) (left : List Nat)
  | wait_data (msg : Nat)
  | pci_dma_write (msg : Nat) (left : List Nat)
  | notify (msg : Nat)
  deriving DecidableEq

/-- A command as it was issued, with the bytes at its source at that time. -/
structure IssuedCmd where
  regs : HostCmdReg
  bytes : List UInt8

/-- The bytes at both ends when the device sets `cmdStatus` for the command. -/
structure DmaCompletion where
  number : Nat
  ssd : List UInt8
  host : List UInt8

/-- An interrupt, and the bytes in host memory at the entry of its command. -/
structure HostInterrupt where
  number : Nat
  vector : UInt32
  host : List UInt8

/-- The registers of the device, the shared memory, both sides and both memories, and then
the records of the run: `issued` to `page_reads`. A page read is the command that reads a
byte of the page register and the command that wrote the byte. -/
structure HostInterface where
  Registers : HostCmdReg
  cmdStatus : CmdStatus
  tail : Nat
  head : Nat
  msgs : Nat → SsdMsg
  pages : Nat → PageReg
  device : DevicePc
  events : List DeviceEvent
  host : HostPc
  host_mem : Nat → UInt8
  ssd_mem : Nat → UInt8
  issued : List IssuedCmd
  handled : List Nat
  vectors : List UInt32
  completions : List DmaCompletion
  interrupts : List HostInterrupt
  page_reads : List (Nat × Nat)

/-- The bytes of a memory from `a` on. -/
def bytesAt (mem : Nat → UInt8) (a n : Nat) : List UInt8 :=
  (List.range n).map fun i => mem (a + i)

namespace HostInterface

/-! ## The device -/

/-- All commands get the page `list[0]`. -/
def enQueuePageRegister (s : HostInterface) : HostInterface :=
  { s with
    pages := Function.update s.pages 0
      { s.pages 0 with page_index := 1, data_status := .data_status_free } }

/-- The writes of `enQueueSSDMsg` to the slot at the tail. -/
def writeSlot (s : HostInterface) : HostInterface :=
  { s with
    msgs := Function.update s.msgs s.tail
      { s.msgs s.tail with
        cmd := s.Registers.cmd
        msg_ready := false
        number := s.issued.length - 1 } }

def setMsg (s : HostInterface) (slot : Nat) (msg : SsdMsg) : HostInterface :=
  { s with msgs := Function.update s.msgs slot msg }

def setDataStatus (s : HostInterface) (page : Nat) (status : DataStatus) : HostInterface :=
  { s with pages := Function.update s.pages page { s.pages page with data_status := status } }

/-- The last writes of `start_read_host`, `start_write_host` and
`enable_msix_on_hostcpu`, and the event or the DMA that the first two start. -/
def startDma (s : HostInterface) (msg : Nat) : HostInterface :=
  match s.Registers.cmd with
  | .PCI_DMA_READ | .PCI_DMA_SQ_READ =>
    { s with cmdStatus := .PROCESSING, events := s.events ++ [.read_host_complete msg] }
  | .PCI_DMA_WRITE | .PCI_DMA_CQ_WRITE =>
    { s with
      cmdStatus := .PROCESSING
      events := s.events ++ [.read_ssd_complete msg (List.range (s.msgs msg).size.toNat)] }
  | .PCI_ENABLE_MSIX_VECTOR => { s with cmdStatus := .COMPLETE }

/-- The next step of the routine of a command. -/
def deviceStep (s : HostInterface) : Option HostInterface :=
  match s.device with
  | .idle | .panic => none
  | .enQueuePageRegister => some { s.enQueuePageRegister with device := .enQueueSSDMsg }
  | .enQueueSSDMsg =>
    if s.head = (s.tail + 1) % SSDMsgQueueSize then some { s with device := .panic }
    else some { s.writeSlot with device := .move_tail s.tail }
  | .move_tail msg =>
    some { s with tail := (s.tail + 1) % SSDMsgQueueSize, device := .fill msg }
  | .fill msg =>
    some { s.setMsg msg (fillMsg s.Registers (s.pages 0).page_index (s.msgs msg)) with
      device := .set_ready msg }
  | .set_ready msg =>
    some { s.setMsg msg { s.msgs msg with msg_ready := true } with device := .set_status msg }
  | .set_status msg => some { s.startDma msg with device := .idle }

/-- `cmdStatus` of the command becomes `COMPLETE`, at the event with the index. -/
def complete (s : HostInterface) (k : Nat) (msg : SsdMsg) : HostInterface :=
  { s with
    cmdStatus := .COMPLETE
    events := s.events.eraseIdx k
    completions := s.completions ++
      [⟨msg.number, bytesAt s.ssd_mem msg.ssdAddr.toNat msg.size.toNat,
        bytesAt s.host_mem msg.dma_addr.toNat msg.size.toNat⟩] }

def setEvent (s : HostInterface) (k : Nat) (e : DeviceEvent) : HostInterface :=
  { s with events := s.events.set k e }

/-- The loop ends when the host has set `data_status`. -/
def read_host_complete (s : HostInterface) (k msg : Nat) : Option HostInterface := do
  let page ← getPageRegister (s.msgs msg).page_index
  if (s.pages page).data_status = .data_status_ready then
    some (s.setEvent k (.write_ssd_complete msg (List.range (s.msgs msg).size.toNat)))
  else none

def write_ssd_complete (s : HostInterface) (k msg : Nat) : Option HostInterface := do
  let page ← getPageRegister (s.msgs msg).page_index
  some ((s.setDataStatus page .data_status_used).complete k (s.msgs msg))

def read_ssd_complete (s : HostInterface) (k msg : Nat) : Option HostInterface := do
  let page ← getPageRegister (s.msgs msg).page_index
  some ((s.setDataStatus page .data_status_ready).setEvent k (.write_host_complete msg))

/-- The loop ends when the host has set `data_status`. -/
def write_host_complete (s : HostInterface) (k msg : Nat) : Option HostInterface := do
  let page ← getPageRegister (s.msgs msg).page_index
  if (s.pages page).data_status = .data_status_used then some (s.complete k (s.msgs msg))
  else none

/-- The event with the index. A DMA calls back when all its bytes have moved. -/
def eventStep (s : HostInterface) (k : Nat) : Option HostInterface :=
  match s.events[k]? with
  | some (.read_host_complete msg) => s.read_host_complete k msg
  | some (.write_ssd_complete msg []) => s.write_ssd_complete k msg
  | some (.read_ssd_complete msg []) => s.read_ssd_complete k msg
  | some (.write_host_complete msg) => s.write_host_complete k msg
  | _ => none

/-! ## One byte of a copy -/

/-- A byte comes into the page register for the command. -/
def fillPage (s : HostInterface) (page i : Nat) (v : UInt8) (number : Nat) : HostInterface :=
  { s with
    pages := Function.update s.pages page
      { s.pages page with
        data := Function.update (s.pages page).data i v
        writer := Function.update (s.pages page).writer i number } }

/-- A byte of the page register is read for the command. -/
def readPage (s : HostInterface) (page i number : Nat) : HostInterface :=
  { s with page_reads := s.page_reads ++ [(number, (s.pages page).writer i)] }

/-- A byte of `dmaWrite`, from the page register to the SSD. -/
def writeSsd (s : HostInterface) (k msg : Nat) (left : List Nat) (i : Nat) :
    Option HostInterface := do
  let page ← getPageRegister (s.msgs msg).page_index
  let a := (s.msgs msg).ssdAddr.toNat + i
  if i ∈ left ∧ i < INTERFACE_DMA_PAGE_SIZE then
    some { (s.readPage page i (s.msgs msg).number).setEvent k
        (.write_ssd_complete msg (left.filter (· ≠ i))) with
      ssd_mem := Function.update s.ssd_mem a ((s.pages page).data i) }
  else none

/-- A byte of `dmaRead`, from the SSD to the page register. -/
def readSsd (s : HostInterface) (k msg : Nat) (left : List Nat) (i : Nat) :
    Option HostInterface := do
  let page ← getPageRegister (s.msgs msg).page_index
  let a := (s.msgs msg).ssdAddr.toNat + i
  if i ∈ left ∧ i < INTERFACE_DMA_PAGE_SIZE then
    some ((s.fillPage page i (s.ssd_mem a) (s.msgs msg).number).setEvent k
      (.read_ssd_complete msg (left.filter (· ≠ i))))
  else none

/-- A byte of the DMA in the SSD that belongs to the event with the index. -/
def dmaStep (s : HostInterface) (k i : Nat) : Option HostInterface :=
  match s.events[k]? with
  | some (.write_ssd_complete msg left) => s.writeSsd k msg left i
  | some (.read_ssd_complete msg left) => s.readSsd k msg left i
  | _ => none

/-! ## The host -/

/-- `deQueueSSDMsg`. -/
def deQueueSSDMsg (s : HostInterface) : Option HostInterface :=
  if s.head = s.tail then none
  else some { s with head := (s.head + 1) % SSDMsgQueueSize, host := .wait_msg s.head }

/-- The host goes on to the next message. -/
def finish (s : HostInterface) (msg : SsdMsg) : HostInterface :=
  { s with host := .idle, handled := s.handled ++ [msg.number] }

/-- `msix_notify` or `pci_irq_pulse`, for a completion with an interrupt. -/
def notifyHost (s : HostInterface) (msg : SsdMsg) : HostInterface :=
  if msg.cmd = .PCI_DMA_CQ_WRITE ∧ msg.isr_notify ≠ 0 then
    { s with interrupts := s.interrupts ++
      [⟨msg.number, msg.cqIntVector, bytesAt s.host_mem msg.dma_addr.toNat msg.size.toNat⟩] }
  else s

/-- The `switch` over the command, when the loop over `msg_ready` has ended. -/
def handle (s : HostInterface) (msg : Nat) : HostInterface :=
  match (s.msgs msg).cmd with
  | .PCI_DMA_READ | .PCI_DMA_SQ_READ =>
    { s with host := .pci_dma_read msg (List.range (s.msgs msg).size.toNat) }
  | .PCI_DMA_WRITE | .PCI_DMA_CQ_WRITE => { s with host := .wait_data msg }
  | .PCI_ENABLE_MSIX_VECTOR =>
    { s with vectors := s.vectors ++ [(s.msgs msg).cqIntVector] }.finish (s.msgs msg)

/-- The loop ends when the device has set `data_status`. -/
def wait_data (s : HostInterface) (msg : Nat) : Option HostInterface := do
  let page ← getPageRegister (s.msgs msg).page_index
  if (s.pages page).data_status = .data_status_ready then
    some { s with host := .pci_dma_write msg (List.range (s.msgs msg).size.toNat) }
  else none

def host_data_ready (s : HostInterface) (msg : Nat) : Option HostInterface := do
  let page ← getPageRegister (s.msgs msg).page_index
  some ((s.setDataStatus page .data_status_ready).finish (s.msgs msg))

def host_data_used (s : HostInterface) (msg : Nat) : Option HostInterface := do
  let page ← getPageRegister (s.msgs msg).page_index
  some { s.setDataStatus page .data_status_used with host := .notify msg }

/-- The next step of `ssd_msg_check_thread`. -/
def hostStep (s : HostInterface) : Option HostInterface :=
  match s.host with
  | .idle => s.deQueueSSDMsg
  | .wait_msg msg => if (s.msgs msg).msg_ready then some (s.handle msg) else none
  | .pci_dma_read msg [] => s.host_data_ready msg
  | .wait_data msg => s.wait_data msg
  | .pci_dma_write msg [] => s.host_data_used msg
  | .notify msg => some ((s.notifyHost (s.msgs msg)).finish (s.msgs msg))
  | .pci_dma_read _ (_ :: _) | .pci_dma_write _ (_ :: _) => none

/-- A byte of `pci_dma_read`, from the host to the page register. -/
def readHostByte (s : HostInterface) (msg : Nat) (left : List Nat) (i : Nat) :
    Option HostInterface := do
  let page ← getPageRegister (s.msgs msg).page_index
  let a := (s.msgs msg).dma_addr.toNat + i
  if i ∈ left ∧ i < INTERFACE_DMA_PAGE_SIZE then
    some { s.fillPage page i (s.host_mem a) (s.msgs msg).number with
      host := .pci_dma_read msg (left.filter (· ≠ i)) }
  else none

/-- A byte of `pci_dma_write`, from the page register to the host. -/
def writeHostByte (s : HostInterface) (msg : Nat) (left : List Nat) (i : Nat) :
    Option HostInterface := do
  let page ← getPageRegister (s.msgs msg).page_index
  let a := (s.msgs msg).dma_addr.toNat + i
  if i ∈ left ∧ i < INTERFACE_DMA_PAGE_SIZE then
    some { s.readPage page i (s.msgs msg).number with
      host_mem := Function.update s.host_mem a ((s.pages page).data i)
      host := .pci_dma_write msg (left.filter (· ≠ i)) }
  else none

/-- A byte of the copy that the host thread is in. -/
def hostCopy (s : HostInterface) (i : Nat) : Option HostInterface :=
  match s.host with
  | .pci_dma_read msg left => s.readHostByte msg left i
  | .pci_dma_write msg left => s.writeHostByte msg left i
  | _ => none

end HostInterface

/-! ## The system -/

/-- The message of a command, as the host reads it. -/
def HostCmdReg.message (r : HostCmdReg) (number : Nat) : SsdMsg :=
  fillMsg r 1 ⟨r.cmd, 0, 0, 0, 0, 0, true, 0, number⟩

/-- The bytes that the command is to move: of the host for a read, of the SSD for a write. -/
def HostInterface.source (s : HostInterface) (r : HostCmdReg) : List UInt8 :=
  let msg := r.message 0
  if r.cmd.isRead then bytesAt s.host_mem msg.dma_addr.toNat msg.size.toNat
  else bytesAt s.ssd_mem msg.ssdAddr.toNat msg.size.toNat

/-- The firmware writes `cmd`, the other registers being set. -/
def HostInterface.issue (s : HostInterface) (r : HostCmdReg) : HostInterface :=
  { s with
    Registers := r
    device := if r.cmd.isDma then .enQueuePageRegister else .enQueueSSDMsg
    issued := s.issued ++ [⟨r, s.source r⟩] }

/-- A step of the device, of the host thread or of a copy, or a store into one of the two
memories by someone else. -/
inductive HostIfAction
  | issue (r : HostCmdReg)
  | device
  | event (k : Nat)
  | dma (k i : Nat)
  | host
  | host_copy (i : Nat)
  | host_store (a : Nat) (v : UInt8)
  | ssd_store (a : Nat) (v : UInt8)
  deriving DecidableEq

/-- One step. The simulator runs one routine at a time, so that a command and an event wait
for the end of the routine. -/
def hostIfStep (s : HostInterface) : HostIfAction → Option HostInterface
  | .issue r => if s.device = .idle then some (s.issue r) else none
  | .device => s.deviceStep
  | .event k => if s.device = .idle then s.eventStep k else none
  | .dma k i => if s.device = .idle then s.dmaStep k i else none
  | .host => s.hostStep
  | .host_copy i => s.hostCopy i
  | .host_store a v => some { s with host_mem := Function.update s.host_mem a v }
  | .ssd_store a v => some { s with ssd_mem := Function.update s.ssd_mem a v }

/-- After `connect_shared_memory` and `setup_shared_memory`: the ring is empty. -/
def initialHostIf (r : HostCmdReg) (msgs : Nat → SsdMsg) (pages : Nat → PageReg)
    (host_mem ssd_mem : Nat → UInt8) : HostInterface :=
  ⟨r, .HOST_ATTACHED, 0, 0, msgs, pages, .idle, [], .idle, host_mem, ssd_mem, [], [], [], [], [],
    []⟩

end S4Sim
