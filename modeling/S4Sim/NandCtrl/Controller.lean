-- The NAND controller of iSSDNandCtrl.hh: two channels with their chips and
-- waiting rooms, and one DMA engine between them. The latencies are left out,
-- so the events come in any order. A DMA moves its bytes one at a time, in any
-- order, and its call back comes after the last one.
import S4Sim.Ftl.Geometry
import S4Sim.Lib.Run
import S4Sim.Lib.Window
import S4Sim.NandCtrl.WaitingRoom

namespace S4Sim

open Windows

/-! ## The parameters -/

/-- The two channels of a controller. -/
inductive Chn
  | channel_0
  | channel_1
  deriving DecidableEq

def Chn.other : Chn → Chn
  | .channel_0 => .channel_1
  | .channel_1 => .channel_0

/-- The options of the build, and the index of the controller in it. A channel has an array
of 128 chips. -/
structure NandCtrlParams where
  geometry : Geometry
  NC_index : Nat
  channels : 2 * NC_index + 1 < geometry.nand_num_chn
  chips_le : geometry.dies_per_channel * geometry.nand_planes_per_die ≤ 128

namespace NandCtrlParams

variable (p : NandCtrlParams)

/-- `chn_0_index` and `chn_1_index`, as issd_fs_mcore.py counts them. -/
def chn_index : Chn → Nat
  | .channel_0 => 2 * p.NC_index
  | .channel_1 => 2 * p.NC_index + 1

/-- The number of chips of a channel, `chip_count`. -/
def planes_per_chn : Nat := p.geometry.dies_per_channel * p.geometry.nand_planes_per_die

def pages_per_chn : Nat := p.planes_per_chn * p.geometry.pages_per_plane

/-- The page of the image that `do_read` and `do_program` compute, in 32 bits. -/
def page_index (c : Chn) (chip block page : Nat) : Nat :=
  (p.chn_index c * p.pages_per_chn + chip * p.geometry.pages_per_plane +
    block * p.geometry.nand_pages_per_block + page) % 2 ^ 32

/-- Its offset in the image, `page * page_size`. Both factors have 32 bits, and so has
the product. -/
def page_offset (page : Nat) : Nat := page * p.geometry.nandPageBytes % 2 ^ 32

end NandCtrlParams

/-! ## Commands -/

/-- The registers of a channel that the firmware writes. -/
inductive NcReg
  | CHIP_SELECT_REG
  | CMD_PHASE_CMD_REG
  | ADDRESS_CYCLE_REG_1
  | ADDRESS_CYCLE_REG_2
  | DMA_PHASE_CMD_REG
  | DMA_RAM_PTR
  deriving DecidableEq

def READ_NAND : Nat := 0x80003000
def PROGRAM_NAND : Nat := 0x80001080
def ERASE_NAND : Nat := 0x8000D060
def READ_DMA : Nat := 0x00000001
def WRITE_DMA : Nat := 0x00000002

/-- `NC_Command`, with the index of the chip for the pointer. -/
structure NcCommand where
  data : Nat
  chip_enabled : Nat
  addr_1 : Nat
  addr_2 : Nat
  ram_ptr : Nat
  op : Nat
  deriving DecidableEq

namespace NcCommand

/-- A new command. The firmware writes a field before the controller reads it. -/
def new : NcCommand := ⟨0, 0, 0, 0, 0, 0⟩

def nand_start_cmd (cmd : NcCommand) : Nat := cmd.data % 256

def nand_end_cmd (cmd : NcCommand) : Nat := cmd.data / 256 % 256

/-- `address_cycle.cycle[i].byte`. -/
def cycle (cmd : NcCommand) (i : Nat) : Nat :=
  if i < 4 then cmd.addr_1 / 256 ^ i % 256 else cmd.addr_2 / 256 ^ (i - 4) % 256

end NcCommand

/-! ## Chips -/

structure NcChip where
  busy : Bool
  address_bytes : Nat → Nat
  address_count : Nat
  nand_page_reg : Nat → UInt8
  pending_write_cmd : Option NcCommand

/-- A chip with the image of the flash. -/
structure ChipMedia where
  chip : NcChip
  image : Nat → UInt8

namespace NcChip

def clear_address (chip : NcChip) : NcChip :=
  { chip with
    address_bytes := fun i => if i < 5 then 0 else chip.address_bytes i
    address_count := 0 }

def write_address_cycle (chip : NcChip) (byte : Nat) : NcChip :=
  { chip with
    address_bytes := Function.update chip.address_bytes chip.address_count byte
    address_count := chip.address_count + 1 }

/-- `decode_address_cycles_5`: the page and the block. -/
def row_page (chip : NcChip) : Nat := chip.address_bytes 0 + 256 * chip.address_bytes 1

def row_block (chip : NcChip) : Nat := chip.address_bytes 2 + 256 * chip.address_bytes 3

end NcChip

namespace ChipMedia

/-- Chip `k` of the channel reads the page of its address into its page register. -/
def do_read (p : NandCtrlParams) (c : Chn) (k : Nat) (m : ChipMedia) : ChipMedia :=
  let offset := p.page_offset (p.page_index c k m.chip.row_block m.chip.row_page)
  { m with
    chip :=
      { m.chip with
        busy := true
        nand_page_reg := writeWindow m.chip.nand_page_reg 0 p.geometry.nandPageBytes
          fun i => m.image (offset + i) } }

def do_program (p : NandCtrlParams) (c : Chn) (k : Nat) (m : ChipMedia) : ChipMedia :=
  let offset := p.page_offset (p.page_index c k m.chip.row_block m.chip.row_page)
  { chip := { m.chip with busy := true }
    image := writeWindow m.image offset p.geometry.nandPageBytes m.chip.nand_page_reg }

def do_erase (p : NandCtrlParams) (c : Chn) (k : Nat) (m : ChipMedia) : ChipMedia :=
  let offset := p.page_offset (p.page_index c k m.chip.row_block 0)
  { chip := { m.chip with busy := true }
    image := writeWindow m.image offset
      (p.geometry.nandPageBytes * p.geometry.nand_pages_per_block % 2 ^ 32) fun _ => 0 }

def write_command_cycle (p : NandCtrlParams) (c : Chn) (k nand_cmd : Nat) (m : ChipMedia) :
    ChipMedia :=
  if nand_cmd = 0x80 ∨ nand_cmd = 0x00 ∨ nand_cmd = 0x60 then
    { m with chip := m.chip.clear_address }
  else if nand_cmd = 0x30 then m.do_read p c k
  else if nand_cmd = 0x10 then m.do_program p c k
  else if nand_cmd = 0xD0 then m.do_erase p c k
  else m

/-- The five address cycles of a command. -/
def write_address_cycles (cmd : NcCommand) (m : ChipMedia) : ChipMedia :=
  { m with
    chip := ((((m.chip.write_address_cycle (cmd.cycle 0)).write_address_cycle
      (cmd.cycle 1)).write_address_cycle (cmd.cycle 2)).write_address_cycle
      (cmd.cycle 3)).write_address_cycle (cmd.cycle 4) }

end ChipMedia

/-! ## The controller -/

structure NcChannel where
  chips : Nat → NcChip
  new_cmd : NcCommand
  cmd_waiting_room : SimpleFiFo NcCommand
  active_nand_ops : Nat
  wait_dma_completion : Bool
  read_dma : Bool
  write_dma : Bool
  dma_ram_ptr : Nat
  dma_chip : Option Nat

/-- A `dmaRead` or a `dmaWrite` between the RAM and the page register of a chip, with the
bytes that it has not moved yet. -/
structure DmaTransfer where
  read : Bool
  ram_ptr : Nat
  chn : Chn
  chip : Nat
  left : List Nat
  deriving DecidableEq

inductive FlashOp
  | FLASH_READ
  | FLASH_PROGRAM
  deriving DecidableEq

/-- A page of a flash operation of the firmware, which it issues as a pair of commands. -/
structure FlashPage where
  op : FlashOp
  ppa : Ppa
  ssd_addr : Nat
  deriving DecidableEq

/-- The controller with its chip events and DMA transfers under way, the memories, and the
firmware: the pages of each channel that it has to issue, the register writes that are left
of the current one, and the pages that it has begun to issue. `crashed` stands for a null
pointer that is followed, or the panic of a wrong chip number. -/
structure NandCtrl where
  channel : Chn → NcChannel
  toggle : Bool
  current_chn : Option Chn
  chip_events : List (Chn × Nat)
  dmas : List DmaTransfer
  image : Nat → UInt8
  ram : Nat → UInt8
  crashed : Bool
  todo : Chn → List FlashPage
  writes : Chn → List (NcReg × Nat)
  issued : Chn → List FlashPage

namespace NandCtrl

variable (p : NandCtrlParams)

def setChannel (s : NandCtrl) (c : Chn) (ch : NcChannel) : NandCtrl :=
  { s with channel := Function.update s.channel c ch }

def setChip (s : NandCtrl) (c : Chn) (k : Nat) (chip : NcChip) : NandCtrl :=
  s.setChannel c { s.channel c with chips := Function.update (s.channel c).chips k chip }

/-- Runs the cycles on chip `k`. -/
def onChip (s : NandCtrl) (c : Chn) (k : Nat) (cycles : ChipMedia → ChipMedia) : NandCtrl :=
  let m := cycles ⟨(s.channel c).chips k, s.image⟩
  { s.setChip c k m.chip with image := m.image }

def incActive (s : NandCtrl) (c : Chn) : NandCtrl :=
  s.setChannel c { s.channel c with active_nand_ops := ((s.channel c).active_nand_ops + 1) % 256 }

def decActive (s : NandCtrl) (c : Chn) : NandCtrl :=
  s.setChannel c { s.channel c with active_nand_ops := ((s.channel c).active_nand_ops + 255) % 256 }

/-- Schedules an `EventCompletionScheduler_2`. -/
def schedule (s : NandCtrl) (c : Chn) (k : Nat) : NandCtrl :=
  { s with chip_events := s.chip_events ++ [(c, k)] }

/-- Starts a `dmaRead` or a `dmaWrite` of one page. -/
def startDma (s : NandCtrl) (read : Bool) (ram_ptr : Nat) (c : Chn) (k : Nat) : NandCtrl :=
  { s with dmas := s.dmas ++ [⟨read, ram_ptr, c, k, List.range p.geometry.nandPageBytes⟩] }

/-- The channel that `run_dma` picks when it tries `first` first. -/
def pick (s : NandCtrl) (first : Chn) : Option Chn :=
  if (s.channel first).wait_dma_completion then some first
  else if (s.channel first.other).wait_dma_completion then some first.other
  else s.current_chn

def run_dma (s : NandCtrl) : NandCtrl :=
  let s :=
    { s with
      current_chn := s.pick (if s.toggle then .channel_0 else .channel_1)
      toggle := !s.toggle }
  match s.current_chn with
  | none => s
  | some c =>
    match (s.channel c).dma_chip with
    | none => { s with crashed := true }
    | some k =>
      if (s.channel c).read_dma then s.startDma p true (s.channel c).dma_ram_ptr c k
      else if (s.channel c).write_dma then s.startDma p false (s.channel c).dma_ram_ptr c k
      else s

def process_dma (s : NandCtrl) : NandCtrl :=
  if s.current_chn.isSome then s else s.run_dma p

/-- The command at the front of the waiting room, for a chip that is not busy. -/
def process_cmd (s : NandCtrl) (c : Chn) (cmd : NcCommand) : NandCtrl :=
  let k := cmd.chip_enabled
  if cmd.op = READ_NAND ∨ cmd.op = ERASE_NAND then
    let s := s.onChip c k fun m =>
      ((m.write_command_cycle p c k cmd.nand_start_cmd).write_address_cycles
        cmd).write_command_cycle p c k cmd.nand_end_cmd
    (s.incActive c).schedule c k
  else if cmd.op = PROGRAM_NAND then
    let s := s.onChip c k fun m =>
      (m.write_command_cycle p c k cmd.nand_start_cmd).write_address_cycles cmd
    s.setChip c k { (s.channel c).chips k with pending_write_cmd := some cmd }
  else if cmd.op = READ_DMA ∨ cmd.op = WRITE_DMA then
    let s := s.incActive c
    let s := s.setChannel c
      { s.channel c with
        read_dma := if cmd.op = READ_DMA then true else (s.channel c).read_dma
        write_dma := if cmd.op = READ_DMA then (s.channel c).write_dma else true
        dma_ram_ptr := cmd.ram_ptr
        dma_chip := some k
        wait_dma_completion := true }
    s.process_dma p
  else s

def popCmd (s : NandCtrl) (c : Chn) : NandCtrl :=
  s.setChannel c
    { s.channel c with cmd_waiting_room := (s.channel c).cmd_waiting_room.pop_front }

/-- The recursion takes a command from the room each time. -/
def process_cmds : Nat → NandCtrl → Chn → NandCtrl
  | 0, s, _ => s
  | fuel + 1, s, c =>
    if (s.channel c).wait_dma_completion then s
    else
      match (s.channel c).cmd_waiting_room.front with
      | none => s
      | some cmd =>
        if ((s.channel c).chips cmd.chip_enabled).busy then s
        else process_cmds fuel ((s.process_cmd p c cmd).popCmd c) c

def process_waiting_room_cmd (s : NandCtrl) (c : Chn) : NandCtrl :=
  process_cmds p (s.channel c).cmd_waiting_room.items s c

/-! ## Events -/

/-- The second command cycle of a program, after its data is in the page register. -/
def programPending (s : NandCtrl) (c : Chn) (k : Nat) (cmd : NcCommand) : NandCtrl :=
  let s := s.setChip c k { (s.channel c).chips k with pending_write_cmd := none }
  let s := s.onChip c k (ChipMedia.write_command_cycle p c k cmd.nand_end_cmd)
  let s := s.setChannel c { s.channel c with read_dma := false }
  (s.incActive c).schedule c k

def dma_complete_call_back (s : NandCtrl) : NandCtrl :=
  match s.current_chn with
  | none => { s with crashed := true }
  | some c =>
    let s := s.decActive c
    let s :=
      if (s.channel c).read_dma then
        match (s.channel c).dma_chip with
        | none => { s with crashed := true }
        | some k =>
          match ((s.channel c).chips k).pending_write_cmd with
          | none => s
          | some cmd => s.programPending p c k cmd
      else if (s.channel c).write_dma then s.setChannel c { s.channel c with write_dma := false }
      else s
    let s := { s with current_chn := none }
    let s := s.setChannel c
      { s.channel c with dma_chip := none, dma_ram_ptr := 0, wait_dma_completion := false }
    (s.run_dma p).process_waiting_room_cmd p c

def operation_complete_call_back (s : NandCtrl) (c : Chn) (k : Nat) : NandCtrl :=
  let s := s.decActive c
  let s := s.setChip c k { (s.channel c).chips k with busy := false }
  s.process_waiting_room_cmd p c

/-- One byte of a DMA, between the RAM and the page register. -/
def moveByte (s : NandCtrl) (d : DmaTransfer) (i : Nat) : NandCtrl :=
  if d.read then
    let chip := (s.channel d.chn).chips d.chip
    s.setChip d.chn d.chip
      { chip with nand_page_reg := Function.update chip.nand_page_reg i (s.ram (d.ram_ptr + i)) }
  else
    { s with
      ram := Function.update s.ram (d.ram_ptr + i)
        (((s.channel d.chn).chips d.chip).nand_page_reg i) }

/-! ## The registers -/

/-- Puts the new command into the waiting room with its `op`. The room is served at once when
it was empty. -/
def pushCmd (s : NandCtrl) (c : Chn) (cmd : NcCommand) : NandCtrl :=
  let room := (s.channel c).cmd_waiting_room
  let s := s.setChannel c { s.channel c with cmd_waiting_room := room.push cmd }
  let s := if room.isEmpty then s.process_waiting_room_cmd p c else s
  s.setChannel c { s.channel c with new_cmd := .new }

/-- A write to a register of a channel. -/
def write (s : NandCtrl) (c : Chn) (r : NcReg) (data : Nat) : NandCtrl :=
  let cmd := (s.channel c).new_cmd
  match r with
  | .CHIP_SELECT_REG =>
    if p.planes_per_chn < data then { s with crashed := true }
    else s.setChannel c { s.channel c with new_cmd := { cmd with chip_enabled := data } }
  | .ADDRESS_CYCLE_REG_1 =>
    s.setChannel c { s.channel c with new_cmd := { cmd with addr_1 := data } }
  | .ADDRESS_CYCLE_REG_2 =>
    s.setChannel c { s.channel c with new_cmd := { cmd with addr_2 := data } }
  | .DMA_RAM_PTR => s.setChannel c { s.channel c with new_cmd := { cmd with ram_ptr := data } }
  | .CMD_PHASE_CMD_REG =>
    s.pushCmd p c { cmd with data := data, op := data % 0x10000 + 0x80000000 }
  | .DMA_PHASE_CMD_REG => s.pushCmd p c { cmd with data := data, op := data }

/-- A read of `ACTIVE_OPERATION_COUNT`. -/
def activeOperationCount (s : NandCtrl) (c : Chn) : Nat :=
  (s.channel c).active_nand_ops + (s.channel c).cmd_waiting_room.items

end NandCtrl

/-! ## The firmware -/

/-- The index of the chip, of 32 bits. -/
def chip_index (g : Geometry) (x : Ppa) : Nat := x.die * g.nand_planes_per_die + x.plane

/-- `addr_cycle.addr.addr_1`: the page and the block, of 16 bits each. -/
def addr_1 (x : Ppa) : Nat := x.page % 65536 + 65536 * (x.block % 65536)

/-- The register writes of one page in `__do_sync_flash_read` and in
`__do_sync_flash_program`. -/
def pageWrites (g : Geometry) (x : FlashPage) : List (NcReg × Nat) :=
  [(.CHIP_SELECT_REG, chip_index g x.ppa),
    (.ADDRESS_CYCLE_REG_1, addr_1 x.ppa),
    (.ADDRESS_CYCLE_REG_2, 0),
    (.CMD_PHASE_CMD_REG, if x.op = .FLASH_READ then READ_NAND else PROGRAM_NAND),
    (.CHIP_SELECT_REG, chip_index g x.ppa),
    (.DMA_RAM_PTR, x.ssd_addr),
    (.DMA_PHASE_CMD_REG, if x.op = .FLASH_READ then WRITE_DMA else READ_DMA)]

def NcReg.pushes : NcReg → Bool
  | .CMD_PHASE_CMD_REG | .DMA_PHASE_CMD_REG => true
  | _ => false

/-! ## Steps -/

inductive NandAction
  | nextPage (c : Chn)
  | registerWrite (c : Chn)
  | moveByte (n i : Nat)
  | dmaComplete (n : Nat)
  | chipComplete (c : Chn) (k : Nat)
  deriving DecidableEq

namespace NandCtrl

variable (p : NandCtrlParams)

/-- The loop of the firmware takes the next page of the channel. -/
def nextPage (s : NandCtrl) (c : Chn) : Option NandCtrl :=
  match s.writes c, s.todo c with
  | [], x :: rest =>
    some
      { s with
        todo := Function.update s.todo c rest
        writes := Function.update s.writes c (pageWrites p.geometry x)
        issued := Function.update s.issued c (s.issued c ++ [x]) }
  | _, _ => none

/-- The next register write of the page. No more than 1023 commands wait on a channel. -/
def registerWrite (s : NandCtrl) (c : Chn) : Option NandCtrl :=
  match s.writes c with
  | [] => none
  | (r, data) :: rest =>
    if r.pushes ∧ 1023 ≤ (s.channel c).cmd_waiting_room.items then none
    else some (write p { s with writes := Function.update s.writes c rest } c r data)

def moveStep (s : NandCtrl) (n i : Nat) : Option NandCtrl :=
  match s.dmas[n]? with
  | none => none
  | some d =>
    if i ∈ d.left then
      some { s.moveByte d i with dmas := s.dmas.set n { d with left := d.left.erase i } }
    else none

def dmaCompleteStep (s : NandCtrl) (n : Nat) : Option NandCtrl :=
  match s.dmas[n]? with
  | none => none
  | some d =>
    if d.left = [] then some (dma_complete_call_back p { s with dmas := s.dmas.eraseIdx n })
    else none

def chipCompleteStep (s : NandCtrl) (c : Chn) (k : Nat) : Option NandCtrl :=
  if (c, k) ∈ s.chip_events then
    some (operation_complete_call_back p { s with chip_events := s.chip_events.erase (c, k) } c k)
  else none

end NandCtrl

/-- One step of the firmware or of an event. A crash stops the simulator. -/
def nandStep (p : NandCtrlParams) (s : NandCtrl) (a : NandAction) : Option NandCtrl :=
  if s.crashed then none
  else
    match a with
    | .nextPage c => s.nextPage p c
    | .registerWrite c => s.registerWrite p c
    | .moveByte n i => s.moveStep n i
    | .dmaComplete n => s.dmaCompleteStep p n
    | .chipComplete c k => s.chipCompleteStep p c k

/-- The controller after its constructor, with the pages that the firmware will issue. The
constructor does not set `toggle`, and the page registers hold any bytes. -/
def initialNand (pages : Chn → List FlashPage) (toggle : Bool) (image ram : Nat → UInt8)
    (regs : Chn → Nat → Nat → UInt8) : NandCtrl where
  channel c :=
    { chips := fun k => ⟨false, fun _ => 0, 0, regs c k, none⟩
      new_cmd := .new
      cmd_waiting_room := ⟨⟨0, 0, 1024, fun _ => .new⟩, 0, true, false⟩
      active_nand_ops := 0
      wait_dma_completion := false
      read_dma := false
      write_dma := false
      dma_ram_ptr := 0
      dma_chip := none }
  toggle := toggle
  current_chn := none
  chip_events := []
  dmas := []
  image := image
  ram := ram
  crashed := false
  todo := pages
  writes _ := []
  issued _ := []

end S4Sim
