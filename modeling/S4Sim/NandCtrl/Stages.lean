-- What a channel of the controller is doing with the pages it was given: the
-- pages that are done, the stage of the current one, and the commands that
-- wait. `Tracked` ties this to the flags and the chips of the channel.
import S4Sim.NandCtrl.Controller
import Mathlib.Data.List.Nodup

namespace S4Sim

open Rings Windows

/-! ## The commands of a page -/

/-- The first command of the pair, as it stands in the waiting room. -/
def cmdPhase (g : Geometry) (x : FlashPage) : NcCommand where
  data := if x.op = .FLASH_READ then READ_NAND else PROGRAM_NAND
  chip_enabled := chip_index g x.ppa
  addr_1 := addr_1 x.ppa
  addr_2 := 0
  ram_ptr := 0
  op := if x.op = .FLASH_READ then READ_NAND else PROGRAM_NAND

def dmaPhase (g : Geometry) (x : FlashPage) : NcCommand where
  data := if x.op = .FLASH_READ then WRITE_DMA else READ_DMA
  chip_enabled := chip_index g x.ppa
  addr_1 := 0
  addr_2 := 0
  ram_ptr := x.ssd_addr
  op := if x.op = .FLASH_READ then WRITE_DMA else READ_DMA

def commands (g : Geometry) (x : FlashPage) : List NcCommand := [cmdPhase g x, dmaPhase g x]

/-- The commands that register writes push, when `cmd` is the new command before them. -/
def sends (cmd : NcCommand) : List (NcReg × Nat) → List NcCommand
  | [] => []
  | (.CHIP_SELECT_REG, data) :: rest => sends { cmd with chip_enabled := data } rest
  | (.ADDRESS_CYCLE_REG_1, data) :: rest => sends { cmd with addr_1 := data } rest
  | (.ADDRESS_CYCLE_REG_2, data) :: rest => sends { cmd with addr_2 := data } rest
  | (.DMA_RAM_PTR, data) :: rest => sends { cmd with ram_ptr := data } rest
  | (.CMD_PHASE_CMD_REG, data) :: rest =>
    { cmd with data := data, op := data % 0x10000 + 0x80000000 } :: sends .new rest
  | (.DMA_PHASE_CMD_REG, data) :: rest => { cmd with data := data, op := data } :: sends .new rest

theorem sends_pageWrites (g : Geometry) (x : FlashPage) :
    sends .new (pageWrites g x) = commands g x := by
  cases hop : x.op with
  | FLASH_READ => simp [pageWrites, sends, commands, cmdPhase, dmaPhase, hop, NcCommand.new,
      READ_NAND]
  | FLASH_PROGRAM => simp [pageWrites, sends, commands, cmdPhase, dmaPhase, hop, NcCommand.new,
      PROGRAM_NAND]

/-! ## The cycles of a chip -/

/-- The bytes of the page and of the block. -/
theorem NcCommand.cycles_addr_1 {cmd : NcCommand} {x : Ppa} (h : cmd.addr_1 = S4Sim.addr_1 x) :
    cmd.cycle 0 + 256 * cmd.cycle 1 = x.page % 65536 ∧
      cmd.cycle 2 + 256 * cmd.cycle 3 = x.block % 65536 := by
  have hpage := Nat.mod_lt x.page (show 0 < 65536 by decide)
  have hblock := Nat.mod_lt x.block (show 0 < 65536 by decide)
  constructor
  · simp [cycle, h, S4Sim.addr_1]
    omega
  · simp [cycle, h, S4Sim.addr_1]
    omega

namespace ChipMedia

variable {p : NandCtrlParams} {c : Chn} {k : Nat} {m : ChipMedia} {cmd : NcCommand}
  {g : Geometry} {x : FlashPage}

/-- The address cycles after the start command. -/
def addressed (m : ChipMedia) (cmd : NcCommand) : ChipMedia :=
  { m with chip := m.chip.clear_address }.write_address_cycles cmd

@[simp] theorem addressed_image : (m.addressed cmd).image = m.image := rfl

@[simp] theorem addressed_busy : (m.addressed cmd).chip.busy = m.chip.busy := rfl

@[simp] theorem addressed_reg : (m.addressed cmd).chip.nand_page_reg = m.chip.nand_page_reg := rfl

@[simp] theorem addressed_pending :
    (m.addressed cmd).chip.pending_write_cmd = m.chip.pending_write_cmd := rfl

theorem addressed_row : (m.addressed cmd).chip.row_page = cmd.cycle 0 + 256 * cmd.cycle 1 ∧
    (m.addressed cmd).chip.row_block = cmd.cycle 2 + 256 * cmd.cycle 3 := by
  simp [addressed, write_address_cycles, NcChip.write_address_cycle, NcChip.clear_address,
    NcChip.row_page, NcChip.row_block, Function.update]

/-- The chip finds the page and the block of the firmware again. -/
theorem addressed_decodes : (m.addressed (cmdPhase g x)).chip.row_page = x.ppa.page % 65536 ∧
    (m.addressed (cmdPhase g x)).chip.row_block = x.ppa.block % 65536 := by
  rw [addressed_row.1, addressed_row.2]
  exact NcCommand.cycles_addr_1 rfl

theorem start_cycles (hop : x.op = .FLASH_READ ∨ x.op = .FLASH_PROGRAM) :
    (m.write_command_cycle p c k (cmdPhase g x).nand_start_cmd).write_address_cycles
      (cmdPhase g x) = m.addressed (cmdPhase g x) := by
  have hstart : (cmdPhase g x).nand_start_cmd = 0x80 ∨ (cmdPhase g x).nand_start_cmd = 0x00 := by
    rcases hop with hop | hop
    · right
      simp [cmdPhase, NcCommand.nand_start_cmd, hop, READ_NAND]
    · left
      simp [cmdPhase, NcCommand.nand_start_cmd, hop, PROGRAM_NAND]
  unfold write_command_cycle
  rw [if_pos (by omega)]
  rfl

theorem read_end (hop : x.op = .FLASH_READ) :
    m.write_command_cycle p c k (cmdPhase g x).nand_end_cmd = m.do_read p c k := by
  simp [write_command_cycle, cmdPhase, NcCommand.nand_end_cmd, hop, READ_NAND]

theorem program_end (hop : x.op = .FLASH_PROGRAM) :
    m.write_command_cycle p c k (cmdPhase g x).nand_end_cmd = m.do_program p c k := by
  simp [write_command_cycle, cmdPhase, NcCommand.nand_end_cmd, hop, PROGRAM_NAND]

end ChipMedia

/-! ## Stages -/

/-- Where a channel is in its current page: the READ_NAND is in the chip, the PROGRAM_NAND is
in the chip, or the page waits for its DMA. -/
inductive ChnStage
  | idle
  | sensed (x : FlashPage)
  | addressed (x : FlashPage)
  | toRam (x : FlashPage)
  | fromRam (x : FlashPage)
  deriving DecidableEq

namespace ChnStage

@[simp] def pages : ChnStage → List FlashPage
  | idle => []
  | sensed x | addressed x | toRam x | fromRam x => [x]

/-- The commands of the current page that the channel has not taken. -/
@[simp] def rest (g : Geometry) : ChnStage → List NcCommand
  | sensed x | addressed x => [dmaPhase g x]
  | idle | toRam _ | fromRam _ => []

@[simp] def waits : ChnStage → Bool
  | toRam _ | fromRam _ => true
  | idle | sensed _ | addressed _ => false

@[simp] def pending (g : Geometry) (k : Nat) : ChnStage → Option NcCommand
  | addressed x | fromRam x => if k = chip_index g x.ppa then some (cmdPhase g x) else none
  | idle | sensed _ | toRam _ => none

/-- The chip of a page that is being programmed, or that a DMA reads, is not busy. -/
@[simp] def calm (g : Geometry) : ChnStage → Option Nat
  | addressed x | toRam x | fromRam x => some (chip_index g x.ppa)
  | idle | sensed _ => none

/-- The operation of the page is the one of the stage. -/
@[simp] def Fits : ChnStage → Prop
  | idle => True
  | sensed x | toRam x => x.op = .FLASH_READ
  | addressed x | fromRam x => x.op = .FLASH_PROGRAM

/-- The transfer that the stage asks the DMA engine for. -/
@[simp] def Asks (g : Geometry) (d : DmaTransfer) : ChnStage → Prop
  | toRam x => d.read = false ∧ d.ram_ptr = x.ssd_addr ∧ d.chip = chip_index g x.ppa
  | fromRam x => d.read = true ∧ d.ram_ptr = x.ssd_addr ∧ d.chip = chip_index g x.ppa
  | idle | sensed _ | addressed _ => False

end ChnStage

/-- What a channel has done with the pages issued to it. -/
structure Track where
  done : List FlashPage
  stage : ChnStage
  later : List FlashPage
  room : List NcCommand

/-- The flags and the chips of a channel, its chip events and what the firmware has issued to
it agree with the track. `unsent` are the commands that the firmware has still to push for the
pages it has issued. -/
structure Tracked (g : Geometry) (ch : NcChannel) (events : List Nat)
    (unsent : List NcCommand) (issued : List FlashPage) (t : Track) : Prop where
  issued : issued = t.done ++ t.stage.pages ++ t.later
  room : ch.cmd_waiting_room.Holds t.room
  size : ch.cmd_waiting_room.entries.size = 1024
  coming : t.room ++ unsent = t.stage.rest g ++ t.later.flatMap (commands g)
  fits : t.stage.Fits
  wait : ch.wait_dma_completion = t.stage.waits
  read_dma : ch.read_dma = true ↔ ∃ x, t.stage = .fromRam x
  write_dma : ch.write_dma = true ↔ ∃ x, t.stage = .toRam x
  dma : ∀ x, t.stage = .toRam x ∨ t.stage = .fromRam x →
    ch.dma_chip = some (chip_index g x.ppa) ∧ ch.dma_ram_ptr = x.ssd_addr
  pending : ∀ k, (ch.chips k).pending_write_cmd = t.stage.pending g k
  address : ∀ x, t.stage = .addressed x ∨ t.stage = .fromRam x →
    (ch.chips (chip_index g x.ppa)).row_page = x.ppa.page % 65536 ∧
      (ch.chips (chip_index g x.ppa)).row_block = x.ppa.block % 65536
  calm : ∀ k, t.stage.calm g = some k → (ch.chips k).busy = false
  busy : ∀ k, (ch.chips k).busy = true ↔ k ∈ events
  once : events.Nodup
  active : ch.active_nand_ops = (events.length + t.stage.waits.toNat) % 256

/-- A channel that is settled waits for a DMA or for a busy chip, or has nothing to do. -/
def ChnSettled (ch : NcChannel) (t : Track) : Prop :=
  t.stage.waits = false → ∀ cmd l, t.room = cmd :: l → (ch.chips cmd.chip_enabled).busy = true

end S4Sim
