-- The bytes of the flash image behind a physical page address. The firmware
-- writes the address to the registers of a channel, the chip gets it in five
-- address cycles, and `do_read` and `do_program` count the place of the page in
-- 32 bits. The geometry has the widths of its parameters, no more.
import S4Sim.Lib.Digits
import S4Sim.NandCtrl.Stages

namespace S4Sim

open Digits Windows

/-! ## The geometry -/

/-- The parameters of `iSSDNandCtrl`, which the firmware is built with as well. The page size is
`1 << DS` in an `unsigned int`. -/
structure FlashParams where
  numChannel : Nat
  numPackages : Nat
  numDies : Nat
  numPlanes : Nat
  numBlocks : Nat
  numPages : Nat
  DS : Nat
  numChannel_even : numChannel % 2 = 0
  numChannel_le : numChannel ≤ 64
  numPackages_lt : numPackages < 2 ^ 8
  numDies_lt : numDies < 2 ^ 16
  numPlanes_lt : numPlanes < 2 ^ 32
  numBlocks_lt : numBlocks < 2 ^ 32
  numPages_lt : numPages < 2 ^ 32
  DS_lt : DS < 32

namespace FlashParams

variable (g : FlashParams)

def page_size : Nat := 2 ^ g.DS

/-- `DIES_PER_CHANNEL`. -/
def dies_per_channel : Nat := g.numPackages * g.numDies

/-- `PLANES_PER_CHANNEL`, the chips that a channel should have. -/
def planes_per_channel : Nat := g.dies_per_channel * g.numPlanes

/-- `TOTAL_NUM_OF_PAGES`. -/
def total_num_of_pages : Nat :=
  g.numChannel * g.numPackages * g.numDies * g.numPlanes * g.numBlocks * g.numPages

/-- The address is one of the array. -/
structure HasPage (x : Ppa) : Prop where
  chn : x.chn < g.numChannel
  die : x.die < g.dies_per_channel
  plane : x.plane < g.numPlanes
  block : x.block < g.numBlocks
  page : x.page < g.numPages

end FlashParams

/-! ## The registers in the address space -/

def CHANNEL_0_BASE_ADDR : Nat := 1024
def CHANNEL_1_BASE_ADDR : Nat := 2048

/-- `get_dev_address(DEV_NAND_CTRL)`. -/
def DEV_NAND_CTRL_ADDRESS : Nat := 0x2d108000

/-- The offset of a register in its channel. -/
def NcReg.offset : NcReg → Nat
  | .CHIP_SELECT_REG => 0
  | .CMD_PHASE_CMD_REG => 4
  | .ADDRESS_CYCLE_REG_1 => 8
  | .ADDRESS_CYCLE_REG_2 => 12
  | .DMA_PHASE_CMD_REG => 16
  | .DMA_RAM_PTR => 20

/-- The register at an offset. -/
def NcReg.ofOffset (offset_2 : Nat) : Option NcReg :=
  if offset_2 = 0 then some .CHIP_SELECT_REG
  else if offset_2 = 8 then some .ADDRESS_CYCLE_REG_1
  else if offset_2 = 12 then some .ADDRESS_CYCLE_REG_2
  else if offset_2 = 20 then some .DMA_RAM_PTR
  else if offset_2 = 4 then some .CMD_PHASE_CMD_REG
  else if offset_2 = 16 then some .DMA_PHASE_CMD_REG
  else none

@[simp] theorem NcReg.ofOffset_offset (r : NcReg) : NcReg.ofOffset r.offset = some r := by
  cases r <;> rfl

theorem NcReg.offset_le (r : NcReg) : r.offset ≤ 20 := by
  cases r <;> decide

/-! ## The firmware -/

/-- The tables of `init_nand_io_module` and its `ichn`. -/
structure NandIoTables where
  chn_bass_addr : Nat → Nat
  ichn : Nat

/-- The entries of controller `ictrl`. -/
def NandIoTables.addCtrl (t : NandIoTables) (ictrl : Nat) : NandIoTables :=
  let ctrl_base_addr := DEV_NAND_CTRL_ADDRESS + ictrl * 0x1000
  { chn_bass_addr :=
      Function.update
        (Function.update t.chn_bass_addr t.ichn (ctrl_base_addr + CHANNEL_0_BASE_ADDR))
        (t.ichn + 1) (ctrl_base_addr + CHANNEL_1_BASE_ADDR)
    ichn := t.ichn + 2 }

/-- The loop over the controllers. The tables are 0 before. -/
def init_nand_io_module (num_nand_ctrls : Nat) : NandIoTables :=
  (List.range num_nand_ctrls).foldl NandIoTables.addCtrl ⟨fun _ => 0, 0⟩

/-- An address as `ppa_t` holds it. -/
def Ppa.stored (x : Ppa) : Ppa :=
  ⟨x.chn % 256, x.die % 256, x.plane % 256, x.block % 65536, x.page % 65536⟩

namespace FlashParams

variable (g : FlashParams)

/-- `NUM_NAND_CTRLS`. -/
def num_nand_ctrls : Nat := g.numChannel / 2

def chn_bass_addr (ichn : Nat) : Nat := (init_nand_io_module g.num_nand_ctrls).chn_bass_addr ichn

def chip_index (x : Ppa) : Nat := (x.die * g.numPlanes + x.plane) % 2 ^ 32

/-- The register writes of `__do_sync_flash_read` and of `__do_sync_flash_program` for one page,
each with its address on the bus. -/
def registerWrites (x : FlashPage) : List (Nat × Nat) :=
  let ppa := x.ppa.stored
  let base_addr := g.chn_bass_addr ppa.chn
  let chip_index := g.chip_index ppa
  [(base_addr + NcReg.CHIP_SELECT_REG.offset, chip_index),
    (base_addr + NcReg.ADDRESS_CYCLE_REG_1.offset, addr_1 ppa),
    (base_addr + NcReg.ADDRESS_CYCLE_REG_2.offset, 0),
    (base_addr + NcReg.CMD_PHASE_CMD_REG.offset,
      if x.op = .FLASH_READ then READ_NAND else PROGRAM_NAND),
    (base_addr + NcReg.CHIP_SELECT_REG.offset, chip_index),
    (base_addr + NcReg.DMA_RAM_PTR.offset, x.ssd_addr % 2 ^ 32),
    (base_addr + NcReg.DMA_PHASE_CMD_REG.offset,
      if x.op = .FLASH_READ then WRITE_DMA else READ_DMA)]

/-! ## The controllers -/

/-- The controller, the channel and the offset in it behind an address. Controller `nc` has the
0x1000 bytes from `DEV_NAND_CTRL_ADDRESS + nc * 0x1000`. -/
def busTarget (addr : Nat) : Option (Nat × Chn × Nat) :=
  let nc := (addr - DEV_NAND_CTRL_ADDRESS) / 0x1000
  let offset := (addr - DEV_NAND_CTRL_ADDRESS) % 0x1000
  if addr < DEV_NAND_CTRL_ADDRESS ∨ g.num_nand_ctrls ≤ nc then none
  else if CHANNEL_1_BASE_ADDR ≤ offset then some (nc, .channel_1, offset - CHANNEL_1_BASE_ADDR)
  else if CHANNEL_0_BASE_ADDR ≤ offset then some (nc, .channel_0, offset - CHANNEL_0_BASE_ADDR)
  else none

/-- `chip_count`, a product of 32 bits. -/
def chip_count : Nat := g.numPackages * g.numDies * g.numPlanes % 2 ^ 32

/-- The chip that `chips[data]` points to. The constructor sets the first `chip_count` entries
of an array of 128; there is no chip behind them, and a larger count writes past the array. -/
def chips (data : Nat) : Option Nat :=
  if g.chip_count ≤ 128 ∧ data < g.chip_count then some data else none

end FlashParams

/-- The new commands of all channels, and the commands that were put into the waiting rooms. -/
structure NcCommands where
  new_cmd : Nat → Chn → NcCommand
  pushed : List (Nat × Chn × NcCommand)

namespace NcCommands

variable (g : FlashParams)

def setNew (s : NcCommands) (nc : Nat) (c : Chn) (cmd : NcCommand) : NcCommands :=
  { s with new_cmd := Function.update s.new_cmd nc (Function.update (s.new_cmd nc) c cmd) }

def push (s : NcCommands) (nc : Nat) (c : Chn) (cmd : NcCommand) : NcCommands :=
  { s.setNew nc c .new with pushed := s.pushed ++ [(nc, c, cmd)] }

/-- A write to a register of a channel. -/
def writeRegister (s : NcCommands) (nc : Nat) (c : Chn) (r : NcReg) (data : Nat) :
    Option NcCommands :=
  let cmd := s.new_cmd nc c
  match r with
  | .CHIP_SELECT_REG => (g.chips data).map fun k => s.setNew nc c { cmd with chip_enabled := k }
  | .ADDRESS_CYCLE_REG_1 => some (s.setNew nc c { cmd with addr_1 := data })
  | .ADDRESS_CYCLE_REG_2 => some (s.setNew nc c { cmd with addr_2 := data })
  | .DMA_RAM_PTR => some (s.setNew nc c { cmd with ram_ptr := data })
  | .CMD_PHASE_CMD_REG =>
    some (s.push nc c { cmd with data := data, op := data % 0x10000 + 0x80000000 })
  | .DMA_PHASE_CMD_REG => some (s.push nc c { cmd with data := data, op := data })

/-- A write on the bus. -/
def write (s : NcCommands) (w : Nat × Nat) : Option NcCommands :=
  (g.busTarget w.1).bind fun (nc, c, offset_2) =>
    (NcReg.ofOffset offset_2).bind fun r => s.writeRegister g nc c r w.2

end NcCommands

/-! ## The chips -/

namespace FlashParams

variable (g : FlashParams)

/-- The channel of the array, as issd_fs_mcore.py counts them. -/
def chn_index (nc : Nat) : Chn → Nat
  | .channel_0 => 2 * nc
  | .channel_1 => 2 * nc + 1

/-- The offset of the page of the address cycles, as `do_read` and `do_program` compute it. All
the numbers have 32 bits. -/
def image_offset (chn_index chip_index row_block row_page : Nat) : Nat :=
  let planes_per_chn := g.numPackages * g.numDies * g.numPlanes % 2 ^ 32
  let pages_per_plane := g.numBlocks * g.numPages % 2 ^ 32
  let pages_per_chn := planes_per_chn * pages_per_plane % 2 ^ 32
  let page := (chn_index * pages_per_chn % 2 ^ 32 + chip_index * pages_per_plane % 2 ^ 32 +
    row_block * g.numPages % 2 ^ 32 + row_page) % 2 ^ 32
  page * g.page_size % 2 ^ 32

end FlashParams

namespace NcChip

variable (g : FlashParams)

/-- The range of the image that the end cycle of a read or of a program copies: its offset and
its bytes. -/
def commandRange (chn_index chip_index nand_cmd : Nat) (chip : NcChip) : Option (Nat × Nat) :=
  if nand_cmd = 0x30 ∨ nand_cmd = 0x10 then
    some (g.image_offset chn_index chip_index chip.row_block chip.row_page, g.page_size)
  else none

def startCycle (nand_cmd : Nat) (chip : NcChip) : NcChip :=
  if nand_cmd = 0x80 ∨ nand_cmd = 0x00 ∨ nand_cmd = 0x60 then chip.clear_address else chip

def addressCycles (cmd : NcCommand) (chip : NcChip) : NcChip :=
  ((((chip.write_address_cycle (cmd.cycle 0)).write_address_cycle
    (cmd.cycle 1)).write_address_cycle (cmd.cycle 2)).write_address_cycle
    (cmd.cycle 3)).write_address_cycle (cmd.cycle 4)

/-- The range of a command. The end cycle of a program comes after its data, with the same
address in the chip. -/
def range (chn_index : Nat) (cmd : NcCommand) (chip : NcChip) : Option (Nat × Nat) :=
  ((chip.startCycle cmd.nand_start_cmd).addressCycles cmd).commandRange g chn_index
    cmd.chip_enabled cmd.nand_end_cmd

end NcChip

/-- A page operation that the firmware issues, with the new commands and the chip as earlier
operations left them. -/
structure PageAccess where
  page : FlashPage
  new_cmd : Nat → Chn → NcCommand
  chip : NcChip

namespace PageAccess

/-- The range of the image that the operation reads or writes. There is none without a chip. -/
def range (g : FlashParams) (a : PageAccess) : Option (Nat × Nat) :=
  ((g.registerWrites a.page).foldlM (NcCommands.write g) ⟨a.new_cmd, []⟩).bind fun s =>
    s.pushed.head?.bind fun (nc, c, cmd) => a.chip.range g (FlashParams.chn_index nc c) cmd

end PageAccess

/-! ## The way of an address -/

/-- The channel of its controller that has an index. -/
def Chn.ofIndex (ichn : Nat) : Chn := if ichn % 2 = 0 then .channel_0 else .channel_1

theorem init_nand_io_module_tables (n : Nat) : (init_nand_io_module n).ichn = 2 * n ∧
    ∀ k < n, (init_nand_io_module n).chn_bass_addr (2 * k) =
        DEV_NAND_CTRL_ADDRESS + k * 0x1000 + CHANNEL_0_BASE_ADDR ∧
      (init_nand_io_module n).chn_bass_addr (2 * k + 1) =
        DEV_NAND_CTRL_ADDRESS + k * 0x1000 + CHANNEL_1_BASE_ADDR := by
  induction n with
  | zero => exact ⟨rfl, fun k hk => absurd hk (Nat.not_lt_zero k)⟩
  | succ n ih =>
    obtain ⟨hichn, htable⟩ := ih
    have hstep : init_nand_io_module (n + 1) = (init_nand_io_module n).addCtrl n := by
      unfold init_nand_io_module
      rw [List.range_succ, List.foldl_append, List.foldl_cons, List.foldl_nil]
    rw [hstep]
    refine ⟨congrArg (· + 2) hichn, fun k hk => ?_⟩
    simp only [NandIoTables.addCtrl, hichn, Function.update_apply]
    rcases Nat.lt_succ_iff_lt_or_eq.mp hk with hlt | rfl
    · rw [if_neg (by omega), if_neg (by omega), if_neg (by omega), if_neg (by omega)]
      exact htable k hlt
    · rw [if_neg (by omega), if_pos rfl, if_pos rfl]
      exact ⟨rfl, rfl⟩

section Way

variable {g : FlashParams} {x : Ppa}

theorem chn_index_ofIndex (ichn : Nat) :
    FlashParams.chn_index (ichn / 2) (Chn.ofIndex ichn) = ichn := by
  unfold Chn.ofIndex
  split
  · exact Nat.mul_div_cancel' (Nat.dvd_of_mod_eq_zero ‹_›)
  · simp only [FlashParams.chn_index]
    omega

theorem busTarget_eq {nc d : Nat} (hnc : nc < g.num_nand_ctrls) (hd : d < 0x1000) :
    g.busTarget (DEV_NAND_CTRL_ADDRESS + nc * 0x1000 + d) =
      if CHANNEL_1_BASE_ADDR ≤ d then some (nc, .channel_1, d - CHANNEL_1_BASE_ADDR)
      else if CHANNEL_0_BASE_ADDR ≤ d then some (nc, .channel_0, d - CHANNEL_0_BASE_ADDR)
      else none := by
  have hdiv : (DEV_NAND_CTRL_ADDRESS + nc * 0x1000 + d - DEV_NAND_CTRL_ADDRESS) / 0x1000 = nc := by
    omega
  have hmod : (DEV_NAND_CTRL_ADDRESS + nc * 0x1000 + d - DEV_NAND_CTRL_ADDRESS) % 0x1000 = d := by
    omega
  unfold FlashParams.busTarget
  rw [hdiv, hmod, if_neg (by omega)]

/-- The registers of a channel are those that its controller counts with its index. -/
theorem busTarget_chn_bass_addr {ichn : Nat} (h : ichn < g.numChannel) (r : NcReg) :
    g.busTarget (g.chn_bass_addr ichn + r.offset) =
      some (ichn / 2, Chn.ofIndex ichn, r.offset) := by
  have heven := g.numChannel_even
  have hoffset := r.offset_le
  have hctrl : ichn / 2 < g.num_nand_ctrls := by
    unfold FlashParams.num_nand_ctrls
    omega
  obtain ⟨hzero, hone⟩ := (init_nand_io_module_tables g.num_nand_ctrls).2 _ hctrl
  unfold FlashParams.chn_bass_addr Chn.ofIndex
  rcases Nat.mod_two_eq_zero_or_one ichn with hmod | hmod
  · have hindex : 2 * (ichn / 2) = ichn := by omega
    rw [hindex] at hzero
    rw [hzero, Nat.add_assoc, busTarget_eq hctrl (by unfold CHANNEL_0_BASE_ADDR; omega),
      if_pos hmod, if_neg (by unfold CHANNEL_0_BASE_ADDR CHANNEL_1_BASE_ADDR; omega),
      if_pos (Nat.le_add_right _ _), Nat.add_sub_cancel_left]
  · have hindex : 2 * (ichn / 2) + 1 = ichn := by omega
    rw [hindex] at hone
    rw [hone, Nat.add_assoc, busTarget_eq hctrl (by unfold CHANNEL_1_BASE_ADDR; omega),
      if_pos (Nat.le_add_right _ _), Nat.add_sub_cancel_left, if_neg (by omega)]

theorem write_chn_bass_addr {ichn : Nat} (h : ichn < g.numChannel) (s : NcCommands) (r : NcReg)
    (data : Nat) : s.write g (g.chn_bass_addr ichn + r.offset, data) =
      s.writeRegister g (ichn / 2) (Chn.ofIndex ichn) r data := by
  unfold NcCommands.write
  rw [busTarget_chn_bass_addr h, Option.bind_some]
  simp only [NcReg.ofOffset_offset, Option.bind_some]

theorem addr_1_stored : addr_1 x.stored = addr_1 x := by
  simp only [addr_1, Ppa.stored, Nat.mod_mod]

/-- The chip counts with the page and the block of the firmware, in 16 bits. -/
theorem NcChip.range_eq {chip : NcChip} {cmd : NcCommand} (ichn : Nat)
    (hstart : cmd.nand_start_cmd = 0x00 ∨ cmd.nand_start_cmd = 0x80)
    (hend : cmd.nand_end_cmd = 0x30 ∨ cmd.nand_end_cmd = 0x10) (haddr : cmd.addr_1 = addr_1 x) :
    chip.range g ichn cmd =
      some (g.image_offset ichn cmd.chip_enabled (x.block % 65536) (x.page % 65536),
        g.page_size) := by
  have hcleared : chip.startCycle cmd.nand_start_cmd = chip.clear_address := if_pos (by omega)
  have hrow : (chip.clear_address.addressCycles cmd).row_page = cmd.cycle 0 + 256 * cmd.cycle 1 ∧
      (chip.clear_address.addressCycles cmd).row_block = cmd.cycle 2 + 256 * cmd.cycle 3 :=
    ChipMedia.addressed_row (m := ⟨chip, fun _ => 0⟩)
  have hcycles := NcCommand.cycles_addr_1 haddr
  unfold range commandRange
  rw [hcleared, if_pos hend, hrow.1, hrow.2, hcycles.1, hcycles.2]

/-- The range of an operation: the page of the chip that the firmware selects. -/
theorem PageAccess.range_eq {a : PageAccess} (h : a.page.ppa.chn < g.numChannel) :
    a.range g = (g.chips (g.chip_index a.page.ppa.stored)).map fun k =>
      (g.image_offset a.page.ppa.chn k (a.page.ppa.block % 65536) (a.page.ppa.page % 65536),
        g.page_size) := by
  have hstored : a.page.ppa.stored.chn = a.page.ppa.chn :=
    Nat.mod_eq_of_lt (by have := g.numChannel_le; omega)
  unfold range FlashParams.registerWrites
  simp only [hstored, List.foldlM_cons, List.foldlM_nil, write_chn_bass_addr h,
    NcCommands.writeRegister]
  cases g.chips (g.chip_index a.page.ppa.stored) with
  | none => rfl
  | some k =>
    simp only [NcCommands.setNew, NcCommands.push, Option.map_some, Option.bind_eq_bind,
      Option.bind_some, Option.pure_def, Function.update_self, Function.update_idem,
      List.nil_append, List.cons_append, List.head?_cons]
    rw [chn_index_ofIndex]
    apply NcChip.range_eq
    · cases a.page.op <;> simp [NcCommand.nand_start_cmd, READ_NAND, PROGRAM_NAND]
    · cases a.page.op <;> simp [NcCommand.nand_end_cmd, READ_NAND, PROGRAM_NAND]
    · exact addr_1_stored

end Way

/-! ## The places of the pages -/

namespace FlashParams

variable {g : FlashParams} {x y : Ppa}

/-- The bases of the fields of an address, the page first. -/
def bases (g : FlashParams) : List Nat :=
  [g.numPages, g.numBlocks, g.numPlanes, g.dies_per_channel, g.numChannel]

/-- The fields of an address, the page first. -/
def fields (x : Ppa) : List Nat := [x.page, x.block, x.plane, x.die, x.chn]

/-- The number of the page in the image. -/
def number (g : FlashParams) (x : Ppa) : Nat := mixedRadix g.bases (fields x)

theorem bases_prod : g.bases.prod = g.total_num_of_pages := by
  simp only [bases, List.prod_cons, List.prod_nil, total_num_of_pages, dies_per_channel]
  ring

theorem hasPage_iff : g.HasPage x ↔ List.Forall₂ (· < ·) (fields x) g.bases := by
  simp only [fields, bases, List.forall₂_cons, List.Forall₂.nil, and_true]
  exact ⟨fun ⟨hchn, hdie, hplane, hblock, hpage⟩ => ⟨hpage, hblock, hplane, hdie, hchn⟩,
    fun ⟨hpage, hblock, hplane, hdie, hchn⟩ => ⟨hchn, hdie, hplane, hblock, hpage⟩⟩

theorem number_lt (h : g.HasPage x) : g.number x < g.total_num_of_pages := by
  rw [← bases_prod]
  exact mixedRadix_lt (hasPage_iff.mp h)

theorem number_inj (hx : g.HasPage x) (hy : g.HasPage y) (h : g.number x = g.number y) :
    x = y := by
  have hfields := mixedRadix_inj (hasPage_iff.mp hx) (hasPage_iff.mp hy) h
  simp only [fields, List.cons.injEq, and_true] at hfields
  obtain ⟨hpage, hblock, hplane, hdie, hchn⟩ := hfields
  cases x
  cases y
  exact Ppa.mk.injEq .. ▸ ⟨hchn, hdie, hplane, hblock, hpage⟩

/-- Every number below the number of pages is one of a page. -/
theorem exists_page {n : Nat} (h : n < g.total_num_of_pages) :
    ∃ x, g.HasPage x ∧ g.number x = n := by
  rw [← bases_prod] at h
  obtain ⟨ds, hds, hnumber⟩ := exists_digits h
  rcases hds with _ | ⟨hpage, _ | ⟨hblock, _ | ⟨hplane, _ | ⟨hdie, _ | ⟨hchn, _ | _⟩⟩⟩⟩⟩
  exact ⟨⟨_, _, _, _, _⟩, ⟨hchn, hdie, hplane, hblock, hpage⟩, hnumber⟩

/-- The controller counts the number of the page and its offset modulo 4 GiB. -/
theorem image_offset_eq : g.image_offset x.chn (x.die * g.numPlanes + x.plane) x.block x.page =
    g.number x * g.page_size % 2 ^ 32 := by
  have hnumber : g.number x = x.chn * (g.numPackages * g.numDies * g.numPlanes *
      (g.numBlocks * g.numPages)) + (x.die * g.numPlanes + x.plane) *
      (g.numBlocks * g.numPages) + x.block * g.numPages + x.page := by
    simp only [number, bases, fields, mixedRadix_cons, mixedRadix_nil, dies_per_channel]
    ring
  rw [hnumber]
  simp only [image_offset, Nat.add_mod, Nat.mul_mod, Nat.mod_mod]

/-! ## The chips of a channel -/

theorem chip_lt (h : g.HasPage x) :
    x.die * g.numPlanes + x.plane < g.planes_per_channel := by
  rw [Nat.mul_comm, planes_per_channel, Nat.mul_comm g.dies_per_channel]
  exact (digits_lt_iff h.plane).mpr h.die

/-- With up to 128 chips on a channel, the firmware selects the chip of the address. -/
theorem chips_stored (hchips : g.planes_per_channel ≤ 128) (h : g.HasPage x) :
    g.chips (g.chip_index x.stored) = some (x.die * g.numPlanes + x.plane) := by
  have hlt := chip_lt h
  have hcount : g.chip_count = g.planes_per_channel := Nat.mod_eq_of_lt (by
    unfold planes_per_channel dies_per_channel at hchips
    omega)
  have hplanes := h.plane
  have hdie : x.die ≤ x.die * g.numPlanes := Nat.le_mul_of_pos_right _ (by omega)
  have hindex : g.chip_index x.stored = x.die * g.numPlanes + x.plane := by
    simp only [chip_index, Ppa.stored]
    rw [Nat.mod_eq_of_lt (by omega : x.die < 256), Nat.mod_eq_of_lt (by omega : x.plane < 256),
      Nat.mod_eq_of_lt (by omega)]
  rw [hindex]
  exact if_pos ⟨hcount ▸ hchips, hcount ▸ hlt⟩

theorem pos_of_pages (h : g.total_num_of_pages ≠ 0) : 0 < g.numChannel ∧
    0 < g.dies_per_channel ∧ 0 < g.numPlanes ∧ 0 < g.numBlocks ∧ 0 < g.numPages := by
  simp only [total_num_of_pages, Ne, Nat.mul_eq_zero, not_or] at h
  obtain ⟨⟨⟨⟨⟨hchn, hpkgs⟩, hdies⟩, hplanes⟩, hblocks⟩, hpages⟩ := h
  have hdie : g.dies_per_channel ≠ 0 := Nat.mul_ne_zero hpkgs hdies
  omega

/-- The offset of the address, with its block and its page in 16 bits. -/
def ppa_offset (g : FlashParams) (x : Ppa) : Nat :=
  g.image_offset x.chn (x.die * g.numPlanes + x.plane) (x.block % 65536) (x.page % 65536)

theorem range_of_chips {a : PageAccess} (hchips : g.planes_per_channel ≤ 128)
    (ha : g.HasPage a.page.ppa) : a.range g = some (g.ppa_offset a.page.ppa, g.page_size) := by
  rw [PageAccess.range_eq ha.chn, chips_stored hchips ha]
  rfl

theorem ppa_offset_eq (hblocks : g.numBlocks ≤ 65536) (hpages : g.numPages ≤ 65536)
    (h : g.HasPage x) : g.ppa_offset x = g.number x * g.page_size % 2 ^ 32 := by
  unfold ppa_offset
  rw [Nat.mod_eq_of_lt (Nat.lt_of_lt_of_le h.block hblocks),
    Nat.mod_eq_of_lt (Nat.lt_of_lt_of_le h.page hpages), image_offset_eq]

/-- With more chips, the controller cannot select one of them. -/
theorem exists_no_chip (hpages : g.total_num_of_pages ≠ 0) (hchips : 128 < g.planes_per_channel) :
    ∃ x, g.HasPage x ∧ g.chips (g.chip_index x.stored) = none := by
  obtain ⟨hchn, hdie, hplane, hblock, hpage⟩ := pos_of_pages hpages
  by_cases hcount : g.chip_count ≤ 128
  · -- The count has wrapped, so a die has more than 128 planes.
    have hdies : g.dies_per_channel ≤ 2 ^ 8 * 2 ^ 16 :=
      Nat.mul_le_mul (Nat.le_of_lt g.numPackages_lt) (Nat.le_of_lt g.numDies_lt)
    have hwrap : 2 ^ 32 ≤ g.planes_per_channel := by
      by_contra hlt
      have heq : g.chip_count = g.planes_per_channel := Nat.mod_eq_of_lt (Nat.not_le.mp hlt)
      omega
    have hplanes : 128 < g.numPlanes := by
      by_contra hle
      have hmul : g.planes_per_channel ≤ 2 ^ 8 * 2 ^ 16 * 128 :=
        Nat.mul_le_mul hdies (Nat.not_lt.mp hle)
      omega
    refine ⟨⟨0, 0, 128, 0, 0⟩, ⟨hchn, hdie, hplanes, hblock, hpage⟩, if_neg ?_⟩
    simp only [chip_index, Ppa.stored]
    omega
  · exact ⟨⟨0, 0, 0, 0, 0⟩, ⟨hchn, hdie, hplane, hblock, hpage⟩, if_neg fun h => hcount h.1⟩

end FlashParams

/-! ## The law -/

/-- Every operation on a page of the array accesses a range inside the image, and the ranges of
two pages have no byte in common. -/
structure ImageRanges (g : FlashParams) : Prop where
  inside : ∀ a : PageAccess, g.HasPage a.page.ppa →
    ∃ r, a.range g = some r ∧ r.1 + r.2 ≤ g.total_num_of_pages * g.page_size
  apart : ∀ a b : PageAccess, g.HasPage a.page.ppa → g.HasPage b.page.ppa →
    a.page.ppa ≠ b.page.ppa → ∀ r r', a.range g = some r → b.range g = some r' →
      r.1 + r.2 ≤ r'.1 ∨ r'.1 + r'.2 ≤ r.1

/-- The array of the chips, the 16 bits of a block and of a page, and the 32 bits of an offset
are enough for the flash. -/
structure FlashFits (g : FlashParams) : Prop where
  chips : g.planes_per_channel ≤ 128
  blocks : g.numBlocks ≤ 65536
  pages : g.numPages ≤ 65536
  image : g.total_num_of_pages * g.page_size ≤ 2 ^ 32

/-- A read of a page, with any chip. -/
def readOf (x : Ppa) : PageAccess :=
  ⟨⟨.FLASH_READ, x, 0⟩, fun _ _ => .new, ⟨false, fun _ => 0, 0, fun _ => 0, none⟩⟩

section Law

variable {g : FlashParams} {x y : Ppa}

theorem FlashParams.page_size_pos : 0 < g.page_size := Nat.two_pow_pos _

theorem FlashFits.range_eq (h : FlashFits g) {a : PageAccess} (ha : g.HasPage a.page.ppa) :
    a.range g = some (g.number a.page.ppa * g.page_size, g.page_size) := by
  have hoffset : g.number a.page.ppa * g.page_size < 2 ^ 32 :=
    Nat.lt_of_lt_of_le (Nat.mul_lt_mul_of_pos_right (FlashParams.number_lt ha)
      FlashParams.page_size_pos) h.image
  rw [FlashParams.range_of_chips h.chips ha, FlashParams.ppa_offset_eq h.blocks h.pages ha,
    Nat.mod_eq_of_lt hoffset]

theorem FlashFits.imageRanges (h : FlashFits g) : ImageRanges g := by
  constructor
  · intro a ha
    refine ⟨_, h.range_eq ha, ?_⟩
    rw [← Nat.succ_mul]
    exact Nat.mul_le_mul_right _ (FlashParams.number_lt ha)
  · intro a b ha hb hne r r' hr hr'
    rw [h.range_eq ha, Option.some.injEq] at hr
    rw [h.range_eq hb, Option.some.injEq] at hr'
    rw [← hr, ← hr']
    exact multiples_apart fun heq => hne (FlashParams.number_inj ha hb heq)

theorem ImageRanges.chips (h : ImageRanges g) (hpages : g.total_num_of_pages ≠ 0) :
    g.planes_per_channel ≤ 128 := by
  by_contra hchips
  obtain ⟨x, hx, hnone⟩ := FlashParams.exists_no_chip hpages (Nat.not_le.mp hchips)
  obtain ⟨r, hr, -⟩ := h.inside (readOf x) hx
  rw [PageAccess.range_eq hx.chn, readOf, hnone] at hr
  cases hr

/-- Two pages with one offset are the same page. -/
theorem ImageRanges.page_eq (h : ImageRanges g) (hchips : g.planes_per_channel ≤ 128)
    (hx : g.HasPage x) (hy : g.HasPage y) (hoffset : g.ppa_offset x = g.ppa_offset y) : x = y := by
  by_contra hne
  have hapart := h.apart (readOf x) (readOf y) hx hy hne _ _ (FlashParams.range_of_chips hchips hx)
    (FlashParams.range_of_chips hchips hy)
  have hpos := FlashParams.page_size_pos (g := g)
  simp only [readOf] at hapart
  omega

theorem ImageRanges.blocks (h : ImageRanges g) (hpages : g.total_num_of_pages ≠ 0) :
    g.numBlocks ≤ 65536 := by
  obtain ⟨hchn, hdie, hplane, hblock, hpage⟩ := FlashParams.pos_of_pages hpages
  by_contra hlarge
  have heq : (⟨0, 0, 0, 65536, 0⟩ : Ppa) = ⟨0, 0, 0, 0, 0⟩ :=
    h.page_eq (h.chips hpages) ⟨hchn, hdie, hplane, Nat.not_le.mp hlarge, hpage⟩
      ⟨hchn, hdie, hplane, hblock, hpage⟩ rfl
  cases heq

theorem ImageRanges.pages (h : ImageRanges g) (hpages : g.total_num_of_pages ≠ 0) :
    g.numPages ≤ 65536 := by
  obtain ⟨hchn, hdie, hplane, hblock, hpage⟩ := FlashParams.pos_of_pages hpages
  by_contra hlarge
  have heq : (⟨0, 0, 0, 0, 65536⟩ : Ppa) = ⟨0, 0, 0, 0, 0⟩ :=
    h.page_eq (h.chips hpages) ⟨hchn, hdie, hplane, hblock, Nat.not_le.mp hlarge⟩
      ⟨hchn, hdie, hplane, hblock, hpage⟩ rfl
  cases heq

/-- The page behind 4 GiB would start over at the first one. -/
theorem ImageRanges.image (h : ImageRanges g) (hpages : g.total_num_of_pages ≠ 0) :
    g.total_num_of_pages * g.page_size ≤ 2 ^ 32 := by
  by_contra hlarge
  have hsplit : 2 ^ (32 - g.DS) * g.page_size = 2 ^ 32 := by
    unfold FlashParams.page_size
    rw [← Nat.pow_add, Nat.sub_add_cancel (Nat.le_of_lt g.DS_lt)]
  have hbehind : 2 ^ (32 - g.DS) < g.total_num_of_pages := by
    apply Nat.lt_of_mul_lt_mul_right (a := g.page_size)
    rw [hsplit]
    exact Nat.not_le.mp hlarge
  obtain ⟨x, hx, hnumber⟩ := FlashParams.exists_page hbehind
  obtain ⟨y, hy, hzero⟩ := FlashParams.exists_page (Nat.pos_of_ne_zero hpages)
  have heq : x = y := by
    apply h.page_eq (h.chips hpages) hx hy
    rw [FlashParams.ppa_offset_eq (h.blocks hpages) (h.pages hpages) hx,
      FlashParams.ppa_offset_eq (h.blocks hpages) (h.pages hpages) hy, hnumber, hzero, hsplit,
      Nat.mod_self, Nat.zero_mul, Nat.zero_mod]
  have hpos := Nat.two_pow_pos (32 - g.DS)
  rw [heq, hzero] at hnumber
  omega

/-- Each page of the array has a range of its own inside the image exactly when the flash fits,
or when there is no page. -/
theorem each_page_has_its_own_range_iff :
    ImageRanges g ↔ (g.total_num_of_pages ≠ 0 → FlashFits g) := by
  constructor
  · intro h hpages
    exact ⟨h.chips hpages, h.blocks hpages, h.pages hpages, h.image hpages⟩
  · intro h
    by_cases hpages : g.total_num_of_pages = 0
    · have hnone (x : Ppa) (hx : g.HasPage x) : False := by
        have hlt := FlashParams.number_lt hx
        omega
      exact ⟨fun a ha => absurd ha (hnone _), fun a _ ha => absurd ha (hnone _)⟩
    · exact (h hpages).imageRanges

end Law

/-- Four channels of one chip with 1024 blocks of 128 pages of 16 KiB: 8 GiB. -/
def flash8GiB : FlashParams where
  numChannel := 4
  numPackages := 1
  numDies := 1
  numPlanes := 1
  numBlocks := 1024
  numPages := 128
  DS := 14
  numChannel_even := by decide
  numChannel_le := by decide
  numPackages_lt := by decide
  numDies_lt := by decide
  numPlanes_lt := by decide
  numBlocks_lt := by decide
  numPages_lt := by decide
  DS_lt := by decide

/-- Channel 2 starts over at the first byte of the image. -/
theorem the_channels_of_8_gib_share_a_range : ¬ ∀ g, ImageRanges g := by
  intro h
  have heq : (⟨0, 0, 0, 0, 0⟩ : Ppa) = ⟨2, 0, 0, 0, 0⟩ := by
    apply (h flash8GiB).page_eq (by decide) ⟨by decide, by decide, by decide, by decide, by decide⟩
      ⟨by decide, by decide, by decide, by decide, by decide⟩
    decide
  cases heq

/-! ## The controller with its waiting rooms -/

/-- The parameters are those of the build. -/
structure FlashParams.Describes (g : FlashParams) (b : Geometry) : Prop where
  numPackages : g.numPackages = b.nand_pkgs_per_chn
  numDies : g.numDies = b.nand_dies_per_pkg
  numPlanes : g.numPlanes = b.nand_planes_per_die
  numBlocks : g.numBlocks = b.nand_blocks_per_plane
  numPages : g.numPages = b.nand_pages_per_block
  DS : g.DS = b.nand_page_size

section Controller

variable {g : FlashParams} {p : NandCtrlParams}

theorem FlashParams.Describes.page_size (h : g.Describes p.geometry) :
    g.page_size = p.geometry.nandPageBytes := by
  unfold FlashParams.page_size Geometry.nandPageBytes
  rw [h.DS]

theorem FlashParams.Describes.image_offset (h : g.Describes p.geometry) (c : Chn)
    (k block page : Nat) : g.image_offset (p.chn_index c) k block page =
      p.page_offset (p.page_index c k block page) := by
  simp only [FlashParams.image_offset, NandCtrlParams.page_offset, NandCtrlParams.page_index,
    NandCtrlParams.pages_per_chn, NandCtrlParams.planes_per_chn, Geometry.pages_per_plane,
    Geometry.dies_per_channel, h.numPackages, h.numDies, h.numPlanes, h.numBlocks, h.numPages,
    h.page_size, Nat.add_mod, Nat.mul_mod, Nat.mod_mod]

/-- A read and a program of the controller copy this range. -/
theorem the_range_is_copied (h : g.Describes p.geometry) (c : Chn) (k : Nat) (m : ChipMedia) :
    ∃ r, m.chip.commandRange g (p.chn_index c) k 0x30 = some r ∧
      m.chip.commandRange g (p.chn_index c) k 0x10 = some r ∧
      (m.write_command_cycle p c k 0x30).chip.nand_page_reg =
        writeWindow m.chip.nand_page_reg 0 r.2 (fun i => m.image (r.1 + i)) ∧
      (m.write_command_cycle p c k 0x10).image =
        writeWindow m.image r.1 r.2 m.chip.nand_page_reg := by
  refine ⟨_, rfl, rfl, ?_, ?_⟩
  · rw [h.image_offset, h.page_size]
    rfl
  · rw [h.image_offset, h.page_size]
    rfl

end Controller

end S4Sim
