-- What the pages of a channel do to the flash image and to the RAM, one page
-- after another, and how far the controller is with it. A page has its own
-- place in the image, of any size; the controller computes it in 32 bits.
import S4Sim.NandCtrl.Stages
import Mathlib.Data.List.Basic

namespace S4Sim

open Windows

/-! ## Pages one after another -/

/-- The flash image and the RAM of the SSD. -/
structure FlashMemory where
  image : Nat → UInt8
  ram : Nat → UInt8

section
variable (p : NandCtrlParams) (c : Chn)

/-- The number of the page in its channel. -/
def pageInChannel (x : FlashPage) : Nat :=
  chip_index p.geometry x.ppa * p.geometry.pages_per_plane +
    x.ppa.block * p.geometry.nand_pages_per_block + x.ppa.page

/-- The offset of the page in the image. -/
def place (x : FlashPage) : Nat :=
  (p.chn_index c * p.pages_per_chn + pageInChannel p x) * p.geometry.nandPageBytes

/-- A read copies the page to its buffer in the RAM, a program copies the buffer to the
page. -/
def executePage (m : FlashMemory) (x : FlashPage) : FlashMemory :=
  match x.op with
  | .FLASH_READ =>
    { m with
      ram := writeWindow m.ram x.ssd_addr p.geometry.nandPageBytes
        fun i => m.image (place p c x + i) }
  | .FLASH_PROGRAM =>
    { m with
      image := writeWindow m.image (place p c x) p.geometry.nandPageBytes
        fun i => m.ram (x.ssd_addr + i) }

def executePages (m : FlashMemory) (xs : List FlashPage) : FlashMemory :=
  xs.foldl (executePage p c) m

/-- The part of the image that belongs to the channel. -/
def InPart (o : Nat) : Prop :=
  p.chn_index c * p.pages_per_chn * p.geometry.nandPageBytes ≤ o ∧
    o < (p.chn_index c + 1) * p.pages_per_chn * p.geometry.nandPageBytes

/-- The page is one of the channel, and it starts in the first 4 GiB of the image. -/
def InImage (x : FlashPage) : Prop :=
  pageInChannel p x < p.pages_per_chn ∧ place p c x < 2 ^ 32

instance (x : FlashPage) : Decidable (InImage p c x) := by unfold InImage; infer_instance

end

/-- The pages of the two channels. The addresses have the widths of `ppa_t`, the chip numbers
are valid, and no page of one channel shares bytes of its buffer with one of the other. -/
structure FlashStream (p : NandCtrlParams) where
  pages : Chn → List FlashPage
  chn : ∀ c, ∀ x ∈ pages c, x.ppa.chn = p.chn_index c
  chip : ∀ c, ∀ x ∈ pages c, chip_index p.geometry x.ppa < p.planes_per_chn
  widths : ∀ c, ∀ x ∈ pages c, x.ppa.page < 65536 ∧ x.ppa.block < 65536
  apart : ∀ c, ∀ x ∈ pages c, ∀ y ∈ pages c.other,
    x.ssd_addr + p.geometry.nandPageBytes ≤ y.ssd_addr ∨
      y.ssd_addr + p.geometry.nandPageBytes ≤ x.ssd_addr

variable {p : NandCtrlParams} {c : Chn} {x y : FlashPage} {m : FlashMemory}

@[simp] theorem Chn.other_ne : c.other ≠ c := by cases c <;> simp [Chn.other]

@[simp] theorem Chn.other_other : c.other.other = c := by cases c <;> rfl

theorem Chn.eq_other {c d : Chn} (h : d ≠ c) : d = c.other := by
  cases c <;> cases d <;> simp_all [Chn.other]

@[simp] theorem executePages_nil : executePages p c m [] = m := rfl

theorem executePages_snoc {xs : List FlashPage} :
    executePages p c m (xs ++ [x]) = executePage p c (executePages p c m xs) x := by
  simp [executePages]

/-! ## The place of a page -/

/-- All the pages of the array have numbers of 30 bits. -/
theorem channel_end_le : (p.chn_index c + 1) * p.pages_per_chn ≤ 0x40000000 := by
  have htotal := p.geometry.total_num_of_pages_le
  rw [Geometry.total_num_of_pages_eq, Geometry.total_num_of_planes_eq] at htotal
  have hchn : p.chn_index c + 1 ≤ p.geometry.nand_num_chn := by
    have := p.channels
    cases c <;> simp only [NandCtrlParams.chn_index] <;> omega
  calc (p.chn_index c + 1) * p.pages_per_chn
      ≤ p.geometry.nand_num_chn * p.pages_per_chn := Nat.mul_le_mul_right _ hchn
    _ = p.geometry.pages_per_plane * (p.geometry.nand_num_chn *
          (p.geometry.dies_per_channel * p.geometry.nand_planes_per_die)) := by
        unfold NandCtrlParams.pages_per_chn NandCtrlParams.planes_per_chn
        ring
    _ ≤ 0x40000000 := htotal

/-- For a page of the channel in the first 4 GiB, the controller computes its place. -/
theorem page_offset_eq (hin : InImage p c x) (hpage : x.ppa.page < 65536)
    (hblock : x.ppa.block < 65536) :
    p.page_offset (p.page_index c (chip_index p.geometry x.ppa) (x.ppa.block % 65536)
      (x.ppa.page % 65536)) = place p c x := by
  have hend := channel_end_le (p := p) (c := c)
  rw [Nat.add_mul, Nat.one_mul] at hend
  have hnumber : p.page_index c (chip_index p.geometry x.ppa) (x.ppa.block % 65536)
      (x.ppa.page % 65536) = p.chn_index c * p.pages_per_chn + pageInChannel p x := by
    unfold NandCtrlParams.page_index
    rw [Nat.mod_eq_of_lt hpage, Nat.mod_eq_of_lt hblock, Nat.mod_eq_of_lt]
    · unfold pageInChannel
      omega
    · have := hin.1
      unfold pageInChannel at this
      omega
  rw [hnumber]
  exact Nat.mod_eq_of_lt hin.2

theorem place_inPart (hin : InImage p c x) {i : Nat} (hi : i < p.geometry.nandPageBytes) :
    InPart p c (place p c x + i) := by
  have hlt := hin.1
  unfold InPart place
  constructor
  · apply Nat.le_add_right_of_le
    apply Nat.mul_le_mul_right
    omega
  · calc (p.chn_index c * p.pages_per_chn + pageInChannel p x) * p.geometry.nandPageBytes + i
        < (p.chn_index c * p.pages_per_chn + pageInChannel p x + 1) *
            p.geometry.nandPageBytes := by
          rw [Nat.add_mul _ 1, Nat.one_mul]
          omega
      _ ≤ (p.chn_index c + 1) * p.pages_per_chn * p.geometry.nandPageBytes := by
          apply Nat.mul_le_mul_right
          rw [Nat.add_mul, Nat.one_mul]
          omega

/-- The two parts have no byte in common. -/
theorem InPart.not_other {o : Nat} (h : InPart p c o) : ¬ InPart p c.other o := by
  intro h'
  obtain ⟨hle, hlt⟩ := h
  obtain ⟨hle', hlt'⟩ := h'
  cases c with
  | channel_0 =>
    simp only [Chn.other, NandCtrlParams.chn_index] at hlt hle'
    omega
  | channel_1 =>
    simp only [Chn.other, NandCtrlParams.chn_index] at hle hlt'
    omega

/-! ## How far a channel is -/

namespace NandCtrl

/-- The chip events of the channel. -/
def eventsOf (s : NandCtrl) (c : Chn) : List Nat :=
  (s.chip_events.filter fun e => e.1 = c).map (·.2)

/-- The DMA of the channel has moved the byte. -/
def Moved (p : NandCtrlParams) (s : NandCtrl) (c : Chn) (i : Nat) : Prop :=
  i < p.geometry.nandPageBytes ∧ ∃ d ∈ s.dmas, d.chn = c ∧ i ∉ d.left

/-- The byte of the RAM is in no buffer that the other channel reads pages into. -/
def Own (p : NandCtrlParams) (s : NandCtrl) (c : Chn) (a : Nat) : Prop :=
  ∀ y ∈ s.issued c.other, y.op = .FLASH_READ →
    a < y.ssd_addr ∨ y.ssd_addr + p.geometry.nandPageBytes ≤ a

/-- The memories are those of the pages that are done, up to the bytes that the DMA of the
current page has moved. -/
structure Data (p : NandCtrlParams) (m : FlashMemory) (s : NandCtrl) (c : Chn) (t : Track) :
    Prop where
  image : ∀ o, InPart p c o → s.image o = (executePages p c m t.done).image o
  ram : ∀ a, Own p s c a →
    (∀ x i, t.stage = .toRam x → Moved p s c i → a ≠ x.ssd_addr + i) →
    s.ram a = (executePages p c m t.done).ram a
  ram_moved : ∀ x i, t.stage = .toRam x → Moved p s c i →
    s.ram (x.ssd_addr + i) = (executePages p c m t.done).image (place p c x + i)
  reg : ∀ x, t.stage = .sensed x ∨ t.stage = .toRam x → ∀ i, i < p.geometry.nandPageBytes →
    ((s.channel c).chips (chip_index p.geometry x.ppa)).nand_page_reg i =
      (executePages p c m t.done).image (place p c x + i)
  reg_moved : ∀ x i, t.stage = .fromRam x → Moved p s c i →
    ((s.channel c).chips (chip_index p.geometry x.ppa)).nand_page_reg i =
      (executePages p c m t.done).ram (x.ssd_addr + i)

/-- The DMA engine serves a channel that waits for it, and is free only when none does. -/
structure Engine (p : NandCtrlParams) (s : NandCtrl) (tr : Chn → Track) : Prop where
  free : s.current_chn = none → s.dmas = [] ∧ ∀ c, (tr c).stage.waits = false
  serves : ∀ c, s.current_chn = some c → ∃ d, s.dmas = [d] ∧ d.chn = c ∧
    (tr c).stage.Asks p.geometry d ∧ d.left.Sublist (List.range p.geometry.nandPageBytes)

/-- What holds between two commands of a waiting room. `ok` stands for the condition on the
pages, which the memories need and the flags do not. -/
structure Working (p : NandCtrlParams) (f : FlashStream p) (m : FlashMemory) (ok : Prop)
    (unsent : Chn → List NcCommand) (s : NandCtrl) (tr : Chn → Track) : Prop where
  sane : s.crashed = false
  pages : ∀ c, s.issued c ++ s.todo c = f.pages c
  tracked : ∀ c, Tracked p.geometry (s.channel c) (s.eventsOf c) (unsent c) (s.issued c) (tr c)
  chips : ∀ c, ∀ k ∈ s.eventsOf c, k < p.planes_per_chn
  engine : Engine p s tr
  data : ok → ∀ c, Data p m s c (tr c)

end NandCtrl

end S4Sim
