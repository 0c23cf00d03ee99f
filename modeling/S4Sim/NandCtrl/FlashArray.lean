-- The flash array: all controllers on one image and one RAM, and the firmware
-- that issues the pages of an operation to their channels and polls the counts
-- of the channels, one after another, until they are all 0. Between two steps of
-- the firmware any controller takes events, and other masters store to the RAM.
import S4Sim.NandCtrl.ImageRanges
import S4Sim.NandCtrl.SharedMedia

namespace S4Sim

open Runs Windows

/-! ## The build -/

/-- The options of the build. A controller has two channels, and a channel an array of 128
chips. -/
structure FlashBuild where
  geometry : Geometry
  channels_even : geometry.nand_num_chn % 2 = 0
  chips_le : geometry.dies_per_channel * geometry.nand_planes_per_die ≤ 128

namespace FlashBuild

variable (b : FlashBuild)

/-- `NUM_NAND_CTRLS`. -/
def num_nand_ctrls : Nat := b.geometry.nand_num_chn / 2

/-- The parameters of a controller. -/
def ctrl (k : Fin b.num_nand_ctrls) : NandCtrlParams where
  geometry := b.geometry
  NC_index := k
  channels := by
    have := k.isLt
    unfold num_nand_ctrls at this
    omega
  chips_le := b.chips_le

/-- The controller and its channel behind `chn_bass_addr[chn]`. -/
def channelOf (chn : Nat) : Option (Fin b.num_nand_ctrls × Chn) :=
  if h : chn / 2 < b.num_nand_ctrls then some (⟨chn / 2, h⟩, .ofIndex chn) else none

/-- The pages that go to a channel. -/
def onChannel (pages : List FlashPage) (k : Fin b.num_nand_ctrls) (c : Chn) : List FlashPage :=
  pages.filter fun x => x.ppa.chn = (b.ctrl k).chn_index c

end FlashBuild

/-! ## The state -/

/-- Where the firmware is in `__do_sync_flash_read` or `__do_sync_flash_program`: outside of
them, before the next page, within the register writes of a page, or in the loop over the
channels. -/
inductive FlashPc (b : FlashBuild)
  | idle
  | issuing (rest : List FlashPage)
  | writing (k : Fin b.num_nand_ctrls) (c : Chn) (rest : List FlashPage)
  | polling (ichn cmdStatus : Nat)

/-- What changes the memories, for one who does not see the controllers. -/
inductive MemoryEvent
  | operation (pages : List FlashPage)
  | store (addr : Nat) (value : UInt8)

/-- The controllers see `image` and `ram` in place of their own. `pages` are those of the
operation under way, and the log has the operations that have returned and the stores of the
other masters. -/
structure FlashArray (b : FlashBuild) where
  ctrl : Fin b.num_nand_ctrls → NandCtrl
  image : Nat → UInt8
  ram : Nat → UInt8
  pc : FlashPc b
  pages : List FlashPage
  log : List MemoryEvent

inductive FlashAction (b : FlashBuild)
  | start (op : FlashOp) (pages : List (Ppa × Nat))
  | firmware
  | event (k : Fin b.num_nand_ctrls) (a : NandAction)
  | store (addr : Nat) (value : UInt8)

namespace FlashArray

variable {b : FlashBuild} (s : FlashArray b)

/-- A controller with the memories. -/
def seen (k : Fin b.num_nand_ctrls) : NandCtrl :=
  { s.ctrl k with image := s.image, ram := s.ram }

def put (k : Fin b.num_nand_ctrls) (t : NandCtrl) : FlashArray b :=
  { s with ctrl := Function.update s.ctrl k t, image := t.image, ram := t.ram }

/-- A step of one controller. -/
def ctrlStep (k : Fin b.num_nand_ctrls) (a : NandAction) : Option (FlashArray b) :=
  (nandStep (b.ctrl k) (s.seen k) a).map (s.put k)

/-- The call of `__do_sync_flash_read` or `__do_sync_flash_program`. Without a page it returns
at once. -/
def start (op : FlashOp) (pages : List (Ppa × Nat)) : FlashArray b :=
  let pages := pages.map fun x => ⟨op, x.1, x.2⟩
  if pages = [] then s
  else
    { s with
      ctrl := fun k => { s.ctrl k with todo := b.onChannel pages k, issued := fun _ => [] }
      pc := .issuing pages
      pages := pages }

/-- The call returns. The pages of the operation are forgotten. -/
def finish : FlashArray b :=
  { s with
    ctrl := fun k => { s.ctrl k with issued := fun _ => [] }
    pc := .idle
    pages := []
    log := s.log ++ [.operation s.pages] }

/-- `none` stands for a call that is not under way, for an address of a channel that the array
does not have, and for a waiting room without room. -/
def firmwareStep : Option (FlashArray b) :=
  match s.pc with
  | .idle => none
  | .issuing [] => some { s with pc := .polling 0 0 }
  | .issuing (x :: rest) =>
    (b.channelOf x.ppa.chn).bind fun (k, c) =>
      (s.ctrlStep k (.nextPage c)).map fun t => { t with pc := .writing k c rest }
  | .writing k c rest =>
    if (s.ctrl k).writes c = [] then some { s with pc := .issuing rest }
    else s.ctrlStep k (.registerWrite c)
  | .polling ichn cmdStatus =>
    if ichn < b.geometry.nand_num_chn then
      (b.channelOf ichn).map fun (k, c) =>
        { s with
          pc := .polling (ichn + 1) ((cmdStatus + (s.ctrl k).activeOperationCount c) % 2 ^ 32) }
    else if cmdStatus = 0 then some s.finish
    -- `sys_yield_cpu()`, and the loop again.
    else some { s with pc := .polling 0 0 }

end FlashArray

namespace FlashBuild

variable (b : FlashBuild)

def step (s : FlashArray b) (a : FlashAction b) : Option (FlashArray b) :=
  match a with
  | .start op pages =>
    match s.pc with
    | .idle => some (s.start op pages)
    | _ => none
  | .firmware => s.firmwareStep
  | .event k a => if NandCtrl.isEvent a then s.ctrlStep k a else none
  | .store addr value =>
    some
      { s with
        ram := Function.update s.ram addr value
        log := s.log ++ [.store addr value] }

/-- The array after the constructors. -/
def initial (toggle : Fin b.num_nand_ctrls → Bool)
    (regs : Fin b.num_nand_ctrls → Chn → Nat → Nat → UInt8) (image ram : Nat → UInt8) :
    FlashArray b where
  ctrl k := initialNand (fun _ => []) (toggle k) image ram (regs k)
  image := image
  ram := ram
  pc := .idle
  pages := []
  log := []

/-! ## The memories alone -/

/-- The place of a page in the image. -/
def pageOffset (x : Ppa) : Nat :=
  (x.chn * (b.geometry.dies_per_channel * b.geometry.nand_planes_per_die *
      b.geometry.pages_per_plane) +
    (chip_index b.geometry x * b.geometry.pages_per_plane +
      x.block * b.geometry.nand_pages_per_block + x.page)) * b.geometry.nandPageBytes

/-- A read copies the page to its buffer, a program the buffer to the page. -/
def executePage (m : FlashMemory) (x : FlashPage) : FlashMemory :=
  match x.op with
  | .FLASH_READ =>
    { m with
      ram := writeWindow m.ram x.ssd_addr b.geometry.nandPageBytes
        fun i => m.image (b.pageOffset x.ppa + i) }
  | .FLASH_PROGRAM =>
    { m with
      image := writeWindow m.image (b.pageOffset x.ppa) b.geometry.nandPageBytes
        fun i => m.ram (x.ssd_addr + i) }

def executeAll (m : FlashMemory) (pages : List FlashPage) : FlashMemory :=
  pages.foldl b.executePage m

def applyEvent (m : FlashMemory) : MemoryEvent → FlashMemory
  | .operation pages => b.executeAll m pages
  | .store addr value => { m with ram := Function.update m.ram addr value }

/-- The memories after a log. -/
def replay (m : FlashMemory) (log : List MemoryEvent) : FlashMemory := log.foldl b.applyEvent m

/-- What the FTL promises of an operation: up to 128 pages of the array, in the first 4 GiB of
the image, and no two of different channels share bytes of their buffers. -/
structure Takes (pages : List FlashPage) : Prop where
  length : pages.length ≤ 128
  has_page : ∀ x ∈ pages, b.geometry.HasPage x.ppa
  first_4_gib : ∀ x ∈ pages, b.pageOffset x.ppa < 2 ^ 32
  apart : ∀ x ∈ pages, ∀ y ∈ pages, x.ppa.chn ≠ y.ppa.chn →
    x.ssd_addr + b.geometry.nandPageBytes ≤ y.ssd_addr ∨
      y.ssd_addr + b.geometry.nandPageBytes ≤ x.ssd_addr

/-- The FTL keeps its promise, and no other master stores to a buffer of the operation under
way. -/
def Promised (s : FlashArray b) : FlashAction b → Prop
  | .start op pages => b.Takes (pages.map fun x => ⟨op, x.1, x.2⟩)
  | .store addr _ => ¬ InBuffers b.geometry s.pages addr
  | .firmware | .event .. => True

/-! ## The channels of the array -/

variable {b} {k j : Fin b.num_nand_ctrls} {c d : Chn} {x y : FlashPage} {m : FlashMemory}
  {pages xs : List FlashPage} {o a : Nat}

theorem index_inj (h : (b.ctrl k).chn_index c = (b.ctrl j).chn_index d) : k = j ∧ c = d := by
  have hctrl : ∀ i : Fin b.num_nand_ctrls, (b.ctrl i).NC_index = i := fun _ => rfl
  cases c with
  | channel_0 =>
    cases d with
    | channel_0 =>
      simp only [NandCtrlParams.chn_index, hctrl] at h
      exact ⟨Fin.ext (by omega), rfl⟩
    | channel_1 =>
      simp only [NandCtrlParams.chn_index, hctrl] at h
      omega
  | channel_1 =>
    cases d with
    | channel_0 =>
      simp only [NandCtrlParams.chn_index, hctrl] at h
      omega
    | channel_1 =>
      simp only [NandCtrlParams.chn_index, hctrl] at h
      exact ⟨Fin.ext (by omega), rfl⟩

/-- Every channel of the array is one of a controller. -/
theorem exists_channel {chn : Nat} (h : chn < b.geometry.nand_num_chn) :
    ∃ k c, b.channelOf chn = some (k, c) ∧ (b.ctrl k).chn_index c = chn := by
  have heven := b.channels_even
  have hlt : chn / 2 < b.num_nand_ctrls := by
    unfold num_nand_ctrls
    omega
  exact ⟨⟨chn / 2, hlt⟩, .ofIndex chn, dif_pos hlt, chn_index_ofIndex chn⟩

theorem index_lt (k : Fin b.num_nand_ctrls) (c : Chn) :
    (b.ctrl k).chn_index c < b.geometry.nand_num_chn := by
  have := (b.ctrl k).channels
  cases c with
  | channel_0 =>
    simp only [NandCtrlParams.chn_index]
    exact Nat.lt_of_succ_lt this
  | channel_1 => exact this

/-- The parts of the image do not overlap. -/
theorem part_inj (h : InPart (b.ctrl k) c o) (h' : InPart (b.ctrl j) d o) : k = j ∧ c = d := by
  apply index_inj
  obtain ⟨hle, hlt⟩ := h
  obtain ⟨hle', hlt'⟩ := h'
  have hpages : (b.ctrl j).pages_per_chn = (b.ctrl k).pages_per_chn := rfl
  have hbytes : (b.ctrl j).geometry = (b.ctrl k).geometry := rfl
  rw [hpages, hbytes, Nat.mul_assoc] at hle' hlt'
  rw [Nat.mul_assoc] at hle hlt
  have hone := Nat.lt_of_mul_lt_mul_right (Nat.lt_of_le_of_lt hle hlt')
  have htwo := Nat.lt_of_mul_lt_mul_right (Nat.lt_of_le_of_lt hle' hlt)
  omega

/-! ## The pages of an operation -/

theorem pageOffset_eq (hchn : x.ppa.chn = (b.ctrl k).chn_index c) :
    b.pageOffset x.ppa = place (b.ctrl k) c x := by
  unfold pageOffset
  rw [hchn]
  rfl

theorem executePage_eq (hchn : x.ppa.chn = (b.ctrl k).chn_index c) :
    b.executePage m x = S4Sim.executePage (b.ctrl k) c m x := by
  unfold executePage S4Sim.executePage
  rw [pageOffset_eq hchn]
  rfl

theorem chip_lt (h : b.geometry.HasPage x.ppa) :
    chip_index b.geometry x.ppa < b.geometry.dies_per_channel * b.geometry.nand_planes_per_die := by
  obtain ⟨-, hdie, hplane, -, -⟩ := h
  calc x.ppa.die * b.geometry.nand_planes_per_die + x.ppa.plane
      < (x.ppa.die + 1) * b.geometry.nand_planes_per_die := by
        rw [Nat.add_mul, Nat.one_mul]
        omega
    _ ≤ _ := Nat.mul_le_mul_right _ hdie

theorem pageInChannel_lt (h : b.geometry.HasPage x.ppa) :
    pageInChannel (b.ctrl k) x < (b.ctrl k).pages_per_chn := by
  have hchip := chip_lt h
  obtain ⟨-, -, -, hblock, hpage⟩ := h
  have hplane : x.ppa.block * b.geometry.nand_pages_per_block + x.ppa.page <
      b.geometry.pages_per_plane := by
    calc x.ppa.block * b.geometry.nand_pages_per_block + x.ppa.page
        < (x.ppa.block + 1) * b.geometry.nand_pages_per_block := by
          rw [Nat.add_mul, Nat.one_mul]
          omega
      _ ≤ _ := Nat.mul_le_mul_right _ hblock
  have hgeometry : (b.ctrl k).geometry = b.geometry := rfl
  unfold pageInChannel NandCtrlParams.pages_per_chn NandCtrlParams.planes_per_chn
  rw [hgeometry]
  calc chip_index b.geometry x.ppa * b.geometry.pages_per_plane +
        x.ppa.block * b.geometry.nand_pages_per_block + x.ppa.page
      < (chip_index b.geometry x.ppa + 1) * b.geometry.pages_per_plane := by
        rw [Nat.add_mul, Nat.one_mul]
        omega
    _ ≤ _ := Nat.mul_le_mul_right _ hchip

theorem Takes.nil : b.Takes [] := ⟨Nat.zero_le _, by simp, by simp, by simp⟩

theorem Takes.inImage (h : b.Takes pages) (hx : x ∈ pages)
    (hchn : x.ppa.chn = (b.ctrl k).chn_index c) : InImage (b.ctrl k) c x := by
  refine ⟨pageInChannel_lt (h.has_page x hx), ?_⟩
  rw [← pageOffset_eq hchn]
  exact h.first_4_gib x hx

theorem mem_onChannel : x ∈ b.onChannel pages k c ↔
    x ∈ pages ∧ x.ppa.chn = (b.ctrl k).chn_index c := by
  simp [onChannel]

theorem onChannel_cons_self (hchn : x.ppa.chn = (b.ctrl k).chn_index c) :
    b.onChannel (x :: xs) k c = x :: b.onChannel xs k c := by
  simp [onChannel, hchn]

theorem onChannel_cons_other (hchn : x.ppa.chn = (b.ctrl k).chn_index c) (hne : ¬ (j = k ∧ d = c)) :
    b.onChannel (x :: xs) j d = b.onChannel xs j d := by
  have hother : ¬ (b.ctrl k).chn_index c = (b.ctrl j).chn_index d :=
    fun he => hne ⟨(index_inj he).1.symm, (index_inj he).2.symm⟩
  simp [onChannel, hchn, hother]

/-- The pages of one controller, as its stream. -/
def Takes.stream (h : b.Takes pages) (k : Fin b.num_nand_ctrls) : FlashStream (b.ctrl k) where
  pages := b.onChannel pages k
  chn _ _ hx := (mem_onChannel.mp hx).2
  chip _ _ hx := chip_lt (h.has_page _ (mem_onChannel.mp hx).1)
  widths c x hx := by
    obtain ⟨-, -, -, hblock, hpage⟩ := h.has_page x (mem_onChannel.mp hx).1
    exact ⟨Nat.lt_trans hpage b.geometry.pages_lt, Nat.lt_trans hblock b.geometry.blocks_lt⟩
  apart c x hx y hy := by
    obtain ⟨hx, hchn⟩ := mem_onChannel.mp hx
    obtain ⟨hy, hchn'⟩ := mem_onChannel.mp hy
    apply h.apart x hx y hy
    rw [hchn, hchn']
    exact fun he => Chn.other_ne (index_inj he).2.symm

theorem Takes.stream_inImage (h : b.Takes pages) {f : FlashStream (b.ctrl k)}
    (hf : f.pages = b.onChannel pages k) :
    True → ∀ c, ∀ x ∈ f.pages c, InImage (b.ctrl k) c x := by
  intro _ c x hx
  rw [hf] at hx
  obtain ⟨hx, hchn⟩ := mem_onChannel.mp hx
  exact h.inImage hx hchn

/-- The buffers of two channels have no byte in common. -/
theorem Takes.buffers_apart (h : b.Takes pages) (hne : ¬ (k = j ∧ c = d))
    (ha : InBuffers b.geometry (b.onChannel pages k c) a) :
    ¬ InBuffers b.geometry (b.onChannel pages j d) a := by
  rintro ⟨y, hy, hle', hlt'⟩
  obtain ⟨x, hx, hle, hlt⟩ := ha
  obtain ⟨hx, hchn⟩ := mem_onChannel.mp hx
  obtain ⟨hy, hchn'⟩ := mem_onChannel.mp hy
  have := h.apart x hx y hy (by rw [hchn, hchn']; exact fun he => hne (index_inj he))
  omega

/-- A buffer of the operation is one of a channel. -/
theorem Takes.buffer_channel (h : b.Takes pages) (ha : InBuffers b.geometry pages a) :
    ∃ k c, InBuffers b.geometry (b.onChannel pages k c) a := by
  obtain ⟨x, hx, hbyte⟩ := ha
  obtain ⟨k, c, -, hindex⟩ := exists_channel (h.has_page x hx).1
  exact ⟨k, c, x, mem_onChannel.mpr ⟨hx, hindex.symm⟩, hbyte⟩

/-! ## The memories after an operation -/

theorem executeAll_snoc : b.executeAll m (xs ++ [x]) = b.executePage (b.executeAll m xs) x := by
  simp [executeAll]

theorem executePage_ram (h : ¬ x.HasByte b.geometry a) : (b.executePage m x).ram a = m.ram a := by
  unfold FlashPage.HasByte at h
  have hout : a < x.ssd_addr ∨ x.ssd_addr + b.geometry.nandPageBytes ≤ a := by omega
  unfold executePage
  cases x.op with
  | FLASH_READ =>
    simp only
    exact writeWindow_outside hout
  | FLASH_PROGRAM => rfl

theorem executePage_image (hin : InImage (b.ctrl k) c x)
    (hchn : x.ppa.chn = (b.ctrl k).chn_index c) (h : ¬ InPart (b.ctrl k) c o) :
    (b.executePage m x).image o = m.image o := by
  unfold executePage
  cases x.op with
  | FLASH_READ => rfl
  | FLASH_PROGRAM =>
    simp only
    rw [pageOffset_eq hchn]
    apply writeWindow_outside
    by_contra hcon
    obtain ⟨i, rfl⟩ := Nat.exists_eq_add_of_le (show place (b.ctrl k) c x ≤ o by omega)
    have hi : i < b.geometry.nandPageBytes := by omega
    exact h (place_inPart hin hi)

theorem executeAll_ram (h : ¬ InBuffers b.geometry xs a) :
    (b.executeAll m xs).ram a = m.ram a := by
  induction xs using List.reverseRecOn with
  | nil => rfl
  | append_singleton xs x ih =>
    rw [executeAll_snoc, executePage_ram fun ha => h ⟨x, by simp, ha⟩]
    exact ih fun ha => h (ha.mono fun y hy => List.mem_append_left _ hy)

theorem Takes.executeAll_image (h : b.Takes pages) (hsub : ∀ x ∈ xs, x ∈ pages)
    (ho : ∀ k c, ¬ InPart (b.ctrl k) c o) : (b.executeAll m xs).image o = m.image o := by
  induction xs using List.reverseRecOn with
  | nil => rfl
  | append_singleton xs x ih =>
    have hx := hsub x (by simp)
    obtain ⟨k, c, -, hindex⟩ := exists_channel (h.has_page x hx).1
    rw [executeAll_snoc, executePage_image (h.inImage hx hindex.symm) hindex.symm (ho k c)]
    exact ih fun y hy => hsub y (List.mem_append_left _ hy)

/-- A channel finds its part of the image and its buffers as if there were no other channel. -/
theorem Takes.executeAll_alike (h : b.Takes pages) (k : Fin b.num_nand_ctrls) (c : Chn)
    (hsub : ∀ x ∈ xs, x ∈ pages) :
    Alike (b.ctrl k) c (InBuffers b.geometry (b.onChannel pages k c)) (b.executeAll m xs)
      (executePages (b.ctrl k) c m (b.onChannel xs k c)) := by
  induction xs using List.reverseRecOn with
  | nil => exact ⟨fun _ _ => rfl, fun _ _ => rfl⟩
  | append_singleton xs x ih =>
    have ih := ih fun y hy => hsub y (List.mem_append_left _ hy)
    have hx := hsub x (by simp)
    have hsplit : b.onChannel (xs ++ [x]) k c = b.onChannel xs k c ++ b.onChannel [x] k c :=
      List.filter_append _ _
    rw [executeAll_snoc, hsplit]
    by_cases hchn : x.ppa.chn = (b.ctrl k).chn_index c
    · have hone : b.onChannel [x] k c = [x] := by simp [onChannel, hchn]
      rw [hone, executePages_snoc, executePage_eq hchn]
      apply ih.executePage (h.inImage hx hchn)
      exact fun a ha => ⟨x, mem_onChannel.mpr ⟨hx, hchn⟩, ha⟩
    · have hnone : b.onChannel [x] k c = [] := by simp [onChannel, hchn]
      obtain ⟨j, d, -, hindex⟩ := exists_channel (h.has_page x hx).1
      have hne : ¬ (k = j ∧ c = d) := by
        rintro ⟨rfl, rfl⟩
        exact hchn hindex.symm
      rw [hnone, List.append_nil]
      refine ⟨fun o ho => ?_, fun a ha => ?_⟩
      · rw [← ih.image o ho]
        apply executePage_image (h.inImage hx hindex.symm) hindex.symm
        exact fun ho' => hne (part_inj ho ho')
      · rw [← ih.ram a ha]
        apply executePage_ram
        exact fun hbyte => h.buffers_apart hne ha ⟨x, mem_onChannel.mpr ⟨hx, hindex.symm⟩, hbyte⟩

end FlashBuild

end S4Sim
