-- The laws of the NAND controller. Each channel executes the pairs of its
-- commands one after another, in the order in which the firmware issues them,
-- for pages in the first 4 GiB of the image. No channel with waiting commands
-- is left without an event.
import S4Sim.NandCtrl.SharedMedia

namespace S4Sim

open Rings Runs Windows

namespace NandCtrl

/-! ## The laws -/

/-- The memories are those of the pages that were issued to the channel, one after another:
the part of the image that belongs to the channel, and every byte of the RAM that the other
channel does not read a page into. The image outside of the two parts is as it was. -/
structure ExecutedInOrder (p : NandCtrlParams) (m : FlashMemory) (s : NandCtrl) (c : Chn) :
    Prop where
  image : ∀ o, InPart p c o → s.image o = (executePages p c m (s.issued c)).image o
  ram : ∀ a, Own p s c a → s.ram a = (executePages p c m (s.issued c)).ram a
  elsewhere : ∀ o, (∀ c, ¬ InPart p c o) → s.image o = m.image o

/-- When the pairs have been pushed and the channel counts no operation, they are executed. -/
def DoneAtZero (p : NandCtrlParams) (m : FlashMemory) (s : NandCtrl) (c : Chn) : Prop :=
  s.writes c = [] → s.activeOperationCount c = 0 → ExecutedInOrder p m s c

/-- A channel with waiting commands has an event to come, of a chip or of its DMA, or it waits
for the engine that serves the other channel. -/
def WakeUpKept (s : NandCtrl) (c : Chn) : Prop :=
  (s.channel c).cmd_waiting_room.items ≠ 0 →
    (∃ k, (c, k) ∈ s.chip_events) ∨ (∃ d ∈ s.dmas, d.chn = c) ∨
      ((s.channel c).wait_dma_completion = true ∧ ∃ d ∈ s.dmas, d.chn = c.other)

section Laws

variable {p : NandCtrlParams} {f : FlashStream p} {m : FlashMemory} {ok : Prop}
  {s s' : NandCtrl} {tr : Chn → Track} {toggle : Bool} {image ram : Nat → UInt8}
  {regs : Chn → Nat → Nat → UInt8} {acts : List NandAction} {a : NandAction}

/-- A step changes the image in the parts of the two channels only. -/
theorem Good.step_elsewhere {o : Nat} (h : Good p f m ok s tr) (hok : ok)
    (hin : ok → ∀ c, ∀ x ∈ f.pages c, InImage p c x) (hs : nandStep p s a = some s')
    (ho : ∀ c, ¬ InPart p c o) : s'.image o = s.image o := by
  cases a with
  | nextPage c =>
    unfold nandStep at hs
    rw [if_neg (by rw [h.working.sane]; decide)] at hs
    simp only [nextPage] at hs
    split at hs
    · cases hs
      rfl
    · cases hs
  | registerWrite c =>
    unfold nandStep at hs
    rw [if_neg (by rw [h.working.sane]; decide)] at hs
    exact congrFun (h.register_frame hs).2.2.2 o
  | moveByte n i | dmaComplete n | chipComplete c k =>
    exact (h.event_frame hok hin rfl hs).image o ho

theorem run_elsewhere (hin : ∀ c, ∀ x ∈ f.pages c, InImage p c x)
    (h : run (nandStep p) (initialNand f.pages toggle image ram regs) acts = some s) :
    (∃ tr, Good p f ⟨image, ram⟩ True s tr) ∧
      ∀ o, (∀ c, ¬ InPart p c o) → s.image o = image o := by
  refine run_keeps (I := fun s => (∃ tr, Good p f ⟨image, ram⟩ True s tr) ∧
    ∀ o, (∀ c, ¬ InPart p c o) → s.image o = image o) ?_ ⟨⟨_, good_initial⟩, fun _ _ => rfl⟩ h
  rintro s a s' ⟨⟨tr, hgood⟩, hrest⟩ hs
  refine ⟨hgood.step (fun _ => hin) hs, fun o ho => ?_⟩
  rw [hgood.step_elsewhere trivial (fun _ => hin) hs ho, hrest o ho]

theorem Good.wakeUpKept (h : Good p f m ok s tr) (c : Chn) : WakeUpKept s c := by
  intro hitems
  have htracked := h.working.tracked c
  cases hwait : (tr c).stage.waits with
  | false =>
    left
    cases hroom : (tr c).room with
    | nil =>
      rw [htracked.room.items, hroom] at hitems
      exact absurd rfl hitems
    | cons cmd l =>
      have hbusy := h.settled c hwait cmd l hroom
      exact ⟨cmd.chip_enabled, mem_eventsOf.mp ((htracked.busy _).mp hbusy)⟩
  | true =>
    right
    cases hcurrent : s.current_chn with
    | none =>
      rw [(h.working.engine.free hcurrent).2 c] at hwait
      cases hwait
    | some d =>
      obtain ⟨dma, hdmas, hchn, -⟩ := h.working.engine.serves d hcurrent
      have hmem : dma ∈ s.dmas := by
        rw [hdmas]
        exact List.mem_singleton_self dma
      by_cases hd : d = c
      · exact Or.inl ⟨dma, hmem, hchn.trans hd⟩
      · exact Or.inr ⟨htracked.wait.trans hwait, dma, hmem, hchn.trans (Chn.eq_other hd)⟩

end Laws

/-- For every stream of pages and every order of the events, no wake-up is lost, and when all
the pages lie in the first 4 GiB, a channel that counts no operation has executed its pairs in
the order of their issue. -/
theorem the_pairs_are_executed_in_order_in_the_first_4_gib {p : NandCtrlParams}
    (f : FlashStream p) {toggle : Bool} {image ram : Nat → UInt8}
    {regs : Chn → Nat → Nat → UInt8} {acts : List NandAction} {s : NandCtrl}
    (h : run (nandStep p) (initialNand f.pages toggle image ram regs) acts = some s) :
    (∀ c, WakeUpKept s c) ∧
      ((∀ c, ∀ x ∈ f.pages c, InImage p c x) → ∀ c, DoneAtZero p ⟨image, ram⟩ s c) := by
  constructor
  · have hnone : False → ∀ c, ∀ x ∈ f.pages c, InImage p c x := False.elim
    obtain ⟨tr, hgood⟩ := good_run hnone h
    exact hgood.wakeUpKept
  · intro hin
    obtain ⟨⟨tr, hgood⟩, helsewhere⟩ := run_elsewhere hin h
    intro c hwrites hcount
    obtain ⟨hpart, hram⟩ := hgood.executed hwrites hcount
    exact ⟨hpart, hram, helsewhere⟩

/-! ## Six pages on two channels -/

/-- Two channels with two chips each, and pages of two bytes. -/
def geometry2Chips : Geometry :=
  { twoChannels with
    nand_pkgs_per_chn := 2
    nand_page_size := 1
    host_page_size := 1
    mapping_table_bytes := 120
    pkgs_pos := Nat.two_pos
    dies_le := by decide
    total_le := by decide
    tables_fit := by decide }

def ctrl2Chips : NandCtrlParams where
  geometry := geometry2Chips
  NC_index := 0
  channels := by decide
  chips_le := by decide

/-- The first channel programs a page, reads it back and reads a page of its other chip. The
second one programs what it has read to another page, and a second one behind it. -/
def sixPages : FlashStream ctrl2Chips where
  pages
    | .channel_0 => [⟨.FLASH_PROGRAM, ⟨0, 0, 0, 0, 1⟩, 0⟩, ⟨.FLASH_READ, ⟨0, 0, 0, 0, 1⟩, 2⟩,
        ⟨.FLASH_READ, ⟨0, 1, 0, 1, 2⟩, 4⟩]
    | .channel_1 => [⟨.FLASH_READ, ⟨1, 1, 0, 0, 0⟩, 6⟩, ⟨.FLASH_PROGRAM, ⟨1, 0, 0, 1, 0⟩, 6⟩,
        ⟨.FLASH_PROGRAM, ⟨1, 0, 0, 1, 1⟩, 8⟩]
  chn := by rintro (_ | _) <;> decide
  chip := by rintro (_ | _) <;> decide
  widths := by rintro (_ | _) <;> decide
  apart := by rintro (_ | _) <;> decide

/-- Each byte of the image is its offset, and each byte of the RAM its address and 100. -/
def numberedMemory : FlashMemory := ⟨fun o => UInt8.ofNat o, fun a => UInt8.ofNat (100 + a)⟩

/-- A DMA moves the two bytes of a page. -/
def twoMoves : List NandAction := [.moveByte 0 1, .moveByte 0 0, .dmaComplete 0]

/-- The pages are issued to the channels in turn. A chip of the second channel is done before
the first DMA, so the channel waits for the engine. -/
def sixPagesActions : List NandAction :=
  ((List.range 3).flatMap fun _ => [Chn.channel_0, .channel_1].flatMap fun c =>
    .nextPage c :: List.replicate 7 (.registerWrite c)) ++
  [.chipComplete .channel_1 1] ++ twoMoves ++
  [.chipComplete .channel_0 0, .chipComplete .channel_0 0] ++ twoMoves ++ twoMoves ++
  [.chipComplete .channel_0 1] ++ twoMoves ++ [.chipComplete .channel_1 0] ++ twoMoves ++
  twoMoves ++ [.chipComplete .channel_1 0]

theorem six_pages_are_executed_in_order :
    ∃ s, run (nandStep ctrl2Chips) (initialNand sixPages.pages true numberedMemory.image
        numberedMemory.ram fun _ _ _ => 0) sixPagesActions = some s ∧
      (∀ c, WakeUpKept s c) ∧
      ∀ c, s.issued c = sixPages.pages c ∧ ExecutedInOrder ctrl2Chips numberedMemory s c := by
  have hrun : (run (nandStep ctrl2Chips) (initialNand sixPages.pages true numberedMemory.image
      numberedMemory.ram fun _ _ _ => 0) sixPagesActions).map (fun s =>
        [Chn.channel_0, .channel_1].map fun c =>
          (s.writes c, s.activeOperationCount c, s.issued c)) =
      some [([], 0, sixPages.pages .channel_0), ([], 0, sixPages.pages .channel_1)] := by
    decide +kernel
  obtain ⟨s, hs, hfacts⟩ := Option.map_eq_some_iff.mp hrun
  have hdone : ∀ c, s.writes c = [] ∧ s.activeOperationCount c = 0 ∧
      s.issued c = sixPages.pages c := by
    simp only [List.map_cons, List.map_nil, List.cons.injEq, Prod.mk.injEq, and_true] at hfacts
    rintro (_ | _)
    · exact hfacts.1
    · exact hfacts.2
  obtain ⟨hwake, hin⟩ := the_pairs_are_executed_in_order_in_the_first_4_gib sixPages hs
  refine ⟨s, hs, hwake, fun c => ⟨(hdone c).2.2, ?_⟩⟩
  exact hin (by rintro (_ | _) <;> decide) c (hdone c).1 (hdone c).2.1

/-! ## A page behind the first 4 GiB -/

/-- Two channels with one chip each, and 4 GiB a channel. -/
def geometry8GiB : Geometry :=
  { twoChannels with
    nand_blocks_per_plane := 2048
    nand_pages_per_block := 128
    nand_page_size := 14
    mapping_table_bytes := 4194304
    blocks_pos := by decide
    pages_pos := by decide
    blocks_lt := by decide
    pages_lt := by decide
    total_le := by decide
    tables_fit := by decide }

def ctrl8GiB : NandCtrlParams where
  geometry := geometry8GiB
  NC_index := 0
  channels := by decide
  chips_le := by decide

/-- A read of the first page of a channel. -/
def firstPage (chn : Nat) : FlashPage := ⟨.FLASH_READ, ⟨chn, 0, 0, 0, 0⟩, 0⟩

theorem eq_of_mem_one {c d : Chn} {x y : FlashPage}
    (h : x ∈ if d = c then [y] else []) : d = c ∧ x = y := by
  split at h
  · exact ⟨‹_›, List.mem_singleton.mp h⟩
  · cases h

/-- The stream that reads the first page of one channel. -/
def readFirstPage (c : Chn) : FlashStream ctrl8GiB where
  pages d := if d = c then [firstPage (ctrl8GiB.chn_index c)] else []
  chn d x hx := by
    obtain ⟨rfl, rfl⟩ := eq_of_mem_one hx
    rfl
  chip d x hx := by
    obtain ⟨rfl, rfl⟩ := eq_of_mem_one hx
    exact (by decide : 0 < 1)
  widths d x hx := by
    obtain ⟨rfl, rfl⟩ := eq_of_mem_one hx
    exact ⟨(by decide : 0 < 65536), (by decide : 0 < 65536)⟩
  apart d x hx y hy := by
    have hd := (eq_of_mem_one hx).1
    rw [← hd] at hy
    exact absurd (eq_of_mem_one hy).1 Chn.other_ne

/-- The image has zeros in the first 4 GiB and ones behind them. -/
def image8GiB (o : Nat) : UInt8 := if o < 4294967296 then 0 else 1

def startReading (c : Chn) : NandCtrl :=
  initialNand (readFirstPage c).pages true image8GiB (fun _ => 0) fun _ _ _ => 0

/-- The page is issued, and the chip ends its operation. -/
def sensing (c : Chn) : List NandAction :=
  [.nextPage c, .registerWrite c, .registerWrite c, .registerWrite c, .registerWrite c,
    .registerWrite c, .registerWrite c, .registerWrite c, .chipComplete c 0]

def sensedState (c : Chn) : NandCtrl :=
  (run (nandStep ctrl8GiB) (startReading c) (sensing c)).getD (startReading c)

theorem run_sensing (c : Chn) :
    run (nandStep ctrl8GiB) (startReading c) (sensing c) = some (sensedState c) := by
  cases c <;> rfl

theorem sensed_facts (c : Chn) : (sensedState c).crashed = false ∧
    (sensedState c).dmas = [⟨false, 0, c, 0, List.range ctrl8GiB.geometry.nandPageBytes⟩] ∧
    (sensedState c).issued c = [firstPage (ctrl8GiB.chn_index c)] ∧
    (sensedState c).writes c = [] ∧ (sensedState c).ram = fun _ => 0 := by
  cases c <;> exact ⟨rfl, rfl, rfl, rfl, rfl⟩

theorem sensed_reg (c : Chn) (i : Nat) :
    (((sensedState c).channel c).chips 0).nand_page_reg i = 0 := by
  have hreg : (((sensedState c).channel c).chips 0).nand_page_reg =
      writeWindow (fun _ => 0) 0 16384 fun i => image8GiB (0 + i) := by
    cases c <;> rfl
  rw [hreg]
  by_cases hi : i < 16384
  · rw [writeWindow_front hi, Nat.zero_add, image8GiB, if_pos (by omega)]
  · exact writeWindow_outside (by omega)

/-- The bytes of a read come into the RAM in turn. -/
theorem run_moves {p : NandCtrlParams} {chn : Chn} {k : Nat} :
    ∀ (l : List Nat) (s : NandCtrl), s.crashed = false → s.dmas = [⟨false, 0, chn, k, l⟩] →
      (∀ i, ((s.channel chn).chips k).nand_page_reg i = 0) → s.ram = (fun _ => 0) →
      run (nandStep p) s (l.map (.moveByte 0)) = some { s with dmas := [⟨false, 0, chn, k, []⟩] }
  | [], s, _, hdmas, _, _ => by
    rw [List.map_nil, run_nil, ← hdmas]
  | i :: l, s, hsane, hdmas, hreg, hram => by
    have hstep : nandStep p s (.moveByte 0 i) =
        some { s with dmas := [⟨false, 0, chn, k, l⟩] } := by
      simp [nandStep, hsane, moveStep, hdmas, moveByte, hreg, hram]
    rw [List.map_cons, run_cons, hstep, Option.bind_some]
    exact run_moves l _ hsane rfl hreg hram

/-- The actions of the whole read. -/
def reading (c : Chn) : List NandAction :=
  sensing c ++ (List.range ctrl8GiB.geometry.nandPageBytes).map (.moveByte 0) ++ [.dmaComplete 0]

/-- The controller after the read. -/
def readState (c : Chn) : NandCtrl :=
  (dmaCompleteStep ctrl8GiB { sensedState c with dmas := [⟨false, 0, c, 0, []⟩] } 0).getD
    (sensedState c)

theorem run_reading (c : Chn) :
    run (nandStep ctrl8GiB) (startReading c) (reading c) = some (readState c) := by
  obtain ⟨hsane, hdmas, -, -, hram⟩ := sensed_facts c
  unfold reading
  rw [run_append, run_append, run_sensing, Option.bind_some,
    run_moves _ _ hsane hdmas (sensed_reg c) hram, Option.bind_some, run_cons]
  cases c <;> rfl

theorem readState_facts (c : Chn) : (readState c).writes c = [] ∧
    (readState c).activeOperationCount c = 0 ∧
    (readState c).issued c = [firstPage (ctrl8GiB.chn_index c)] ∧
    (readState c).issued c.other = [] ∧ (readState c).ram = fun _ => 0 := by
  cases c <;> exact ⟨rfl, rfl, rfl, rfl, rfl⟩

/-- The first page of the second channel lies behind 4 GiB: the first page of the first channel
is read in its place. -/
theorem a_page_behind_4_gib_is_read_from_another_place :
    ¬ ∀ (p : NandCtrlParams) (f : FlashStream p) (toggle : Bool) (image ram : Nat → UInt8)
      (regs : Chn → Nat → Nat → UInt8) (acts : List NandAction) (s : NandCtrl),
      run (nandStep p) (initialNand f.pages toggle image ram regs) acts = some s →
        ∀ c, DoneAtZero p ⟨image, ram⟩ s c ∧ WakeUpKept s c := by
  intro h
  have hdone := (h ctrl8GiB (readFirstPage .channel_1) true image8GiB (fun _ => 0)
    (fun _ _ _ => 0) _ _ (run_reading .channel_1) .channel_1).1
  obtain ⟨hwrites, hcount, hissued, hother, hram⟩ := readState_facts .channel_1
  have hzero := (hdone hwrites hcount).ram 0 fun y hy => by
    rw [hother] at hy
    cases hy
  rw [hissued, hram] at hzero
  exact absurd hzero (by decide)

end NandCtrl

end S4Sim
