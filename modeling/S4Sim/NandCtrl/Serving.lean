-- The controller serves a waiting room: the DMA engine takes a channel that
-- waits, each command keeps the invariant, and the recursion ends with a
-- settled channel.
import S4Sim.NandCtrl.Commands

namespace S4Sim

open Rings Windows

variable {p : NandCtrlParams} {f : FlashStream p} {m : FlashMemory} {ok : Prop} {c d : Chn}
  {s s' : NandCtrl} {tr : Chn → Track} {t t' : Track} {x : FlashPage} {k : Nat}
  {cmd : NcCommand} {l : List NcCommand} {unsent : Chn → List NcCommand}

namespace NandCtrl

/-! ## Chip events -/

theorem eventsOf_snoc (h : s'.chip_events = s.chip_events ++ [(c, k)]) :
    s'.eventsOf c = s.eventsOf c ++ [k] ∧ s'.eventsOf c.other = s.eventsOf c.other := by
  unfold eventsOf
  rw [h]
  simp [Ne.symm Chn.other_ne]

/-! ## The DMA engine -/

theorem pick_eq {first : Chn} (hwait : (s.channel c).wait_dma_completion = true)
    (hother : (s.channel c.other).wait_dma_completion = false) : s.pick first = some c := by
  unfold pick
  by_cases hc : first = c
  · rw [hc, if_pos hwait]
  · have hfirst := Chn.eq_other hc
    rw [hfirst, hother, if_neg Bool.false_ne_true, Chn.other_other, if_pos hwait]

theorem pick_none {first : Chn} (h : ∀ c, (s.channel c).wait_dma_completion = false) :
    s.pick first = s.current_chn := by
  unfold pick
  rw [h, h, if_neg Bool.false_ne_true, if_neg Bool.false_ne_true]

/-- The engine starts the DMA of the only channel that waits. -/
theorem run_dma_serves (read : Bool) (hwait : (s.channel c).wait_dma_completion = true)
    (hother : (s.channel c.other).wait_dma_completion = false)
    (hchip : (s.channel c).dma_chip = some k) (hread : (s.channel c).read_dma = read)
    (hwrite : (s.channel c).write_dma = !read) :
    s.run_dma p = { s with
      current_chn := some c
      toggle := !s.toggle
      dmas := s.dmas ++
        [⟨read, (s.channel c).dma_ram_ptr, c, k, List.range p.geometry.nandPageBytes⟩] } := by
  unfold run_dma
  rw [pick_eq hwait hother]
  simp only [hchip, hread, hwrite]
  cases read <;> simp [startDma]

theorem run_dma_idle (h : ∀ c, (s.channel c).wait_dma_completion = false)
    (hfree : s.current_chn = none) :
    s.run_dma p = { s with current_chn := none, toggle := !s.toggle } := by
  unfold run_dma
  rw [pick_none h, hfree]

/-! ## What a command does -/

/-- The chip of the page after READ_NAND: it is busy with the page in its register. -/
def sensedChip (p : NandCtrlParams) (s : NandCtrl) (c : Chn) (x : FlashPage) : NcChip :=
  ((ChipMedia.addressed ⟨(s.channel c).chips (chip_index p.geometry x.ppa), s.image⟩
    (cmdPhase p.geometry x)).do_read p c (chip_index p.geometry x.ppa)).chip

/-- The chip of the page after PROGRAM_NAND. -/
def pendingChip (p : NandCtrlParams) (s : NandCtrl) (c : Chn) (x : FlashPage) : NcChip :=
  { (ChipMedia.addressed ⟨(s.channel c).chips (chip_index p.geometry x.ppa), s.image⟩
      (cmdPhase p.geometry x)).chip with
    pending_write_cmd := some (cmdPhase p.geometry x) }

theorem sensedChip_reg {i : Nat} (hi : i < p.geometry.nandPageBytes) :
    (sensedChip p s c x).nand_page_reg i =
      s.image (p.page_offset (p.page_index c (chip_index p.geometry x.ppa) (x.ppa.block % 65536)
        (x.ppa.page % 65536)) + i) := by
  obtain ⟨hrow, hcol⟩ := ChipMedia.addressed_decodes (g := p.geometry) (x := x)
    (m := ⟨(s.channel c).chips (chip_index p.geometry x.ppa), s.image⟩)
  simp [sensedChip, ChipMedia.do_read, hrow, hcol, writeWindow, hi]

theorem pendingChip_row : (pendingChip p s c x).row_page = x.ppa.page % 65536 ∧
    (pendingChip p s c x).row_block = x.ppa.block % 65536 :=
  ChipMedia.addressed_decodes (g := p.geometry) (x := x)
    (m := ⟨(s.channel c).chips (chip_index p.geometry x.ppa), s.image⟩)

theorem process_cmd_read (hop : x.op = .FLASH_READ) :
    (s.process_cmd p c (cmdPhase p.geometry x)).popCmd c =
      { s.setChannel c { s.channel c with
          chips := Function.update (s.channel c).chips (chip_index p.geometry x.ppa)
            (sensedChip p s c x)
          active_nand_ops := ((s.channel c).active_nand_ops + 1) % 256
          cmd_waiting_room := (s.channel c).cmd_waiting_room.pop_front } with
        chip_events := s.chip_events ++ [(c, chip_index p.geometry x.ppa)] } := by
  have hcode : (cmdPhase p.geometry x).op = READ_NAND := by simp [cmdPhase, hop]
  have hchip : (cmdPhase p.geometry x).chip_enabled = chip_index p.geometry x.ppa := rfl
  unfold process_cmd
  rw [if_pos (Or.inl hcode), hchip]
  simp only [ChipMedia.start_cycles (Or.inl hop), ChipMedia.read_end hop]
  simp [onChip, setChip, setChannel, incActive, schedule, popCmd, sensedChip, ChipMedia.do_read]

theorem process_cmd_program (hop : x.op = .FLASH_PROGRAM) :
    (s.process_cmd p c (cmdPhase p.geometry x)).popCmd c =
      s.setChannel c { s.channel c with
        chips := Function.update (s.channel c).chips (chip_index p.geometry x.ppa)
          (pendingChip p s c x)
        cmd_waiting_room := (s.channel c).cmd_waiting_room.pop_front } := by
  have hcode : (cmdPhase p.geometry x).op = PROGRAM_NAND := by simp [cmdPhase, hop]
  have hchip : (cmdPhase p.geometry x).chip_enabled = chip_index p.geometry x.ppa := rfl
  unfold process_cmd
  rw [if_neg (by rw [hcode]; decide), if_pos hcode, hchip]
  simp only [ChipMedia.start_cycles (Or.inr hop)]
  simp [onChip, setChip, setChannel, popCmd, pendingChip]

/-- The channel waits for the DMA of its page. -/
def askDma (g : Geometry) (s : NandCtrl) (c : Chn) (x : FlashPage) : NandCtrl :=
  s.setChannel c { s.channel c with
    active_nand_ops := ((s.channel c).active_nand_ops + 1) % 256
    read_dma := decide (x.op = .FLASH_PROGRAM)
    write_dma := decide (x.op = .FLASH_READ)
    dma_ram_ptr := x.ssd_addr
    dma_chip := some (chip_index g x.ppa)
    wait_dma_completion := true }

theorem process_cmd_dma (hread : (s.channel c).read_dma = false)
    (hwrite : (s.channel c).write_dma = false) :
    s.process_cmd p c (dmaPhase p.geometry x) = (s.askDma p.geometry c x).process_dma p := by
  unfold process_cmd askDma
  cases hop : x.op with
  | FLASH_READ =>
    have hcode : (dmaPhase p.geometry x).op = WRITE_DMA := by simp [dmaPhase, hop]
    rw [hcode, if_neg (by decide), if_neg (by decide), if_pos (by decide)]
    simp [incActive, setChannel, WRITE_DMA, READ_DMA, dmaPhase, hop, hread]
  | FLASH_PROGRAM =>
    have hcode : (dmaPhase p.geometry x).op = READ_DMA := by simp [dmaPhase, hop]
    rw [hcode, if_neg (by decide), if_neg (by decide), if_pos (by decide)]
    simp [incActive, setChannel, READ_DMA, dmaPhase, hop, hwrite]

/-- The channel after its DMA command has left the room. -/
def askedChannel (g : Geometry) (ch : NcChannel) (x : FlashPage) : NcChannel :=
  { ch with
    active_nand_ops := (ch.active_nand_ops + 1) % 256
    read_dma := decide (x.op = .FLASH_PROGRAM)
    write_dma := decide (x.op = .FLASH_READ)
    dma_ram_ptr := x.ssd_addr
    dma_chip := some (chip_index g x.ppa)
    wait_dma_completion := true
    cmd_waiting_room := ch.cmd_waiting_room.pop_front }

/-- The DMA of a page. -/
def pageDma (p : NandCtrlParams) (c : Chn) (x : FlashPage) : DmaTransfer :=
  ⟨decide (x.op = .FLASH_PROGRAM), x.ssd_addr, c, chip_index p.geometry x.ppa,
    List.range p.geometry.nandPageBytes⟩

theorem process_cmd_dma_busy (hread : (s.channel c).read_dma = false)
    (hwrite : (s.channel c).write_dma = false) (hcurrent : s.current_chn = some d) :
    (s.process_cmd p c (dmaPhase p.geometry x)).popCmd c =
      s.setChannel c (askedChannel p.geometry (s.channel c) x) := by
  have hbusy : (s.askDma p.geometry c x).current_chn.isSome = true := by
    simp [askDma, setChannel, hcurrent]
  rw [process_cmd_dma hread hwrite, process_dma, if_pos hbusy]
  simp [askDma, popCmd, setChannel, askedChannel]

theorem process_cmd_dma_free (hread : (s.channel c).read_dma = false)
    (hwrite : (s.channel c).write_dma = false) (hfree : s.current_chn = none)
    (hother : (s.channel c.other).wait_dma_completion = false) :
    (s.process_cmd p c (dmaPhase p.geometry x)).popCmd c =
      { s.setChannel c (askedChannel p.geometry (s.channel c) x) with
        current_chn := some c
        toggle := !s.toggle
        dmas := s.dmas ++ [pageDma p c x] } := by
  have hidle : ¬ (s.askDma p.geometry c x).current_chn.isSome = true := by
    simp [askDma, setChannel, hfree]
  rw [process_cmd_dma hread hwrite, process_dma, if_neg hidle,
    run_dma_serves (c := c) (k := chip_index p.geometry x.ppa) (decide (x.op = .FLASH_PROGRAM))]
  · simp [askDma, popCmd, setChannel, askedChannel, pageDma]
  · simp [askDma, setChannel]
  · simpa [askDma, setChannel] using hother
  · simp [askDma, setChannel]
  · simp [askDma, setChannel]
  · cases hop : x.op <;> simp [askDma, setChannel, hop]

/-! ## What stays -/

theorem Asks.waits {g : Geometry} {stage : ChnStage} {dma : DmaTransfer} (h : stage.Asks g dma) :
    stage.waits = true := by
  cases stage <;> first | rfl | exact h.elim

/-- The engine when a channel that does not wait takes a command. -/
theorem Engine.update (h : Engine p s tr) (hcurrent : s'.current_chn = s.current_chn)
    (hdmas : s'.dmas = s.dmas) (hwait : (tr c).stage.waits = false)
    (hfree : s.current_chn = none → t'.stage.waits = false) :
    Engine p s' (Function.update tr c t') := by
  refine ⟨?_, ?_⟩
  · intro hnone
    rw [hcurrent] at hnone
    obtain ⟨hempty, hidle⟩ := h.free hnone
    refine ⟨by rw [hdmas, hempty], ?_⟩
    intro d
    by_cases hd : d = c
    · rw [hd, Function.update_self, hfree hnone]
    · rw [Function.update_of_ne hd, hidle]
  · intro d hd
    rw [hcurrent] at hd
    obtain ⟨dma, hdma, hchn, hasks, hleft⟩ := h.serves d hd
    have hne : d ≠ c := by
      rintro rfl
      rw [Asks.waits hasks] at hwait
      exact Bool.noConfusion hwait
    refine ⟨dma, by rw [hdmas, hdma], hchn, ?_, hleft⟩
    rwa [Function.update_of_ne hne]

/-- The engine when it starts the DMA of the only channel that waits. -/
theorem Engine.start (hdmas : s'.dmas = [pageDma p c x]) (hcurrent : s'.current_chn = some c)
    (hasks : (tr c).stage.Asks p.geometry (pageDma p c x)) : Engine p s' tr := by
  refine ⟨?_, ?_⟩
  · intro hnone
    rw [hcurrent] at hnone
    cases hnone
  · intro d hd
    rw [hcurrent] at hd
    cases hd
    exact ⟨pageDma p c x, hdmas, rfl, hasks, List.Sublist.refl _⟩

theorem Moved.iff_of_dmas (hdmas : s'.dmas = s.dmas) {i : Nat} :
    Moved p s' c i ↔ Moved p s c i := by
  unfold Moved
  rw [hdmas]

/-- A DMA that has just begun, or that is of the other channel, has moved no byte. -/
theorem not_moved (h : ∀ dma ∈ s.dmas, dma.chn = c →
    dma.left = List.range p.geometry.nandPageBytes) {i : Nat} : ¬ Moved p s c i := by
  rintro ⟨hi, dma, hmem, hchn, hleft⟩
  rw [h dma hmem hchn, List.mem_range] at hleft
  exact hleft hi

/-- The memories of a channel that nothing has touched. -/
theorem Data.congr (h : Data p m s c t) (himage : ∀ o, InPart p c o → s'.image o = s.image o)
    (hram : ∀ a, Own p s' c a → s'.ram a = s.ram a) (hown : ∀ a, Own p s' c a → Own p s c a)
    (hmoved : ∀ i, Moved p s' c i ↔ Moved p s c i)
    (hstored : ∀ x i, t.stage = .toRam x → Moved p s c i →
      s'.ram (x.ssd_addr + i) = s.ram (x.ssd_addr + i))
    (hregs : ∀ k, ((s'.channel c).chips k).nand_page_reg =
      ((s.channel c).chips k).nand_page_reg) : Data p m s' c t := by
  refine ⟨?_, ?_, ?_, ?_, ?_⟩
  · intro o ho
    rw [himage o ho]
    exact h.image o ho
  · intro a ha hnot
    rw [hram a ha]
    apply h.ram a (hown a ha)
    intro x i hx hi
    exact hnot x i hx ((hmoved i).mpr hi)
  · intro x i hx hi
    have hi := (hmoved i).mp hi
    rw [hstored x i hx hi]
    exact h.ram_moved x i hx hi
  · intro x hx i hi
    rw [hregs]
    exact h.reg x hx i hi
  · intro x i hx hi
    rw [hregs]
    exact h.reg_moved x i hx ((hmoved i).mp hi)

/-- A channel that takes a command of its current page has the same pages done. -/
theorem Data.restage (h : Data p m s c t) (hdone : t'.done = t.done)
    (hwait : t.stage.waits = false) (himage : s'.image = s.image) (hram : s'.ram = s.ram)
    (hissued : s'.issued c.other = s.issued c.other)
    (hmoved : t'.stage.waits = true → ∀ i, ¬ Moved p s' c i)
    (hreg : ∀ x, t'.stage = .sensed x ∨ t'.stage = .toRam x → ∀ i, i < p.geometry.nandPageBytes →
      ((s'.channel c).chips (chip_index p.geometry x.ppa)).nand_page_reg i =
        (executePages p c m t.done).image (place p c x + i)) : Data p m s' c t' := by
  refine ⟨?_, ?_, ?_, ?_, ?_⟩
  · intro o ho
    rw [himage, hdone]
    exact h.image o ho
  · intro a ha _
    rw [hram, hdone]
    apply h.ram a
    · unfold Own at ha ⊢
      rwa [hissued] at ha
    · intro x i hx
      simp [hx] at hwait
  · intro x i hx hi
    exact absurd hi (hmoved (by rw [hx]; rfl) i)
  · intro x hx i hi
    rw [hdone]
    exact hreg x hx i hi
  · intro x i hx hi
    exact absurd hi (hmoved (by rw [hx]; rfl) i)

/-- Of the channels only this one has changed, with its chip events. -/
structure ChannelMove (s s' : NandCtrl) (c : Chn) : Prop where
  crashed : s'.crashed = s.crashed
  todo : s'.todo = s.todo
  issued : s'.issued = s.issued
  other : s'.channel c.other = s.channel c.other
  events : s'.eventsOf c.other = s.eventsOf c.other

theorem channelMove_setChannel (s : NandCtrl) (c : Chn) (ch : NcChannel) :
    ChannelMove s (s.setChannel c ch) c := by
  refine ⟨rfl, rfl, rfl, ?_, rfl⟩
  simp [setChannel]

theorem channelMove_schedule {ch : NcChannel} (k : Nat) :
    ChannelMove s { s.setChannel c ch with chip_events := s.chip_events ++ [(c, k)] } c := by
  refine ⟨rfl, rfl, rfl, ?_, ?_⟩
  · simp [setChannel]
  · exact (eventsOf_snoc rfl).2

section Update

variable {unsent' : Chn → List NcCommand} (h : Working p f m ok unsent s tr)
  (hmove : ChannelMove s s' c) (hunsent : unsent' c.other = unsent c.other)
  (htracked : Tracked p.geometry (s'.channel c) (s'.eventsOf c) (unsent' c) (s.issued c) t')
  (hchips : ∀ k ∈ s'.eventsOf c, k < p.planes_per_chn)
  (hengine : Engine p s' (Function.update tr c t'))
include h hmove hunsent htracked hchips hengine

/-- The invariant after a change of one channel. -/
theorem Working.update (hdata : ok → Data p m s' c t' ∧ Data p m s' c.other (tr c.other)) :
    Working p f m ok unsent' s' (Function.update tr c t') := by
  refine ⟨by rw [hmove.crashed, h.sane], ?_, ?_, ?_, hengine, ?_⟩
  · intro d
    rw [hmove.issued, hmove.todo]
    exact h.pages d
  · intro d
    by_cases hd : d = c
    · subst hd
      rw [Function.update_self, hmove.issued]
      exact htracked
    · rw [Function.update_of_ne hd, hmove.issued, Chn.eq_other hd, hmove.other, hmove.events,
        hunsent]
      exact h.tracked c.other
  · intro d
    by_cases hd : d = c
    · subst hd
      exact hchips
    · rw [Chn.eq_other hd, hmove.events]
      exact h.chips c.other
  · intro ho d
    obtain ⟨hc, hother⟩ := hdata ho
    by_cases hd : d = c
    · subst hd
      rw [Function.update_self]
      exact hc
    · rw [Function.update_of_ne hd, Chn.eq_other hd]
      exact hother

/-- The invariant after a change of one channel that leaves the memories. -/
theorem Working.move (himage : s'.image = s.image) (hram : s'.ram = s.ram)
    (hmoved : ∀ i, Moved p s' c.other i ↔ Moved p s c.other i)
    (hdata : ok → Data p m s' c t') : Working p f m ok unsent' s' (Function.update tr c t') := by
  apply h.update hmove hunsent htracked hchips hengine
  intro ho
  refine ⟨hdata ho, (h.data ho c.other).congr ?_ ?_ ?_ hmoved ?_ ?_⟩
  · intro o _
    rw [himage]
  · intro a _
    rw [hram]
  · intro a ha
    unfold Own at ha ⊢
    rwa [hmove.issued] at ha
  · intro x i _ _
    rw [hram]
  · intro k
    rw [hmove.other]

end Update

/-! ## One command -/

theorem Working.current_mem (h : Working p f m ok unsent s tr)
    (hx : x ∈ (tr c).stage.pages ∨ x ∈ (tr c).later) : x ∈ f.pages c := by
  rw [← h.pages c, (h.tracked c).issued]
  simp only [List.mem_append]
  rcases hx with hx | hx
  · exact Or.inl (Or.inl (Or.inr hx))
  · exact Or.inl (Or.inr hx)

/-- The stage of a page that asks for its DMA. -/
def askingStage (x : FlashPage) : ChnStage :=
  if x.op = .FLASH_READ then .toRam x else .fromRam x

theorem askingStage_asks : (askingStage x).Asks p.geometry (pageDma p c x) := by
  unfold askingStage
  cases hop : x.op <;> simp [pageDma, hop]

/-- A page of a read that asks for its DMA was in the register of the chip. -/
theorem askingStage_reg {stage : ChnStage} {y : FlashPage} (hfits : stage.Fits)
    (hstage : stage = .sensed x ∨ stage = .addressed x)
    (hy : askingStage x = .sensed y ∨ askingStage x = .toRam y) : y = x ∧ stage = .sensed x := by
  unfold askingStage at hy
  cases hop : x.op with
  | FLASH_READ =>
    rw [if_pos hop] at hy
    rcases hstage with rfl | rfl
    · simp only [reduceCtorEq, ChnStage.toRam.injEq, false_or] at hy
      exact ⟨hy.symm, rfl⟩
    · rw [ChnStage.Fits, hop] at hfits
      cases hfits
  | FLASH_PROGRAM =>
    rw [if_neg (by simp [hop])] at hy
    simp at hy

/-- The channel asks for the DMA of its page, which begins when the engine is free. -/
theorem Working.dma_cmd (h : Working p f m ok unsent s tr)
    (hroom : (tr c).room = dmaPhase p.geometry x :: l)
    (hstage : (tr c).stage = .sensed x ∨ (tr c).stage = .addressed x)
    (hcoming : l ++ unsent c = (tr c).later.flatMap (commands p.geometry))
    (hbusy : ((s.channel c).chips (chip_index p.geometry x.ppa)).busy = false) :
    Working p f m ok unsent ((s.process_cmd p c (dmaPhase p.geometry x)).popCmd c)
      (Function.update tr c ⟨(tr c).done, askingStage x, (tr c).later, l⟩) := by
  have htracked := h.tracked c
  have hwait : (tr c).stage.waits = false := by
    rcases hstage with hstage | hstage <;> rw [hstage] <;> rfl
  have hread : (s.channel c).read_dma = false := by
    rw [Bool.eq_false_iff, ne_eq, htracked.read_dma]
    rcases hstage with hstage | hstage <;> simp [hstage]
  have hwrite : (s.channel c).write_dma = false := by
    rw [Bool.eq_false_iff, ne_eq, htracked.write_dma]
    rcases hstage with hstage | hstage <;> simp [hstage]
  have hasked : Tracked p.geometry (askedChannel p.geometry (s.channel c) x) (s.eventsOf c)
      (unsent c) (s.issued c) ⟨(tr c).done, askingStage x, (tr c).later, l⟩ :=
    htracked.ask hroom hstage hcoming hbusy
  have hdone : (⟨(tr c).done, askingStage x, (tr c).later, l⟩ : Track).done = (tr c).done := rfl
  have hreg : ok → ∀ y, askingStage x = .sensed y ∨ askingStage x = .toRam y →
      ∀ i, i < p.geometry.nandPageBytes →
        ((s.channel c).chips (chip_index p.geometry y.ppa)).nand_page_reg i =
          (executePages p c m (tr c).done).image (place p c y + i) := by
    intro ho y hy
    obtain ⟨rfl, hsensed⟩ := askingStage_reg htracked.fits hstage hy
    exact (h.data ho c).reg y (Or.inl hsensed)
  cases hcurrent : s.current_chn with
  | none =>
    obtain ⟨hdmas, hidle⟩ := h.engine.free hcurrent
    have hother : (s.channel c.other).wait_dma_completion = false := by
      rw [(h.tracked c.other).wait, hidle]
    rw [process_cmd_dma_free hread hwrite hcurrent hother, hdmas, List.nil_append]
    have hbegun : ∀ d i, ¬ Moved p { s.setChannel c (askedChannel p.geometry (s.channel c) x) with
        current_chn := some c, toggle := !s.toggle, dmas := [pageDma p c x] } d i := by
      intro d i
      apply not_moved
      intro dma hdma _
      rw [List.mem_singleton.mp hdma]
      rfl
    refine h.move ⟨rfl, rfl, rfl, ?_, rfl⟩ rfl ?_ (h.chips c) ?_ rfl rfl ?_ ?_
    · simp [setChannel]
    · simp only [setChannel, Function.update_self]
      exact hasked
    · apply Engine.start rfl rfl
      rw [Function.update_self]
      exact askingStage_asks
    · intro i
      apply iff_of_false (hbegun _ i)
      apply not_moved
      simp [hdmas]
    · intro ho
      refine (h.data ho c).restage hdone hwait rfl rfl rfl (fun _ => hbegun c) ?_
      simp only [setChannel, Function.update_self]
      exact hreg ho
  | some d =>
    obtain ⟨dma, hdma, hchn, hasks, -⟩ := h.engine.serves d hcurrent
    have hne : d ≠ c := by
      rintro rfl
      rw [Asks.waits hasks] at hwait
      cases hwait
    rw [process_cmd_dma_busy hread hwrite hcurrent]
    refine h.move (channelMove_setChannel s c _) rfl ?_ (h.chips c) ?_ rfl rfl ?_ ?_
    · simp only [setChannel, Function.update_self]
      exact hasked
    · refine h.engine.update rfl rfl hwait fun hnone => ?_
      rw [hcurrent] at hnone
      cases hnone
    · exact fun i => Moved.iff_of_dmas rfl
    · intro ho
      refine (h.data ho c).restage hdone hwait rfl rfl rfl (fun _ i => ?_) ?_
      · apply not_moved
        intro dma' hdma' hchn'
        have hdma' : dma' ∈ s.dmas := hdma'
        rw [hdma, List.mem_singleton] at hdma'
        rw [hdma', hchn] at hchn'
        exact absurd hchn' hne
      · simp only [setChannel, Function.update_self]
        exact hreg ho

/-- The channel reads its next page into a chip. -/
theorem Working.read_cmd {later : List FlashPage} (h : Working p f m ok unsent s tr)
    (hin : ok → ∀ c, ∀ x ∈ f.pages c, InImage p c x) (hop : x.op = .FLASH_READ)
    (hroom : (tr c).room = cmdPhase p.geometry x :: l) (hstage : (tr c).stage = .idle)
    (hlater : (tr c).later = x :: later)
    (hcoming : l ++ unsent c = dmaPhase p.geometry x :: later.flatMap (commands p.geometry))
    (hbusy : ((s.channel c).chips (chip_index p.geometry x.ppa)).busy = false) :
    Working p f m ok unsent ((s.process_cmd p c (cmdPhase p.geometry x)).popCmd c)
      (Function.update tr c ⟨(tr c).done, .sensed x, later, l⟩) := by
  have hpage : x ∈ f.pages c := h.current_mem (Or.inr (by simp [hlater]))
  have hwait : (tr c).stage.waits = false := by
    rw [hstage]
    rfl
  rw [process_cmd_read hop]
  generalize hch : ({ s.channel c with
    chips := _, active_nand_ops := _, cmd_waiting_room := _ } : NcChannel) = ch
  have hsnoc : ({ s.setChannel c ch with
      chip_events := s.chip_events ++ [(c, chip_index p.geometry x.ppa)] } : NandCtrl).chip_events =
      s.chip_events ++ [(c, chip_index p.geometry x.ppa)] := rfl
  obtain ⟨hevents, -⟩ := eventsOf_snoc hsnoc
  apply h.move (channelMove_schedule _) rfl
  · rw [hevents]
    simp only [setChannel, Function.update_self, ← hch]
    exact (h.tracked c).sense hroom hstage hlater hcoming hop hbusy rfl rfl
  · rw [hevents]
    intro k hk
    rcases List.mem_append.mp hk with hk | hk
    · exact h.chips c k hk
    · rw [List.mem_singleton.mp hk]
      exact f.chip c x hpage
  · exact h.engine.update rfl rfl hwait fun _ => rfl
  · rfl
  · rfl
  · exact fun i => Moved.iff_of_dmas rfl
  · intro ho
    have hdata := h.data ho c
    obtain ⟨hrow, hcol⟩ := f.widths c x hpage
    have hdone : (⟨(tr c).done, .sensed x, later, l⟩ : Track).done = (tr c).done := rfl
    refine hdata.restage hdone hwait rfl rfl rfl (by simp) ?_
    intro y hy i hi
    simp only [ChnStage.sensed.injEq, reduceCtorEq, or_false] at hy
    subst hy
    rw [← hdata.image _ (place_inPart (hin ho c x hpage) hi),
      ← page_offset_eq (hin ho c x hpage) hrow hcol]
    simp only [setChannel, Function.update_self, ← hch]
    exact sensedChip_reg hi

/-- A chip takes the address of the next page to program. -/
theorem Working.program_cmd {later : List FlashPage} (h : Working p f m ok unsent s tr)
    (hop : x.op = .FLASH_PROGRAM)
    (hroom : (tr c).room = cmdPhase p.geometry x :: l) (hstage : (tr c).stage = .idle)
    (hlater : (tr c).later = x :: later)
    (hcoming : l ++ unsent c = dmaPhase p.geometry x :: later.flatMap (commands p.geometry))
    (hbusy : ((s.channel c).chips (chip_index p.geometry x.ppa)).busy = false) :
    Working p f m ok unsent ((s.process_cmd p c (cmdPhase p.geometry x)).popCmd c)
      (Function.update tr c ⟨(tr c).done, .addressed x, later, l⟩) := by
  have hwait : (tr c).stage.waits = false := by
    rw [hstage]
    rfl
  rw [process_cmd_program hop]
  apply h.move (channelMove_setChannel s c _) rfl
  · simp only [setChannel, Function.update_self]
    exact (h.tracked c).address_cycles hroom hstage hlater hcoming hop hbusy hbusy rfl
      pendingChip_row
  · exact h.chips c
  · exact h.engine.update rfl rfl hwait fun _ => rfl
  · rfl
  · rfl
  · exact fun i => Moved.iff_of_dmas rfl
  · intro ho
    have hdone : (⟨(tr c).done, .addressed x, later, l⟩ : Track).done = (tr c).done := rfl
    refine (h.data ho c).restage hdone hwait rfl rfl rfl (by simp) ?_
    intro y hy
    simp at hy

/-! ## The whole room -/

/-- What the recursion over a room leaves as it was. -/
structure Served (s s' : NandCtrl) (tr tr' : Chn → Track) (c : Chn) : Prop where
  writes : s'.writes = s.writes
  other : s'.channel c.other = s.channel c.other
  new_cmd : (s'.channel c).new_cmd = (s.channel c).new_cmd
  track : tr' c.other = tr c.other

theorem Served.refl : Served s s tr tr c := ⟨rfl, rfl, rfl, rfl⟩

theorem Served.trans {u : NandCtrl} {tr' tr'' : Chn → Track} (h : Served s s' tr tr' c)
    (h' : Served s' u tr' tr'' c) : Served s u tr tr'' c :=
  ⟨h'.writes.trans h.writes, h'.other.trans h.other, h'.new_cmd.trans h.new_cmd,
    h'.track.trans h.track⟩

theorem run_dma_keeps : (s.run_dma p).channel = s.channel ∧ (s.run_dma p).writes = s.writes := by
  unfold run_dma
  generalize s.pick _ = picked
  cases picked with
  | none => exact ⟨rfl, rfl⟩
  | some d =>
    simp only
    split
    · exact ⟨rfl, rfl⟩
    · split_ifs <;> exact ⟨rfl, rfl⟩

theorem process_dma_keeps :
    (s.process_dma p).channel = s.channel ∧ (s.process_dma p).writes = s.writes := by
  unfold process_dma
  split
  · exact ⟨rfl, rfl⟩
  · exact run_dma_keeps

theorem process_cmd_keeps : ((s.process_cmd p c cmd).popCmd c).writes = s.writes ∧
    ((s.process_cmd p c cmd).popCmd c).channel c.other = s.channel c.other ∧
    (((s.process_cmd p c cmd).popCmd c).channel c).new_cmd = (s.channel c).new_cmd := by
  unfold process_cmd
  split_ifs <;> simp [popCmd, setChannel, setChip, onChip, incActive, schedule, process_dma_keeps]

theorem served_of_cmd : Served s ((s.process_cmd p c cmd).popCmd c) tr (Function.update tr c t) c :=
  have hkeeps := process_cmd_keeps
  ⟨hkeeps.1, hkeeps.2.1, hkeeps.2.2, Function.update_of_ne Chn.other_ne _ _⟩

/-- One command of the room, of any kind. -/
theorem Working.serve_cmd (h : Working p f m ok unsent s tr)
    (hin : ok → ∀ c, ∀ x ∈ f.pages c, InImage p c x) (hroom : (tr c).room = cmd :: l)
    (hwait : (tr c).stage.waits = false)
    (hbusy : ((s.channel c).chips cmd.chip_enabled).busy = false) :
    ∃ t', Working p f m ok unsent ((s.process_cmd p c cmd).popCmd c) (Function.update tr c t') ∧
      t'.room = l := by
  rcases (h.tracked c).front_cases hroom hwait with
    ⟨x, later, hstage, hlater, rfl, hcoming⟩ | ⟨x, hstage, rfl, hcoming⟩
  · cases hop : x.op with
    | FLASH_READ => exact ⟨_, h.read_cmd hin hop hroom hstage hlater hcoming hbusy, rfl⟩
    | FLASH_PROGRAM => exact ⟨_, h.program_cmd hop hroom hstage hlater hcoming hbusy, rfl⟩
  · exact ⟨_, h.dma_cmd hroom hstage hcoming hbusy, rfl⟩

/-- The recursion serves the room until its channel waits for a DMA or for a chip, or has no
command left. -/
theorem Working.process_cmds (hin : ok → ∀ c, ∀ x ∈ f.pages c, InImage p c x) :
    ∀ (fuel : Nat) (s : NandCtrl) (tr : Chn → Track), Working p f m ok unsent s tr →
      (tr c).room.length ≤ fuel →
      ∃ tr', Working p f m ok unsent (process_cmds p fuel s c) tr' ∧
        ChnSettled ((process_cmds p fuel s c).channel c) (tr' c) ∧
        Served s (process_cmds p fuel s c) tr tr' c
  | 0, s, tr, h, hfuel => by
    refine ⟨tr, h, ?_, Served.refl⟩
    intro _ cmd l hroom
    simp [hroom] at hfuel
  | fuel + 1, s, tr, h, hfuel => by
    have htracked := h.tracked c
    unfold NandCtrl.process_cmds
    cases hwait : (s.channel c).wait_dma_completion with
    | true =>
      rw [if_pos rfl]
      refine ⟨tr, h, ?_, Served.refl⟩
      intro hno
      rw [← htracked.wait, hwait] at hno
      cases hno
    | false =>
      rw [if_neg Bool.false_ne_true]
      have hroomHolds := htracked.room
      cases hroom : (tr c).room with
      | nil =>
        rw [hroom] at hroomHolds
        rw [hroomHolds.front_nil]
        refine ⟨tr, h, ?_, Served.refl⟩
        intro _ cmd l hcons
        rw [hroom] at hcons
        cases hcons
      | cons cmd l =>
        rw [hroom] at hroomHolds
        simp only [hroomHolds.front]
        cases hbusy : ((s.channel c).chips cmd.chip_enabled).busy with
        | true =>
          rw [if_pos rfl]
          refine ⟨tr, h, ?_, Served.refl⟩
          intro _ cmd' l' hcons
          rw [hroom] at hcons
          cases hcons
          exact hbusy
        | false =>
          rw [if_neg Bool.false_ne_true]
          rw [htracked.wait] at hwait
          obtain ⟨t', hworking, hl⟩ := h.serve_cmd hin hroom hwait hbusy
          have hless : (Function.update tr c t' c).room.length ≤ fuel := by
            rw [Function.update_self, hl]
            rw [hroom, List.length_cons] at hfuel
            omega
          obtain ⟨tr', hworking', hsettled, hserved⟩ :=
            Working.process_cmds hin fuel _ _ hworking hless
          exact ⟨tr', hworking', hsettled, served_of_cmd.trans hserved⟩

/-- A channel whose room is served is settled. -/
theorem Working.serve (h : Working p f m ok unsent s tr)
    (hin : ok → ∀ c, ∀ x ∈ f.pages c, InImage p c x) (c : Chn) :
    ∃ tr', Working p f m ok unsent (s.process_waiting_room_cmd p c) tr' ∧
      ChnSettled ((s.process_waiting_room_cmd p c).channel c) (tr' c) ∧
      Served s (s.process_waiting_room_cmd p c) tr tr' c := by
  apply Working.process_cmds hin _ s tr h
  rw [(h.tracked c).room.items]

end NandCtrl

end S4Sim
