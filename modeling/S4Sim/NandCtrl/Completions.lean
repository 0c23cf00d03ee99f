-- The events of the controller: a chip ends its operation, a DMA moves a byte
-- and ends. The end of a DMA is the end of a page: the page is done, the engine
-- goes to the other channel when it waits, and the room of the channel is
-- served again.
import S4Sim.NandCtrl.Serving

namespace S4Sim

open Rings Windows

variable {p : NandCtrlParams} {f : FlashStream p} {m : FlashMemory} {ok : Prop} {c d : Chn}
  {g : Geometry} {ch : NcChannel} {events : List Nat} {waiting : List NcCommand}
  {issued : List FlashPage} {s s' : NandCtrl} {tr : Chn → Track} {t t' : Track} {x : FlashPage}
  {k n i : Nat} {chip : NcChip} {unsent : Chn → List NcCommand}

/-! ## The channel -/

/-- The channel after a chip has ended its operation. -/
theorem Tracked.chip_done (h : Tracked g ch events waiting issued t) (hk : k ∈ events) :
    Tracked g { ch with
        chips := Function.update ch.chips k { ch.chips k with busy := false }
        active_nand_ops := (ch.active_nand_ops + 255) % 256 }
      (events.erase k) waiting issued t := by
  have hchip : ∀ j, ∃ b, Function.update ch.chips k { ch.chips k with busy := false } j =
      { ch.chips j with busy := b } := by
    intro j
    by_cases hj : j = k
    · subst hj
      exact ⟨false, Function.update_self _ _ _⟩
    · exact ⟨(ch.chips j).busy, Function.update_of_ne hj _ _⟩
  refine ⟨h.issued, h.room, h.size, h.coming, h.fits, h.wait, h.read_dma, h.write_dma, h.dma,
    ?_, ?_, ?_, ?_, h.once.erase k, ?_⟩
  · intro j
    obtain ⟨b, hb⟩ := hchip j
    simp only [hb]
    exact h.pending j
  · intro y hy
    obtain ⟨b, hb⟩ := hchip (chip_index g y.ppa)
    simp only [hb]
    exact h.address y hy
  · intro j hj
    by_cases he : j = k
    · subst he
      simp
    · simp only [Function.update_of_ne he]
      exact h.calm j hj
  · intro j
    rw [h.once.mem_erase_iff]
    by_cases he : j = k
    · subst he
      simp
    · simp only [Function.update_of_ne he, h.busy j]
      simp [he]
  · have hpos := List.length_pos_of_mem hk
    have hactive := h.active
    rw [List.length_erase_of_mem hk]
    simp only
    omega

/-- The channel after the DMA of a read. -/
theorem Tracked.read_done (h : Tracked g ch events waiting issued t) (hstage : t.stage = .toRam x) :
    Tracked g { ch with
        active_nand_ops := (ch.active_nand_ops + 255) % 256
        write_dma := false
        dma_chip := none
        dma_ram_ptr := 0
        wait_dma_completion := false }
      events waiting issued ⟨t.done ++ [x], .idle, t.later, t.room⟩ := by
  have hactive := h.active
  have hcoming := h.coming
  rw [hstage] at hactive hcoming
  refine ⟨?_, h.room, h.size, hcoming, trivial, rfl, ?_, by simp, by simp, ?_, by simp, by simp,
    h.busy, h.once, ?_⟩
  · rw [h.issued, hstage]
    simp
  · rw [h.read_dma, hstage]
    simp
  · intro k
    rw [h.pending k, hstage]
    rfl
  · simp only [ChnStage.waits, Bool.toNat_true, Bool.toNat_false] at hactive ⊢
    omega

/-- The channel after the DMA of a program, which makes the chip busy. -/
theorem Tracked.program_done (h : Tracked g ch events waiting issued t)
    (hstage : t.stage = .fromRam x) (hbusy : chip.busy = true)
    (hpending : chip.pending_write_cmd = none) :
    Tracked g { ch with
        chips := Function.update ch.chips (chip_index g x.ppa) chip
        active_nand_ops := ((ch.active_nand_ops + 255) % 256 + 1) % 256
        read_dma := false
        dma_chip := none
        dma_ram_ptr := 0
        wait_dma_completion := false }
      (events ++ [chip_index g x.ppa]) waiting issued
      ⟨t.done ++ [x], .idle, t.later, t.room⟩ := by
  have hactive := h.active
  have hcoming := h.coming
  rw [hstage] at hactive hcoming
  have hnew : chip_index g x.ppa ∉ events := by
    rw [← h.busy, h.calm _ (by rw [hstage]; rfl)]
    exact Bool.false_ne_true
  refine ⟨?_, h.room, h.size, hcoming, trivial, rfl, by simp, ?_, by simp, ?_, by simp, by simp,
    ?_, ?_, ?_⟩
  · rw [h.issued, hstage]
    simp
  · rw [h.write_dma, hstage]
    simp
  · intro k
    by_cases he : k = chip_index g x.ppa
    · subst he
      simp [hpending]
    · simp only [Function.update_of_ne he, h.pending k, hstage]
      simp [he]
  · intro k
    by_cases he : k = chip_index g x.ppa
    · subst he
      simp [hbusy]
    · simp only [Function.update_of_ne he, h.busy k, List.mem_append, List.mem_singleton, he,
        or_false]
  · rw [List.nodup_append]
    refine ⟨h.once, List.nodup_singleton _, ?_⟩
    intro a ha b hb
    rw [List.mem_singleton] at hb
    rintro rfl
    exact hnew (hb ▸ ha)
  · simp only [ChnStage.waits, Bool.toNat_true, Bool.toNat_false, List.length_append,
      List.length_singleton] at hactive ⊢
    omega

/-- The channel after a byte has come into a page register. -/
theorem Tracked.register (h : Tracked g ch events waiting issued t) (reg : Nat → UInt8) :
    Tracked g { ch with
        chips := Function.update ch.chips k { ch.chips k with nand_page_reg := reg } }
      events waiting issued t := by
  have hchip : ∀ j, ∃ r, Function.update ch.chips k { ch.chips k with nand_page_reg := reg } j =
      { ch.chips j with nand_page_reg := r } := by
    intro j
    by_cases hj : j = k
    · subst hj
      exact ⟨reg, Function.update_self _ _ _⟩
    · exact ⟨(ch.chips j).nand_page_reg, Function.update_of_ne hj _ _⟩
  refine ⟨h.issued, h.room, h.size, h.coming, h.fits, h.wait, h.read_dma, h.write_dma, h.dma,
    ?_, ?_, ?_, ?_, h.once, h.active⟩
  · intro j
    obtain ⟨r, hr⟩ := hchip j
    simp only [hr]
    exact h.pending j
  · intro y hy
    obtain ⟨r, hr⟩ := hchip (chip_index g y.ppa)
    simp only [hr]
    exact h.address y hy
  · intro j hj
    obtain ⟨r, hr⟩ := hchip j
    simp only [hr]
    exact h.calm j hj
  · intro j
    obtain ⟨r, hr⟩ := hchip j
    simp only [hr]
    exact h.busy j

/-- What a channel that waits for the engine asks it for. -/
theorem Tracked.asking (h : Tracked g ch events waiting issued t) (hwait : t.stage.waits = true) :
    ∃ y, t.stage = NandCtrl.askingStage y ∧ ch.dma_chip = some (chip_index g y.ppa) ∧
      ch.dma_ram_ptr = y.ssd_addr ∧ ch.read_dma = decide (y.op = .FLASH_PROGRAM) ∧
      ch.write_dma = !decide (y.op = .FLASH_PROGRAM) := by
  have hfits := h.fits
  have hread := h.read_dma
  have hwrite := h.write_dma
  cases hstage : t.stage with
  | idle | sensed y | addressed y =>
    rw [hstage] at hwait
    cases hwait
  | toRam y =>
    have hop : y.op = .FLASH_READ := by rwa [hstage] at hfits
    obtain ⟨hchip, hptr⟩ := h.dma y (Or.inl hstage)
    rw [hstage] at hread hwrite
    refine ⟨y, ?_, hchip, hptr, ?_, ?_⟩
    · rw [NandCtrl.askingStage, if_pos hop]
    · simpa [hop] using hread
    · simpa [hop] using hwrite
  | fromRam y =>
    have hop : y.op = .FLASH_PROGRAM := by rwa [hstage] at hfits
    obtain ⟨hchip, hptr⟩ := h.dma y (Or.inr hstage)
    rw [hstage] at hread hwrite
    refine ⟨y, ?_, hchip, hptr, ?_, ?_⟩
    · rw [NandCtrl.askingStage, if_neg (by simp [hop])]
    · simpa [hop] using hread
    · simpa [hop] using hwrite

namespace NandCtrl

/-! ## Chip events -/

theorem mem_eventsOf : k ∈ s.eventsOf c ↔ (c, k) ∈ s.chip_events := by
  simp [eventsOf]

theorem filter_erase (l : List (Chn × Nat)) :
    ((l.erase (c, k)).filter fun e => e.1 = c).map (·.2) =
        ((l.filter fun e => e.1 = c).map (·.2)).erase k ∧
      ((l.erase (c, k)).filter fun e => e.1 = c.other) = l.filter fun e => e.1 = c.other := by
  induction l with
  | nil => exact ⟨rfl, rfl⟩
  | cons e l ih =>
    obtain ⟨d, j⟩ := e
    by_cases he : (d, j) = (c, k)
    · obtain ⟨rfl, rfl⟩ := Prod.mk.inj he
      simp [Ne.symm Chn.other_ne]
    · rw [List.erase_cons_tail (by simpa using he)]
      by_cases hd : d = c
      · subst hd
        have hj : j ≠ k := by
          rintro rfl
          exact he rfl
        simp [hj, ih.1, ih.2, Ne.symm Chn.other_ne]
      · obtain rfl := Chn.eq_other hd
        simp [ih.1, ih.2]

theorem eventsOf_erase (h : s'.chip_events = s.chip_events.erase (c, k)) :
    s'.eventsOf c = (s.eventsOf c).erase k ∧ s'.eventsOf c.other = s.eventsOf c.other := by
  unfold eventsOf
  rw [h]
  obtain ⟨hself, hother⟩ := filter_erase (c := c) (k := k) s.chip_events
  exact ⟨hself, by rw [hother]⟩

/-- The controller after a chip has ended its operation, before the room is served. -/
def chipDone (s : NandCtrl) (c : Chn) (k : Nat) : NandCtrl :=
  { s.setChannel c { s.channel c with
      chips := Function.update (s.channel c).chips k { (s.channel c).chips k with busy := false }
      active_nand_ops := ((s.channel c).active_nand_ops + 255) % 256 } with
    chip_events := s.chip_events.erase (c, k) }

theorem operation_complete_eq :
    operation_complete_call_back p { s with chip_events := s.chip_events.erase (c, k) } c k =
      (s.chipDone c k).process_waiting_room_cmd p c := by
  simp [operation_complete_call_back, decActive, setChip, setChannel, chipDone]

theorem Engine.congr (h : Engine p s tr) (hcurrent : s'.current_chn = s.current_chn)
    (hdmas : s'.dmas = s.dmas) : Engine p s' tr := by
  refine ⟨?_, ?_⟩
  · rw [hcurrent, hdmas]
    exact h.free
  · rw [hcurrent, hdmas]
    exact h.serves

theorem Working.chip_done (h : Working p f m ok unsent s tr) (hmem : (c, k) ∈ s.chip_events) :
    Working p f m ok unsent (s.chipDone c k) tr := by
  have herase : (s.chipDone c k).chip_events = s.chip_events.erase (c, k) := rfl
  obtain ⟨hevents, hother⟩ := eventsOf_erase herase
  rw [← Function.update_eq_self c tr]
  refine h.move ⟨rfl, rfl, rfl, ?_, hother⟩ rfl ?_ ?_ ?_ rfl rfl (fun _ => Moved.iff_of_dmas rfl) ?_
  · simp [chipDone, setChannel]
  · rw [hevents]
    simp only [chipDone, setChannel, Function.update_self]
    exact (h.tracked c).chip_done (mem_eventsOf.mpr hmem)
  · rw [hevents]
    exact fun j hj => h.chips c j (List.mem_of_mem_erase hj)
  · rw [Function.update_eq_self]
    exact h.engine.congr rfl rfl
  · intro ho
    refine (h.data ho c).congr (fun _ _ => rfl) (fun _ _ => rfl) (fun _ ha => ha)
      (fun _ => Moved.iff_of_dmas rfl) (fun _ _ _ _ => rfl) ?_
    intro j
    simp only [chipDone, setChannel, Function.update_self]
    by_cases hj : j = k
    · subst hj
      rw [Function.update_self]
    · rw [Function.update_of_ne hj]

/-! ## A byte of a DMA -/

/-- There is no DMA but the one of the channel that the engine serves. -/
theorem Engine.serving {dma : DmaTransfer} (h : Engine p s tr) (hdma : s.dmas[n]? = some dma) :
    n = 0 ∧ s.dmas = [dma] ∧ s.current_chn = some dma.chn ∧
      (tr dma.chn).stage.Asks p.geometry dma ∧
      dma.left.Sublist (List.range p.geometry.nandPageBytes) := by
  cases hcurrent : s.current_chn with
  | none =>
    rw [(h.free hcurrent).1] at hdma
    simp at hdma
  | some c =>
    obtain ⟨dma', hdmas, hchn, hasks, hleft⟩ := h.serves c hcurrent
    rw [hdmas] at hdma
    obtain ⟨rfl, rfl⟩ : n = 0 ∧ dma' = dma := by
      cases n with
      | zero => simpa using hdma
      | succ n => simp at hdma
    rw [hchn]
    exact ⟨rfl, hdmas, rfl, hasks, hleft⟩

/-- The buffer of a page is in no buffer that the other channel reads pages into. -/
theorem Working.own (h : Working p f m ok unsent s tr) (hx : x ∈ s.issued c)
    (hi : i < p.geometry.nandPageBytes) : Own p s c (x.ssd_addr + i) := by
  intro y hy _
  have hpage : ∀ d, ∀ z ∈ s.issued d, z ∈ f.pages d := by
    intro d z hz
    rw [← h.pages d]
    exact List.mem_append_left _ hz
  have := f.apart c x (hpage c x hx) y (hpage c.other y hy)
  omega

/-- After the byte the DMA has moved one byte more. -/
theorem moved_byte {dma : DmaTransfer} (hdmas : s.dmas = [dma]) (hchn : dma.chn = c)
    (hleft : dma.left.Sublist (List.range p.geometry.nandPageBytes)) (hi : i ∈ dma.left)
    (hdmas' : s'.dmas = [{ dma with left := dma.left.erase i }]) (j : Nat) :
    (Moved p s' c j ↔ j = i ∨ Moved p s c j) ∧ ¬ Moved p s' c.other j ∧ ¬ Moved p s c.other j := by
  have hnodup : dma.left.Nodup := hleft.nodup List.nodup_range
  have hlt := List.mem_range.mp (hleft.subset hi)
  have hne : c ≠ c.other := Ne.symm Chn.other_ne
  unfold Moved
  rw [hdmas, hdmas']
  simp only [List.mem_singleton, exists_eq_left, hchn, hnodup.mem_erase_iff, hne, false_and,
    and_false, not_false_eq_true, and_true, true_and, not_and_or, not_not, ne_eq]
  constructor
  · rintro ⟨hj, hij | hj'⟩
    · exact Or.inl hij
    · exact Or.inr ⟨hj, hj'⟩
  · rintro (rfl | ⟨hj, hj'⟩)
    · exact ⟨hlt, Or.inl rfl⟩
    · exact ⟨hj, Or.inr hj'⟩

/-- The stage of a channel whose DMA is under way. -/
theorem Asks.cases {stage : ChnStage} {dma : DmaTransfer} (h : stage.Asks g dma) :
    (∃ x, stage = .toRam x ∧ dma.read = false ∧ dma.ram_ptr = x.ssd_addr ∧
      dma.chip = chip_index g x.ppa) ∨
    (∃ x, stage = .fromRam x ∧ dma.read = true ∧ dma.ram_ptr = x.ssd_addr ∧
      dma.chip = chip_index g x.ppa) := by
  cases stage with
  | toRam x => exact Or.inl ⟨x, rfl, h⟩
  | fromRam x => exact Or.inr ⟨x, rfl, h⟩
  | idle | sensed x | addressed x => exact h.elim

theorem Working.issued_of_stage (h : Working p f m ok unsent s tr)
    (hx : x ∈ (tr c).stage.pages) : x ∈ s.issued c := by
  rw [(h.tracked c).issued]
  exact List.mem_append_left _ (List.mem_append_right _ hx)

/-- A byte of a read comes into the RAM. -/
theorem Working.byte_to_ram {dma : DmaTransfer} (h : Working p f m ok unsent s tr)
    (hdmas : s.dmas = [dma]) (hchn : dma.chn = c)
    (hleft : dma.left.Sublist (List.range p.geometry.nandPageBytes)) (hi : i ∈ dma.left)
    (hstage : (tr c).stage = .toRam x)
    (hs' : s' = { s with
      ram := Function.update s.ram (x.ssd_addr + i)
        (((s.channel c).chips (chip_index p.geometry x.ppa)).nand_page_reg i)
      dmas := [{ dma with left := dma.left.erase i }] })
    (hengine : Engine p s' tr) : Working p f m ok unsent s' tr := by
  have hlt := List.mem_range.mp (hleft.subset hi)
  have hdmas' : s'.dmas = [{ dma with left := dma.left.erase i }] := by rw [hs']
  have hmoved := moved_byte hdmas hchn hleft hi hdmas'
  have hissued : x ∈ s.issued c := h.issued_of_stage (by simp [hstage])
  subst hs'
  rw [← Function.update_eq_self c tr]
  refine h.update ⟨rfl, rfl, rfl, rfl, rfl⟩ rfl (h.tracked c) (h.chips c) ?_ fun ho => ⟨?_, ?_⟩
  · rw [Function.update_eq_self]
    exact hengine
  · have hdata := h.data ho c
    refine ⟨hdata.image, ?_, ?_, hdata.reg, ?_⟩
    · intro a ha hnot
      have hne : a ≠ x.ssd_addr + i := hnot x i hstage ((hmoved i).1.mpr (Or.inl rfl))
      simp only [Function.update_of_ne hne]
      exact hdata.ram a ha fun y j hy hj => hnot y j hy ((hmoved j).1.mpr (Or.inr hj))
    · intro y j hy hj
      obtain rfl : x = y := by simpa [hstage] using hy
      rcases (hmoved j).1.mp hj with rfl | hj
      · simp only [Function.update_self]
        exact hdata.reg x (Or.inr hstage) j hlt
      · by_cases hij : j = i
        · subst hij
          simp only [Function.update_self]
          exact hdata.reg x (Or.inr hstage) j hlt
        · simp only [Function.update_of_ne (show x.ssd_addr + j ≠ x.ssd_addr + i by omega)]
          exact hdata.ram_moved x j hstage hj
    · intro y j hy
      rw [hstage] at hy
      cases hy
  · refine (h.data ho c.other).congr (fun _ _ => rfl) ?_ (fun _ ha => ha)
      (fun j => iff_of_false (hmoved j).2.1 (hmoved j).2.2)
      (fun _ j _ hj => absurd hj (hmoved j).2.2) (fun _ => rfl)
    intro a ha
    have hop : x.op = .FLASH_READ := by
      have := (h.tracked c).fits
      rwa [hstage] at this
    have hfar := ha x (by rw [Chn.other_other]; exact hissued) hop
    exact Function.update_of_ne (by omega) _ _

/-- A byte of a program comes into the page register. -/
theorem Working.byte_from_ram {dma : DmaTransfer} (h : Working p f m ok unsent s tr)
    (hdmas : s.dmas = [dma]) (hchn : dma.chn = c)
    (hleft : dma.left.Sublist (List.range p.geometry.nandPageBytes)) (hi : i ∈ dma.left)
    (hstage : (tr c).stage = .fromRam x) {reg : Nat → UInt8}
    (hreg : reg = Function.update
      ((s.channel c).chips (chip_index p.geometry x.ppa)).nand_page_reg i (s.ram (x.ssd_addr + i)))
    (hs' : s' = { s.setChannel c { s.channel c with
        chips := Function.update (s.channel c).chips (chip_index p.geometry x.ppa)
          { (s.channel c).chips (chip_index p.geometry x.ppa) with nand_page_reg := reg } } with
      dmas := [{ dma with left := dma.left.erase i }] })
    (hengine : Engine p s' tr) : Working p f m ok unsent s' tr := by
  have hlt := List.mem_range.mp (hleft.subset hi)
  have hdmas' : s'.dmas = [{ dma with left := dma.left.erase i }] := by rw [hs']
  have hmoved := moved_byte hdmas hchn hleft hi hdmas'
  have hissued : x ∈ s.issued c := h.issued_of_stage (by simp [hstage])
  have hchannel : s'.channel c = { s.channel c with
      chips := Function.update (s.channel c).chips (chip_index p.geometry x.ppa)
        { (s.channel c).chips (chip_index p.geometry x.ppa) with nand_page_reg := reg } } := by
    simp [hs', setChannel]
  subst hs'
  rw [← Function.update_eq_self c tr]
  refine h.move ⟨rfl, rfl, rfl, ?_, rfl⟩ rfl ?_ (h.chips c) ?_ rfl rfl
    (fun j => iff_of_false (hmoved j).2.1 (hmoved j).2.2) fun ho => ?_
  · simp [setChannel]
  · rw [hchannel]
    exact (h.tracked c).register reg
  · rw [Function.update_eq_self]
    exact hengine
  · have hdata := h.data ho c
    refine ⟨hdata.image, ?_, ?_, ?_, ?_⟩
    · intro a ha hnot
      exact hdata.ram a ha fun y j hy hj => by simp [hstage] at hy
    · intro y j hy
      simp [hstage] at hy
    · intro y hy
      simp [hstage] at hy
    · intro y j hy hj
      obtain rfl : x = y := by simpa [hstage] using hy
      rw [hchannel]
      simp only [Function.update_self, hreg]
      by_cases hij : j = i
      · subst hij
        rw [Function.update_self]
        exact hdata.ram _ (h.own hissued hlt) fun z _ hz => by simp [hstage] at hz
      · rw [Function.update_of_ne hij]
        exact hdata.reg_moved x j hstage (((hmoved j).1.mp hj).resolve_left hij)

/-! ## The end of a page -/

/-- The memories after the DMA of a read. -/
theorem Data.read_done (h : Data p m s c t) (hstage : t.stage = .toRam x)
    (hop : x.op = .FLASH_READ) (hmoved : ∀ i < p.geometry.nandPageBytes, Moved p s c i)
    (himage : s'.image = s.image) (hram : s'.ram = s.ram) (hissued : s'.issued = s.issued)
    (hdone : t'.done = t.done ++ [x]) (hidle : t'.stage = .idle) : Data p m s' c t' := by
  refine ⟨?_, ?_, ?_, ?_, ?_⟩
  · intro o ho
    rw [hdone, executePages_snoc, himage, h.image o ho]
    simp [executePage, hop]
  · intro a ha _
    have hown : Own p s c a := by
      unfold Own at ha ⊢
      rwa [hissued] at ha
    rw [hdone, executePages_snoc, hram]
    simp only [executePage, hop]
    by_cases hin : x.ssd_addr ≤ a ∧ a < x.ssd_addr + p.geometry.nandPageBytes
    · obtain ⟨i, rfl⟩ := Nat.exists_eq_add_of_le hin.1
      have hi : i < p.geometry.nandPageBytes := by omega
      rw [writeWindow_inside hi]
      exact h.ram_moved x i hstage (hmoved i hi)
    · rw [writeWindow_outside (by omega)]
      apply h.ram a hown
      intro y i hy hi
      obtain rfl : x = y := by simpa [hstage] using hy
      have := hi.1
      omega
  · intro y i hy
    rw [hidle] at hy
    cases hy
  · intro y hy
    simp [hidle] at hy
  · intro y i hy
    rw [hidle] at hy
    cases hy

/-- The memories after the DMA of a program, when the page goes to its place. -/
theorem Data.program_done (h : Data p m s c t) (hstage : t.stage = .fromRam x)
    (hop : x.op = .FLASH_PROGRAM) (hmoved : ∀ i < p.geometry.nandPageBytes, Moved p s c i)
    (himage : s'.image = writeWindow s.image (place p c x) p.geometry.nandPageBytes
      ((s.channel c).chips (chip_index p.geometry x.ppa)).nand_page_reg)
    (hram : s'.ram = s.ram) (hissued : s'.issued = s.issued)
    (hdone : t'.done = t.done ++ [x]) (hidle : t'.stage = .idle) : Data p m s' c t' := by
  refine ⟨?_, ?_, ?_, ?_, ?_⟩
  · intro o ho
    rw [hdone, executePages_snoc, himage]
    simp only [executePage, hop]
    by_cases hin : place p c x ≤ o ∧ o < place p c x + p.geometry.nandPageBytes
    · obtain ⟨i, rfl⟩ := Nat.exists_eq_add_of_le hin.1
      have hi : i < p.geometry.nandPageBytes := by omega
      rw [writeWindow_inside hi, writeWindow_inside hi]
      exact h.reg_moved x i hstage (hmoved i hi)
    · rw [writeWindow_outside (by omega), writeWindow_outside (by omega)]
      exact h.image o ho
  · intro a ha _
    have hown : Own p s c a := by
      unfold Own at ha ⊢
      rwa [hissued] at ha
    rw [hdone, executePages_snoc, hram]
    simp only [executePage, hop]
    exact h.ram a hown fun y i hy => by simp [hstage] at hy
  · intro y i hy
    rw [hidle] at hy
    cases hy
  · intro y hy
    simp [hidle] at hy
  · intro y i hy
    rw [hidle] at hy
    cases hy

/-- The free engine goes to the other channel when it waits. -/
theorem Engine.next (tr : Chn → Track) (hfree : s.current_chn = none) (hdmas : s.dmas = [])
    (hwait : (s.channel c).wait_dma_completion = false) (htrack : (tr c).stage.waits = false)
    (hother : Tracked p.geometry (s.channel c.other) events waiting issued (tr c.other)) :
    ∃ current dmas,
      s.run_dma p = { s with current_chn := current, toggle := !s.toggle, dmas := dmas } ∧
      Engine p (s.run_dma p) tr ∧ ∀ d i, ¬ Moved p (s.run_dma p) d i := by
  cases hasks : (tr c.other).stage.waits with
  | false =>
    have hidle : ∀ d, (tr d).stage.waits = false ∧ (s.channel d).wait_dma_completion = false := by
      intro d
      by_cases hd : d = c
      · rw [hd]
        exact ⟨htrack, hwait⟩
      · rw [Chn.eq_other hd, hother.wait]
        exact ⟨hasks, hasks⟩
    have hrun := run_dma_idle (p := p) (fun d => (hidle d).2) hfree
    refine ⟨none, s.dmas, hrun, ?_, ?_⟩
    · rw [hrun]
      refine ⟨fun _ => ⟨hdmas, fun d => (hidle d).1⟩, ?_⟩
      intro d hd
      cases hd
    · intro d i
      rw [hrun]
      apply not_moved
      intro dma hdma
      have hdma : dma ∈ s.dmas := hdma
      simp [hdmas] at hdma
  | true =>
    obtain ⟨y, hstage, hchip, hptr, hread, hwrite⟩ := hother.asking hasks
    have hrun := run_dma_serves (p := p) (c := c.other) _ (hother.wait.trans hasks)
      (by rwa [Chn.other_other]) hchip hread hwrite
    rw [hptr, hdmas, List.nil_append] at hrun
    refine ⟨_, _, hrun, ?_, ?_⟩
    · rw [hrun]
      apply Engine.start (c := c.other) (x := y) rfl rfl
      rw [hstage]
      exact askingStage_asks
    · intro d i
      rw [hrun]
      apply not_moved
      intro dma hdma _
      rw [List.mem_singleton.mp hdma]

/-- The controller after the DMA of a read, before the engine looks for the next one. -/
def readDone (s : NandCtrl) (c : Chn) : NandCtrl :=
  { s.setChannel c { s.channel c with
      active_nand_ops := ((s.channel c).active_nand_ops + 255) % 256
      write_dma := false
      dma_chip := none
      dma_ram_ptr := 0
      wait_dma_completion := false } with
    current_chn := none
    dmas := [] }

theorem dma_complete_read (hcurrent : s.current_chn = some c)
    (hread : (s.channel c).read_dma = false) (hwrite : (s.channel c).write_dma = true) :
    dma_complete_call_back p { s with dmas := [] } =
      ((s.readDone c).run_dma p).process_waiting_room_cmd p c := by
  simp [dma_complete_call_back, hcurrent, decActive, setChannel, hread, hwrite, readDone]

/-- The chip and the image after the second command cycle of a program. -/
def programmed (p : NandCtrlParams) (s : NandCtrl) (c : Chn) (k : Nat) : ChipMedia :=
  ChipMedia.do_program p c k
    ⟨{ (s.channel c).chips k with pending_write_cmd := none }, s.image⟩

/-- The same after the DMA of a program. -/
def programDone (p : NandCtrlParams) (s : NandCtrl) (c : Chn) (k : Nat) : NandCtrl :=
  { s.setChannel c { s.channel c with
      chips := Function.update (s.channel c).chips k (programmed p s c k).chip
      active_nand_ops := (((s.channel c).active_nand_ops + 255) % 256 + 1) % 256
      read_dma := false
      dma_chip := none
      dma_ram_ptr := 0
      wait_dma_completion := false } with
    current_chn := none
    dmas := []
    chip_events := s.chip_events ++ [(c, k)]
    image := (programmed p s c k).image }

theorem dma_complete_program (hcurrent : s.current_chn = some c)
    (hread : (s.channel c).read_dma = true) (hchip : (s.channel c).dma_chip = some k)
    (hpending : ((s.channel c).chips k).pending_write_cmd = some (cmdPhase p.geometry x))
    (hop : x.op = .FLASH_PROGRAM) :
    dma_complete_call_back p { s with dmas := [] } =
      ((s.programDone p c k).run_dma p).process_waiting_room_cmd p c := by
  simp [dma_complete_call_back, hcurrent, decActive, setChannel, hread, hchip, hpending,
    programPending, onChip, setChip, incActive, schedule, ChipMedia.program_end hop, programDone,
    programmed, ChipMedia.do_program]

/-- The page of a program goes to its place. -/
theorem programmed_image (hin : InImage p c x) (hpage : x.ppa.page < 65536)
    (hblock : x.ppa.block < 65536)
    (hrow : ((s.channel c).chips k).row_page = x.ppa.page % 65536 ∧
      ((s.channel c).chips k).row_block = x.ppa.block % 65536)
    (hk : k = chip_index p.geometry x.ppa) :
    (programmed p s c k).image = writeWindow s.image (place p c x) p.geometry.nandPageBytes
      ((s.channel c).chips k).nand_page_reg := by
  have hoffset : (programmed p s c k).image = writeWindow s.image
      (p.page_offset (p.page_index c k ((s.channel c).chips k).row_block
        ((s.channel c).chips k).row_page)) p.geometry.nandPageBytes
      ((s.channel c).chips k).nand_page_reg := rfl
  rw [hoffset, hrow.1, hrow.2, hk, page_offset_eq hin hpage hblock]

/-- The invariant after the end of a page, when the engine has gone on. -/
theorem Working.page_done {u : NandCtrl} (h : Working p f m ok unsent s tr)
    (hmove : ChannelMove s u c) (hfree : u.current_chn = none) (hdmas : u.dmas = [])
    (htracked : Tracked p.geometry (u.channel c) (u.eventsOf c) (unsent c) (s.issued c) t')
    (hidle : t'.stage = .idle) (hchips : ∀ k ∈ u.eventsOf c, k < p.planes_per_chn)
    (hmoved : ∀ i, ¬ Moved p s c.other i) (hram : u.ram = s.ram)
    (himage : ok → ∀ o, InPart p c.other o → u.image o = s.image o)
    (hdata : ok → ∀ v : NandCtrl, v.image = u.image → v.ram = u.ram → v.issued = u.issued →
      Data p m v c t') :
    Working p f m ok unsent (u.run_dma p) (Function.update tr c t') := by
  have hwait : t'.stage.waits = false := by
    rw [hidle]
    rfl
  have hother : Tracked p.geometry (u.channel c.other) (s.eventsOf c.other) (unsent c.other)
      (s.issued c.other) (Function.update tr c t' c.other) := by
    rw [Function.update_of_ne Chn.other_ne, hmove.other]
    exact h.tracked c.other
  obtain ⟨current, dmas, hrun, hengine, hbegun⟩ := Engine.next (Function.update tr c t') hfree
    hdmas (htracked.wait.trans hwait) (by rw [Function.update_self, hwait]) hother
  rw [hrun] at hengine hbegun ⊢
  refine h.update ⟨hmove.crashed, hmove.todo, hmove.issued, hmove.other, hmove.events⟩ rfl
    htracked hchips hengine fun ho => ⟨hdata ho _ rfl rfl rfl, ?_⟩
  refine (h.data ho c.other).congr (himage ho) ?_ ?_
    (fun i => iff_of_false (hbegun c.other i) (hmoved i))
    (fun _ i _ hi => absurd hi (hmoved i)) ?_
  · intro a _
    exact congrFun hram a
  · intro a ha
    unfold Own at ha ⊢
    rw [← hmove.issued]
    exact ha
  · intro k
    rw [← hmove.other]

theorem served_of_page {u : NandCtrl} (hmove : ChannelMove s u c) (hwrites : u.writes = s.writes)
    (hnew : (u.channel c).new_cmd = (s.channel c).new_cmd) :
    Served s (u.run_dma p) tr (Function.update tr c t') c := by
  obtain ⟨hchannel, hrun⟩ := run_dma_keeps (p := p) (s := u)
  refine ⟨hrun.trans hwrites, ?_, ?_, Function.update_of_ne Chn.other_ne _ _⟩
  · rw [hchannel, hmove.other]
  · rw [hchannel, hnew]

/-- The page of the DMA is done, and the engine goes on. -/
theorem Working.dma_done {dma : DmaTransfer} (h : Working p f m ok unsent s tr)
    (hin : ok → ∀ c, ∀ x ∈ f.pages c, InImage p c x) (hdmas : s.dmas = [dma])
    (hchn : dma.chn = c) (hleft : dma.left = []) (hcurrent : s.current_chn = some c)
    (hasks : (tr c).stage.Asks p.geometry dma) :
    ∃ u tr', dma_complete_call_back p { s with dmas := [] } = u.process_waiting_room_cmd p c ∧
      Working p f m ok unsent u tr' ∧ Served s u tr tr' c := by
  have htracked := h.tracked c
  have hfits := htracked.fits
  have hmoved : ∀ i < p.geometry.nandPageBytes, Moved p s c i := by
    intro i hi
    refine ⟨hi, dma, by rw [hdmas]; exact List.mem_singleton_self _, hchn, ?_⟩
    rw [hleft]
    exact List.not_mem_nil
  have hnot : ∀ i, ¬ Moved p s c.other i := by
    rintro i ⟨-, dma', hmem, hother, -⟩
    rw [hdmas, List.mem_singleton] at hmem
    rw [hmem, hchn] at hother
    exact Chn.other_ne hother.symm
  rcases Asks.cases hasks with ⟨x, hstage, -⟩ | ⟨x, hstage, -⟩
  · have hop : x.op = .FLASH_READ := by rwa [hstage] at hfits
    have hread : (s.channel c).read_dma = false := by
      rw [Bool.eq_false_iff, ne_eq, htracked.read_dma]
      simp [hstage]
    have hmove : ChannelMove s (s.readDone c) c := by
      refine ⟨rfl, rfl, rfl, ?_, rfl⟩
      simp [readDone, setChannel]
    refine ⟨(s.readDone c).run_dma p,
      Function.update tr c ⟨(tr c).done ++ [x], .idle, (tr c).later, (tr c).room⟩,
      dma_complete_read hcurrent hread (htracked.write_dma.mpr ⟨x, hstage⟩), ?_, ?_⟩
    · refine h.page_done hmove rfl rfl ?_ rfl (h.chips c) hnot rfl (fun _ _ _ => rfl) ?_
      · simp only [readDone, setChannel, Function.update_self]
        exact htracked.read_done hstage
      · intro ho v himage hram hissued
        exact (h.data ho c).read_done hstage hop hmoved himage hram hissued rfl rfl
    · apply served_of_page hmove rfl
      simp [readDone, setChannel]
  · have hop : x.op = .FLASH_PROGRAM := by rwa [hstage] at hfits
    have hchip := (htracked.dma x (Or.inr hstage)).1
    have hpending : ((s.channel c).chips (chip_index p.geometry x.ppa)).pending_write_cmd =
        some (cmdPhase p.geometry x) := by
      rw [htracked.pending, hstage]
      simp
    have hpage : x ∈ f.pages c := h.current_mem (Or.inl (by simp [hstage]))
    have hsnoc : (s.programDone p c (chip_index p.geometry x.ppa)).chip_events =
        s.chip_events ++ [(c, chip_index p.geometry x.ppa)] := rfl
    obtain ⟨hevents, hevents'⟩ := eventsOf_snoc hsnoc
    have hmove : ChannelMove s (s.programDone p c (chip_index p.geometry x.ppa)) c := by
      refine ⟨rfl, rfl, rfl, ?_, hevents'⟩
      simp [programDone, setChannel]
    have himage : ok → (s.programDone p c (chip_index p.geometry x.ppa)).image =
        writeWindow s.image (place p c x) p.geometry.nandPageBytes
          ((s.channel c).chips (chip_index p.geometry x.ppa)).nand_page_reg := by
      intro ho
      obtain ⟨hrow, hcol⟩ := f.widths c x hpage
      exact programmed_image (hin ho c x hpage) hrow hcol (htracked.address x (Or.inr hstage)) rfl
    refine ⟨(s.programDone p c (chip_index p.geometry x.ppa)).run_dma p,
      Function.update tr c ⟨(tr c).done ++ [x], .idle, (tr c).later, (tr c).room⟩,
      dma_complete_program hcurrent (htracked.read_dma.mpr ⟨x, hstage⟩) hchip hpending hop,
      ?_, ?_⟩
    · refine h.page_done hmove rfl rfl ?_ rfl ?_ hnot rfl ?_ ?_
      · rw [hevents]
        simp only [programDone, setChannel, Function.update_self]
        exact htracked.program_done hstage rfl rfl
      · rw [hevents]
        intro k hk
        rcases List.mem_append.mp hk with hk | hk
        · exact h.chips c k hk
        · rw [List.mem_singleton.mp hk]
          exact f.chip c x hpage
      · intro ho o hother
        rw [himage ho]
        apply writeWindow_outside
        by_contra hcon
        obtain ⟨i, rfl⟩ := Nat.exists_eq_add_of_le (show place p c x ≤ o by omega)
        exact (place_inPart (hin ho c x hpage) (by omega)).not_other hother
      · intro ho v hv hram hissued
        exact (h.data ho c).program_done hstage hop hmoved (hv.trans (himage ho)) hram hissued
          rfl rfl
    · apply served_of_page hmove rfl
      simp [programDone, setChannel]

end NandCtrl

end S4Sim
