-- A controller among others on the same memories: the pages of its channels
-- read and write their parts of the image and their buffers in the RAM, so it
-- leaves the rest as it is, and what the others do there makes no difference.
import S4Sim.NandCtrl.ChannelRuns

namespace S4Sim

open Rings Windows

variable {p : NandCtrlParams} {f : FlashStream p} {m m' : FlashMemory} {ok : Prop} {c d : Chn}
  {s s' : NandCtrl} {tr : Chn → Track} {x : FlashPage} {xs : List FlashPage} {k : Nat}
  {cmd : NcCommand} {l : List NcCommand} {a : NandAction}

/-! ## The bytes of the pages -/

/-- The byte of the RAM is in the buffer of the page. -/
def FlashPage.HasByte (g : Geometry) (x : FlashPage) (a : Nat) : Prop :=
  x.ssd_addr ≤ a ∧ a < x.ssd_addr + g.nandPageBytes

instance (g : Geometry) (x : FlashPage) (a : Nat) : Decidable (x.HasByte g a) := by
  unfold FlashPage.HasByte
  infer_instance

/-- The byte is in the buffer of one of the pages. -/
def InBuffers (g : Geometry) (xs : List FlashPage) (a : Nat) : Prop := ∃ x ∈ xs, x.HasByte g a

theorem InBuffers.mono {g : Geometry} {ys : List FlashPage} {a : Nat} (h : InBuffers g xs a)
    (hsub : ∀ x ∈ xs, x ∈ ys) : InBuffers g ys a := by
  obtain ⟨x, hx, hbyte⟩ := h
  exact ⟨x, hsub x hx, hbyte⟩

/-- The memories agree where the channel can look: in its part of the image and in a region of
the RAM. -/
structure Alike (p : NandCtrlParams) (c : Chn) (region : Nat → Prop) (m m' : FlashMemory) :
    Prop where
  image : ∀ o, InPart p c o → m.image o = m'.image o
  ram : ∀ a, region a → m.ram a = m'.ram a

theorem Alike.executePage {region : Nat → Prop} (h : Alike p c region m m')
    (hin : InImage p c x) (hbuffer : ∀ a, x.HasByte p.geometry a → region a) :
    Alike p c region (executePage p c m x) (executePage p c m' x) := by
  unfold S4Sim.executePage
  cases x.op with
  | FLASH_READ =>
    refine ⟨h.image, fun a ha => ?_⟩
    by_cases hbyte : x.HasByte p.geometry a
    · obtain ⟨i, rfl⟩ := Nat.exists_eq_add_of_le hbyte.1
      have hi : i < p.geometry.nandPageBytes := by
        have := hbyte.2
        omega
      simp only [writeWindow_inside hi]
      exact h.image _ (place_inPart hin hi)
    · unfold FlashPage.HasByte at hbyte
      have hout : a < x.ssd_addr ∨ x.ssd_addr + p.geometry.nandPageBytes ≤ a := by omega
      simp only [writeWindow_outside hout]
      exact h.ram a ha
  | FLASH_PROGRAM =>
    refine ⟨fun o ho => ?_, h.ram⟩
    by_cases hplace : place p c x ≤ o ∧ o < place p c x + p.geometry.nandPageBytes
    · obtain ⟨i, rfl⟩ := Nat.exists_eq_add_of_le hplace.1
      have hi : i < p.geometry.nandPageBytes := by omega
      simp only [writeWindow_inside hi]
      exact h.ram _ (hbuffer _ ⟨by omega, by omega⟩)
    · have hout : o < place p c x ∨ place p c x + p.geometry.nandPageBytes ≤ o := by omega
      simp only [writeWindow_outside hout]
      exact h.image o ho

theorem Alike.executePages {region : Nat → Prop} (h : Alike p c region m m')
    (hin : ∀ x ∈ xs, InImage p c x)
    (hbuffers : ∀ a, InBuffers p.geometry xs a → region a) :
    Alike p c region (executePages p c m xs) (executePages p c m' xs) := by
  induction xs using List.reverseRecOn with
  | nil => exact h
  | append_singleton xs x ih =>
    rw [executePages_snoc, executePages_snoc]
    apply Alike.executePage
    · apply ih
      · exact fun y hy => hin y (List.mem_append_left _ hy)
      · exact fun a ha => hbuffers a (ha.mono fun y hy => List.mem_append_left _ hy)
    · exact hin x (by simp)
    · exact fun a ha => hbuffers a ⟨x, by simp, ha⟩

/-- A byte of the RAM that is in no buffer of the pages. -/
theorem executePages_ram {a : Nat} (h : ¬ InBuffers p.geometry xs a) :
    (executePages p c m xs).ram a = m.ram a := by
  induction xs using List.reverseRecOn with
  | nil => rfl
  | append_singleton xs x ih =>
    rw [executePages_snoc, ← ih fun ha => h (ha.mono fun y hy => List.mem_append_left _ hy)]
    have hbyte : ¬ x.HasByte p.geometry a := fun ha => h ⟨x, by simp, ha⟩
    unfold FlashPage.HasByte at hbyte
    have hout : a < x.ssd_addr ∨ x.ssd_addr + p.geometry.nandPageBytes ≤ a := by omega
    unfold executePage
    cases x.op with
    | FLASH_READ =>
      simp only
      exact writeWindow_outside hout
    | FLASH_PROGRAM => rfl

namespace NandCtrl

/-! ## What the controller leaves as it is -/

/-- The commands that the firmware pushes: there is no erase among them. -/
def IsPhase (g : Geometry) (cmd : NcCommand) : Prop :=
  ∃ x, cmd = cmdPhase g x ∨ cmd = dmaPhase g x

theorem run_dma_image : (s.run_dma p).image = s.image := by
  unfold run_dma
  generalize s.pick _ = picked
  cases picked with
  | none => rfl
  | some d =>
    simp only
    split
    · rfl
    · split_ifs <;> rfl

theorem process_dma_image : (s.process_dma p).image = s.image := by
  unfold process_dma
  split
  · rfl
  · exact run_dma_image

theorem process_cmd_image (h : IsPhase p.geometry cmd) :
    ((s.process_cmd p c cmd).popCmd c).image = s.image := by
  obtain ⟨x, rfl | rfl⟩ := h
  · cases hop : x.op with
    | FLASH_READ => rw [process_cmd_read hop]; rfl
    | FLASH_PROGRAM => rw [process_cmd_program hop]; rfl
  · have hcode : (dmaPhase p.geometry x).op = READ_DMA ∨
        (dmaPhase p.geometry x).op = WRITE_DMA := by
      cases hop : x.op <;> simp [dmaPhase, hop]
    have hno : (dmaPhase p.geometry x).op ≠ READ_NAND ∧ (dmaPhase p.geometry x).op ≠ ERASE_NAND ∧
        (dmaPhase p.geometry x).op ≠ PROGRAM_NAND := by
      rcases hcode with hcode | hcode <;> rw [hcode] <;> decide
    unfold process_cmd
    rw [if_neg (by simp [hno]), if_neg hno.2.2, if_pos hcode]
    exact process_dma_image

theorem process_cmd_room : (((s.process_cmd p c cmd).popCmd c).channel c).cmd_waiting_room =
    (s.channel c).cmd_waiting_room.pop_front := by
  unfold process_cmd
  split_ifs <;> simp [popCmd, setChannel, setChip, onChip, incActive, schedule, process_dma_keeps]

/-- The lists of the firmware are the same. -/
structure SameLists (s s' : NandCtrl) : Prop where
  todo : s'.todo = s.todo
  writes : s'.writes = s.writes
  issued : s'.issued = s.issued

theorem SameLists.refl : SameLists s s := ⟨rfl, rfl, rfl⟩

theorem SameLists.trans {u : NandCtrl} (h : SameLists s s') (h' : SameLists s' u) :
    SameLists s u :=
  ⟨h'.todo.trans h.todo, h'.writes.trans h.writes, h'.issued.trans h.issued⟩

theorem sameLists_run_dma : SameLists s (s.run_dma p) := by
  unfold run_dma
  generalize s.pick _ = picked
  cases picked with
  | none => exact ⟨rfl, rfl, rfl⟩
  | some d =>
    simp only
    split
    · exact ⟨rfl, rfl, rfl⟩
    · split_ifs <;> exact ⟨rfl, rfl, rfl⟩

theorem sameLists_process_dma : SameLists s (s.process_dma p) := by
  unfold process_dma
  split
  · exact .refl
  · exact sameLists_run_dma

theorem sameLists_process_cmd : SameLists s ((s.process_cmd p c cmd).popCmd c) := by
  have hdma : ∀ u : NandCtrl, SameLists s u → SameLists s ((u.process_dma p).popCmd c) :=
    fun u hu => hu.trans (sameLists_process_dma.trans ⟨rfl, rfl, rfl⟩)
  unfold process_cmd
  simp only
  split
  · exact ⟨rfl, rfl, rfl⟩
  · split
    · exact ⟨rfl, rfl, rfl⟩
    · split
      · exact hdma _ ⟨rfl, rfl, rfl⟩
      · exact ⟨rfl, rfl, rfl⟩

/-- The other channel and the firmware do not see how a room is served. -/
theorem process_cmds_other : ∀ (fuel : Nat) (s : NandCtrl),
    (process_cmds p fuel s c).channel c.other = s.channel c.other ∧
      SameLists s (process_cmds p fuel s c)
  | 0, _ => ⟨rfl, .refl⟩
  | fuel + 1, s => by
    unfold process_cmds
    split
    · exact ⟨rfl, .refl⟩
    · split
      · exact ⟨rfl, .refl⟩
      · split
        · exact ⟨rfl, .refl⟩
        · rename_i cmd _ _
          obtain ⟨hchannel, hlists⟩ := process_cmds_other fuel ((s.process_cmd p c cmd).popCmd c)
          exact ⟨hchannel.trans process_cmd_keeps.2.1, sameLists_process_cmd.trans hlists⟩

theorem process_waiting_room_other :
    (s.process_waiting_room_cmd p c).channel c.other = s.channel c.other ∧
      SameLists s (s.process_waiting_room_cmd p c) :=
  process_cmds_other _ s

/-- A room of these commands is served without a change of the image. -/
theorem process_cmds_image : ∀ (fuel : Nat) (s : NandCtrl) (l : List NcCommand),
    (s.channel c).cmd_waiting_room.Holds l → (∀ cmd ∈ l, IsPhase p.geometry cmd) →
      (process_cmds p fuel s c).image = s.image
  | 0, _, _, _, _ => rfl
  | fuel + 1, s, l, hroom, hphase => by
    unfold process_cmds
    split
    · rfl
    · cases l with
      | nil => rw [hroom.front_nil]
      | cons cmd l =>
        simp only [hroom.front]
        split
        · rfl
        · rw [process_cmds_image fuel _ l]
          · exact process_cmd_image (hphase cmd List.mem_cons_self)
          · rw [process_cmd_room]
            exact hroom.pop_front
          · exact fun cmd' hcmd' => hphase cmd' (List.mem_cons_of_mem _ hcmd')

/-- The commands of a channel, in its room or still to push, are those of its pages. -/
theorem Working.isPhase {unsent : Chn → List NcCommand} (h : Working p f m ok unsent s tr)
    (hcmd : cmd ∈ (tr c).room ++ unsent c) : IsPhase p.geometry cmd := by
  rw [(h.tracked c).coming, List.mem_append] at hcmd
  rcases hcmd with hcmd | hcmd
  · cases hstage : (tr c).stage with
    | sensed x | addressed x =>
      rw [hstage] at hcmd
      exact ⟨x, Or.inr (List.mem_singleton.mp hcmd)⟩
    | idle | toRam x | fromRam x =>
      rw [hstage] at hcmd
      exact absurd hcmd List.not_mem_nil
  · obtain ⟨x, -, hx⟩ := List.mem_flatMap.mp hcmd
    exact ⟨x, by simpa [commands] using hx⟩

/-- The room of a channel is served after an event. -/
theorem Working.serve_image {unsent : Chn → List NcCommand} {u : NandCtrl}
    (h : Working p f m ok unsent s tr)
    (hroom : (u.channel c).cmd_waiting_room = (s.channel c).cmd_waiting_room) :
    (u.process_waiting_room_cmd p c).image = u.image := by
  apply process_cmds_image _ _ (tr c).room
  · rw [hroom]
    exact (h.tracked c).room
  · exact fun cmd hcmd => h.isPhase (List.mem_append_left _ hcmd)

/-! ## The end of a DMA -/

/-- What the end of a DMA of a channel leaves as it is, before its room is served. -/
structure DmaFrame (p : NandCtrlParams) (s u : NandCtrl) (c : Chn) : Prop where
  other : u.channel c.other = s.channel c.other
  room : (u.channel c).cmd_waiting_room = (s.channel c).cmd_waiting_room
  lists : SameLists s u
  image : ∀ o, ¬ InPart p c o → u.image o = s.image o

theorem DmaFrame.run_dma {u : NandCtrl} (h : DmaFrame p s u c) : DmaFrame p s (u.run_dma p) c := by
  obtain ⟨hchannel, -⟩ := run_dma_keeps (p := p) (s := u)
  refine ⟨?_, ?_, h.lists.trans sameLists_run_dma, ?_⟩
  · rw [hchannel, h.other]
  · rw [hchannel, h.room]
  · intro o ho
    rw [run_dma_image, h.image o ho]

/-- The page of a program goes to its place, in the part of its channel. -/
theorem Working.dma_frame {unsent : Chn → List NcCommand} {dma : DmaTransfer}
    (h : Working p f m ok unsent s tr) (hok : ok)
    (hin : ok → ∀ c, ∀ x ∈ f.pages c, InImage p c x) (hcurrent : s.current_chn = some c)
    (hasks : (tr c).stage.Asks p.geometry dma) :
    ∃ u, dma_complete_call_back p { s with dmas := [] } = u.process_waiting_room_cmd p c ∧
      DmaFrame p s u c := by
  have htracked := h.tracked c
  have hfits := htracked.fits
  rcases Asks.cases hasks with ⟨x, hstage, -⟩ | ⟨x, hstage, -⟩
  · have hread : (s.channel c).read_dma = false := by
      rw [Bool.eq_false_iff, ne_eq, htracked.read_dma]
      simp [hstage]
    refine ⟨_, dma_complete_read hcurrent hread (htracked.write_dma.mpr ⟨x, hstage⟩),
      DmaFrame.run_dma ⟨?_, ?_, ⟨rfl, rfl, rfl⟩, fun _ _ => rfl⟩⟩
    · simp [readDone, setChannel]
    · simp [readDone, setChannel]
  · have hop : x.op = .FLASH_PROGRAM := by rwa [hstage] at hfits
    have hchip := (htracked.dma x (Or.inr hstage)).1
    have hpending : ((s.channel c).chips (chip_index p.geometry x.ppa)).pending_write_cmd =
        some (cmdPhase p.geometry x) := by
      rw [htracked.pending, hstage]
      simp
    have hpage : x ∈ f.pages c := h.current_mem (Or.inl (by simp [hstage]))
    obtain ⟨hrow, hcol⟩ := f.widths c x hpage
    refine ⟨_, dma_complete_program hcurrent (htracked.read_dma.mpr ⟨x, hstage⟩) hchip hpending hop,
      DmaFrame.run_dma ⟨?_, ?_, ⟨rfl, rfl, rfl⟩, ?_⟩⟩
    · simp [programDone, setChannel]
    · simp [programDone, setChannel]
    · intro o ho
      have himage : (s.programDone p c (chip_index p.geometry x.ppa)).image =
          writeWindow s.image (place p c x) p.geometry.nandPageBytes
            ((s.channel c).chips (chip_index p.geometry x.ppa)).nand_page_reg :=
        programmed_image (hin hok c x hpage) hrow hcol (htracked.address x (Or.inr hstage)) rfl
      rw [himage]
      apply writeWindow_outside
      by_contra hcon
      obtain ⟨i, rfl⟩ := Nat.exists_eq_add_of_le (show place p c x ≤ o by omega)
      exact ho (place_inPart (hin hok c x hpage) (by omega))

/-! ## The steps -/

/-- A step of the controller by itself. -/
def isEvent : NandAction → Bool
  | .nextPage _ | .registerWrite _ => false
  | .moveByte .. | .dmaComplete _ | .chipComplete .. => true

/-- What an event leaves as it is: the lists of the firmware, the image but for the parts of
the channels, and a channel that has nothing to do. -/
structure EventFrame (p : NandCtrlParams) (s s' : NandCtrl) : Prop where
  lists : SameLists s s'
  image : ∀ o, (∀ c, ¬ InPart p c o) → s'.image o = s.image o
  quiet : ∀ c, s.writes c = [] → s.activeOperationCount c = 0 → s'.activeOperationCount c = 0

theorem activeOperationCount_of_channel (h : s'.channel c = s.channel c) :
    s'.activeOperationCount c = s.activeOperationCount c := by
  unfold activeOperationCount
  rw [h]

theorem Good.event_frame_move {n i : Nat} (hs : s.moveStep n i = some s') :
    EventFrame p s s' := by
  unfold moveStep at hs
  cases hdma : s.dmas[n]? with
  | none =>
    rw [hdma] at hs
    cases hs
  | some dma =>
    simp only [hdma] at hs
    split at hs
    · cases hs
      unfold moveByte
      split
      · refine ⟨⟨rfl, rfl, rfl⟩, fun _ _ => rfl, fun c _ hcount => ?_⟩
        rw [← hcount]
        unfold activeOperationCount
        by_cases hc : c = dma.chn
        · subst hc
          simp [setChip, setChannel]
        · simp [setChip, setChannel, Function.update_of_ne hc]
      · exact ⟨⟨rfl, rfl, rfl⟩, fun _ _ => rfl, fun c _ hcount => hcount⟩
    · cases hs

theorem Good.event_frame_dma {n : Nat} (h : Good p f m ok s tr) (hok : ok)
    (hin : ok → ∀ c, ∀ x ∈ f.pages c, InImage p c x) (hs : s.dmaCompleteStep p n = some s') :
    EventFrame p s s' := by
  unfold dmaCompleteStep at hs
  cases hdma : s.dmas[n]? with
  | none =>
    rw [hdma] at hs
    cases hs
  | some dma =>
    obtain ⟨rfl, hdmas, hcurrent, hasks, -⟩ := h.working.engine.serving hdma
    simp only [hdma] at hs
    split at hs
    · cases hs
      obtain ⟨u, hcall, hframe⟩ := h.working.dma_frame hok hin hcurrent hasks
      obtain ⟨hother, hlists⟩ := process_waiting_room_other (p := p) (s := u) (c := dma.chn)
      rw [hdmas, List.eraseIdx_cons_zero, hcall]
      refine ⟨hframe.lists.trans hlists, ?_, ?_⟩
      · intro o ho
        rw [h.working.serve_image hframe.room, hframe.image o (ho dma.chn)]
      · intro c hwrites hcount
        have hne : c ≠ dma.chn := by
          rintro rfl
          have hwaits := Asks.waits hasks
          rw [(h.all_done hwrites hcount).1] at hwaits
          cases hwaits
        rw [← hcount, Chn.eq_other hne]
        exact activeOperationCount_of_channel (hother.trans hframe.other)
    · cases hs

theorem Good.event_frame_chip (h : Good p f m ok s tr) (hs : s.chipCompleteStep p d k = some s') :
    EventFrame p s s' := by
  unfold chipCompleteStep at hs
  split at hs
  · rename_i hmem
    cases hs
    rw [operation_complete_eq]
    obtain ⟨hother, hlists⟩ := process_waiting_room_other (p := p) (s := s.chipDone d k) (c := d)
    refine ⟨⟨hlists.todo, hlists.writes, hlists.issued⟩, ?_, ?_⟩
    · intro o _
      rw [h.working.serve_image]
      · rfl
      · simp [chipDone, setChannel]
    · intro c hwrites hcount
      have hne : c ≠ d := by
        rintro rfl
        have hactive := (h.working.tracked c).active
        have hevents := h.working.events_le c
        have hpos := List.length_pos_of_mem (mem_eventsOf.mpr hmem)
        rw [(h.all_done hwrites hcount).1, ChnStage.waits, Bool.toNat_false] at hactive
        unfold activeOperationCount at hcount
        omega
      rw [← hcount, Chn.eq_other hne]
      refine activeOperationCount_of_channel (hother.trans ?_)
      simp [chipDone, setChannel]
  · cases hs

theorem Good.event_frame (h : Good p f m ok s tr) (hok : ok)
    (hin : ok → ∀ c, ∀ x ∈ f.pages c, InImage p c x) (ha : isEvent a = true)
    (hs : nandStep p s a = some s') : EventFrame p s s' := by
  unfold nandStep at hs
  rw [if_neg (by rw [h.working.sane]; decide)] at hs
  cases a with
  | nextPage c | registerWrite c => cases ha
  | moveByte n i => exact event_frame_move hs
  | dmaComplete n => exact h.event_frame_dma hok hin hs
  | chipComplete c k => exact h.event_frame_chip hs

/-- A register write. -/
theorem Good.register_frame (h : Good p f m ok s tr) (hs : s.registerWrite p c = some s') :
    s'.todo = s.todo ∧ s'.writes = Function.update s.writes c (s.writes c).tail ∧
      s'.issued = s.issued ∧ s'.image = s.image := by
  have hpush : ∀ (cmd : NcCommand) (w : NcReg × Nat) (ws : List (NcReg × Nat))
      (rest : List NcCommand), s.writes c = w :: ws →
      sends (s.channel c).new_cmd (w :: ws) = cmd :: rest →
      (s.channel c).cmd_waiting_room.items < 1023 →
      SameLists { s with writes := Function.update s.writes c ws }
        (pushCmd p { s with writes := Function.update s.writes c ws } c cmd) ∧
      (pushCmd p { s with writes := Function.update s.writes c ws } c cmd).image = s.image := by
    intro cmd w ws rest hws hsends hroom
    have htoPush : s.toPush c = cmd :: rest := by rw [toPush, hws, hsends]
    have hpushed := h.working.push htoPush hroom (Function.update s.writes c ws)
    unfold pushCmd
    simp only
    split
    · let u : NandCtrl := { s.setChannel c { s.channel c with
          cmd_waiting_room := (s.channel c).cmd_waiting_room.push cmd } with
        writes := Function.update s.writes c ws }
      have hlists : SameLists u (u.process_waiting_room_cmd p c) := process_waiting_room_other.2
      exact ⟨⟨hlists.todo, hlists.writes, hlists.issued⟩, hpushed.serve_image rfl⟩
    · exact ⟨⟨rfl, rfl, rfl⟩, rfl⟩
  unfold registerWrite at hs
  cases hws : s.writes c with
  | nil =>
    rw [hws] at hs
    cases hs
  | cons w ws =>
    obtain ⟨r, data⟩ := w
    simp only [hws] at hs
    split at hs
    · cases hs
    · rename_i hroom
      cases hs
      have hless : r.pushes = true → (s.channel c).cmd_waiting_room.items < 1023 := by
        intro hpushes
        by_contra hcon
        exact hroom ⟨hpushes, by omega⟩
      cases r with
      | CHIP_SELECT_REG =>
        have hchip : ¬ p.planes_per_chn < data := by
          have := (h.writing c).chips (.CHIP_SELECT_REG, data) (by simp [hws]) rfl
          omega
        simp only [write, if_neg hchip]
        exact ⟨rfl, rfl, rfl, rfl⟩
      | ADDRESS_CYCLE_REG_1 | ADDRESS_CYCLE_REG_2 | DMA_RAM_PTR => exact ⟨rfl, rfl, rfl, rfl⟩
      | CMD_PHASE_CMD_REG =>
        obtain ⟨hlists, himage⟩ := hpush _ _ _ _ hws rfl (hless rfl)
        exact ⟨hlists.todo, hlists.writes, hlists.issued, himage⟩
      | DMA_PHASE_CMD_REG =>
        obtain ⟨hlists, himage⟩ := hpush _ _ _ _ hws rfl (hless rfl)
        exact ⟨hlists.todo, hlists.writes, hlists.issued, himage⟩

/-! ## The other masters -/

/-- The memories of a channel when others have changed the bytes that are not of its pages. -/
theorem Data.rebase {t : Track} (h : Data p m s c t) (hdone : ∀ x ∈ t.done, InImage p c x)
    {r : Nat → Prop} (hbuffers : ∀ a, InBuffers p.geometry t.done a → r a)
    (hpages : ∀ x ∈ t.stage.pages, InImage p c x ∧ ∀ a, x.HasByte p.geometry a → r a)
    (hm : Alike p c r m m') (himage : ∀ o, InPart p c o → s'.image o = s.image o)
    (hram : ∀ a, r a → s'.ram a = s.ram a)
    (hother : ∀ a, ¬ r a → s'.ram a = m'.ram a) (hchannel : s'.channel = s.channel)
    (hdmas : s'.dmas = s.dmas) (hissued : s'.issued = s.issued) : Data p m' s' c t := by
  have hsame := hm.executePages hdone hbuffers
  have hmoved : ∀ i, Moved p s' c i ↔ Moved p s c i := fun _ => Moved.iff_of_dmas hdmas
  have hbyte : ∀ x i, x ∈ t.stage.pages → i < p.geometry.nandPageBytes →
      r (x.ssd_addr + i) ∧ InPart p c (place p c x + i) := fun x i hx hi =>
    ⟨(hpages x hx).2 _ ⟨by omega, by omega⟩, place_inPart (hpages x hx).1 hi⟩
  refine ⟨?_, ?_, ?_, ?_, ?_⟩
  · intro o ho
    rw [himage o ho, h.image o ho, hsame.image o ho]
  · intro a ha hnot
    by_cases hin : r a
    · rw [hram a hin, ← hsame.ram a hin]
      apply h.ram a
      · unfold Own at ha ⊢
        rwa [hissued] at ha
      · exact fun x i hx hi => hnot x i hx ((hmoved i).mpr hi)
    · rw [hother a hin, executePages_ram fun ha => hin (hbuffers a ha)]
  · intro x i hx hi
    have hi := (hmoved i).mp hi
    obtain ⟨hregion, hpart⟩ := hbyte x i (by simp [hx]) hi.1
    rw [hram _ hregion, h.ram_moved x i hx hi, hsame.image _ hpart]
  · intro x hx i hi
    obtain ⟨-, hpart⟩ := hbyte x i (by rcases hx with hx | hx <;> simp [hx]) hi
    rw [hchannel, h.reg x hx i hi, hsame.image _ hpart]
  · intro x i hx hi
    have hi := (hmoved i).mp hi
    obtain ⟨hregion, -⟩ := hbyte x i (by simp [hx]) hi.1
    rw [hchannel, h.reg_moved x i hx hi, hsame.ram _ hregion]

/-- A page of the track is one of the stream. -/
theorem Working.page_mem {unsent : Chn → List NcCommand} (h : Working p f m ok unsent s tr)
    (hx : x ∈ (tr c).done ∨ x ∈ (tr c).stage.pages) : x ∈ f.pages c := by
  rw [← h.pages c, (h.tracked c).issued]
  simp only [List.mem_append]
  exact Or.inl (Or.inl hx)

open Classical in
/-- Others may change the memories, but for the parts of the channels and the buffers of their
pages. -/
theorem Good.rebase (h : Good p f m ok s tr) (hin : ok → ∀ c, ∀ x ∈ f.pages c, InImage p c x)
    {image ram : Nat → UInt8} (himage : ∀ c o, InPart p c o → image o = s.image o)
    (hram : ∀ c a, InBuffers p.geometry (f.pages c) a → ram a = s.ram a) :
    ∃ m', m'.image = m.image ∧ (∀ c a, InBuffers p.geometry (f.pages c) a → m'.ram a = m.ram a) ∧
      Good p f m' ok { s with image := image, ram := ram } tr := by
  let region : Nat → Prop := fun a => ∃ c, InBuffers p.geometry (f.pages c) a
  refine ⟨⟨m.image, fun a => if region a then m.ram a else ram a⟩, rfl, ?_, ?_, h.settled,
    h.writing⟩
  · intro c a ha
    exact if_pos ⟨c, ha⟩
  · refine ⟨h.working.sane, h.working.pages, h.working.tracked, h.working.chips,
      h.working.engine.congr rfl rfl, fun ho c => ?_⟩
    refine (h.working.data ho c).rebase (r := region) ?_ ?_ ?_ ?_ ?_ ?_ ?_ rfl rfl rfl
    · exact fun x hx => hin ho c x (h.working.page_mem (Or.inl hx))
    · exact fun a ha => ⟨c, ha.mono fun x hx => h.working.page_mem (Or.inl hx)⟩
    · intro x hx
      have hpage := h.working.page_mem (Or.inr hx)
      exact ⟨hin ho c x hpage, fun a ha => ⟨c, x, hpage, ha⟩⟩
    · exact ⟨fun _ _ => rfl, fun a ha => (if_pos ha).symm⟩
    · exact fun o hpart => himage c o hpart
    · rintro a ⟨d, ha⟩
      exact hram d a ha
    · exact fun a ha => (if_neg ha).symm

/-- The RAM outside of the buffers. -/
theorem Good.ram_outside (h : Good p f m ok s tr) (hok : ok) {a : Nat}
    (ha : ∀ c, ¬ InBuffers p.geometry (f.pages c) a) : s.ram a = m.ram a := by
  have hdata := h.working.data hok .channel_0
  have hissued : ∀ c, ∀ y ∈ s.issued c, y ∈ f.pages c := by
    intro c y hy
    rw [← h.working.pages c]
    exact List.mem_append_left _ hy
  rw [hdata.ram a]
  · apply executePages_ram
    exact fun hin => ha _ (hin.mono fun x hx => h.working.page_mem (Or.inl hx))
  · intro y hy _
    by_contra hcon
    exact ha _ ⟨y, hissued _ y hy, by omega, by omega⟩
  · rintro x i hx hi rfl
    have hpage : x ∈ f.pages .channel_0 := h.working.page_mem (Or.inr (by simp [hx]))
    exact ha _ ⟨x, hpage, Nat.le_add_right _ _, Nat.add_lt_add_left hi.1 _⟩

/-! ## From one operation to the next -/

/-- The channels have done all they were given, and the firmware gives them new pages. -/
theorem Good.rearm (h : Good p f m ok s tr) (hwrites : ∀ c, s.writes c = [])
    (hcount : ∀ c, s.activeOperationCount c = 0) (f' : FlashStream p) {ok' : Prop} :
    Good p f' ⟨s.image, s.ram⟩ ok' { s with todo := f'.pages, issued := fun _ => [] }
      fun _ => ⟨[], .idle, [], []⟩ := by
  have hrest : ∀ c, s.toPush c = [] := by
    intro c
    rw [toPush, hwrites]
    rfl
  have hempty : ∀ c, (tr c).stage = .idle ∧ (tr c).room = [] := by
    intro c
    obtain ⟨hidle, hdone⟩ := h.all_done (hwrites c) (hcount c)
    have htracked := h.working.tracked c
    refine ⟨hidle, ?_⟩
    have hitems := hcount c
    unfold activeOperationCount at hitems
    rw [htracked.room.items] at hitems
    exact List.length_eq_zero_iff.mp (by omega)
  refine ⟨⟨h.working.sane, fun _ => rfl, ?_, h.working.chips, ?_, ?_⟩, ?_, ?_⟩
  · intro c
    have htracked := h.working.tracked c
    obtain ⟨hidle, hroom⟩ := hempty c
    have hread := htracked.read_dma
    have hwrite := htracked.write_dma
    have hpending := htracked.pending
    have hactive := htracked.active
    have hwait := htracked.wait
    rw [hidle] at hread hwrite hpending hactive hwait
    refine ⟨rfl, hroom ▸ htracked.room, htracked.size, hrest c, trivial, hwait, hread, hwrite,
      by simp, hpending, by simp, by simp, htracked.busy, htracked.once, hactive⟩
  · refine ⟨fun hfree => ⟨(h.working.engine.free hfree).1, fun _ => rfl⟩, fun c hc => ?_⟩
    obtain ⟨dma, -, -, hasks, -⟩ := h.working.engine.serves c hc
    rw [(hempty c).1] at hasks
    exact hasks.elim
  · intro _ c
    exact ⟨fun _ _ => rfl, fun _ _ _ => rfl, by simp, by simp, by simp⟩
  · intro c _ cmd l hroom
    cases hroom
  · exact h.writing

/-- A channel has room for the commands of an operation. -/
theorem Good.room_le (h : Good p f m ok s tr) (c : Chn) :
    (s.channel c).cmd_waiting_room.items ≤ 2 * (f.pages c).length := by
  have htracked := h.working.tracked c
  have hcoming := congrArg List.length htracked.coming
  have hissued := congrArg List.length htracked.issued
  have hpages := congrArg List.length (h.working.pages c)
  have hlater : ((tr c).later.flatMap (commands p.geometry)).length = 2 * (tr c).later.length := by
    simp [List.length_flatMap, commands, Nat.mul_comm]
  have hstage : ((tr c).stage.rest p.geometry).length ≤ (tr c).stage.pages.length := by
    cases (tr c).stage <;> simp
  simp only [List.length_append] at hcoming hissued hpages
  rw [htracked.room.items]
  omega

end NandCtrl

end S4Sim
