-- The firmware writes the registers of the channels, and the whole invariant of
-- a run: the rooms, the engine and the memories, every channel settled, and the
-- register writes that are left.
import S4Sim.NandCtrl.Completions

namespace S4Sim

open Rings Runs Windows

variable {p : NandCtrlParams} {f : FlashStream p} {m : FlashMemory} {ok : Prop} {c d : Chn}
  {g : Geometry} {ch : NcChannel} {events : List Nat} {waiting : List NcCommand}
  {issued : List FlashPage} {s s' u : NandCtrl} {tr tr' : Chn → Track} {t : Track} {x : FlashPage}
  {k n i : Nat} {cmd : NcCommand} {unsent unsent' : Chn → List NcCommand}

/-! ## The channel -/

/-- The new command of a channel is not read before it is in the room. -/
theorem Tracked.new_cmd (h : Tracked g ch events waiting issued t) (cmd : NcCommand) :
    Tracked g { ch with new_cmd := cmd } events waiting issued t :=
  ⟨h.issued, h.room, h.size, h.coming, h.fits, h.wait, h.read_dma, h.write_dma, h.dma,
    h.pending, h.address, h.calm, h.busy, h.once, h.active⟩

/-- A command goes into a room that holds fewer than 1023. -/
theorem Tracked.push (h : Tracked g ch events (cmd :: waiting) issued t)
    (hroom : ch.cmd_waiting_room.items < 1023) :
    Tracked g { ch with cmd_waiting_room := ch.cmd_waiting_room.push cmd } events waiting issued
      { t with room := t.room ++ [cmd] } := by
  have hless : t.room.length + 1 < ch.cmd_waiting_room.entries.size := by
    rw [h.size]
    rw [h.room.items] at hroom
    omega
  refine ⟨h.issued, h.room.push hless, ?_, ?_, h.fits, h.wait, h.read_dma, h.write_dma, h.dma,
    h.pending, h.address, h.calm, h.busy, h.once, h.active⟩
  · rw [SimpleFiFo.push_size]
    exact h.size
  · rw [List.append_assoc]
    exact h.coming

/-- The firmware goes to its next page. -/
theorem Tracked.issue (h : Tracked g ch events [] issued t) (x : FlashPage) :
    Tracked g ch events (commands g x) (issued ++ [x]) { t with later := t.later ++ [x] } := by
  have hcoming := h.coming
  rw [List.append_nil] at hcoming
  refine ⟨?_, h.room, h.size, ?_, h.fits, h.wait, h.read_dma, h.write_dma, h.dma,
    h.pending, h.address, h.calm, h.busy, h.once, h.active⟩
  · rw [h.issued, ← List.append_assoc]
  · simp [hcoming]

theorem ChnSettled.congr {ch' : NcChannel} (h : ChnSettled ch t)
    (hbusy : ∀ k, (ch'.chips k).busy = (ch.chips k).busy) : ChnSettled ch' t := by
  intro hwait cmd l hroom
  rw [hbusy]
  exact h hwait cmd l hroom

/-! ## Register writes -/

/-- The new command of the channel after register writes. -/
def after (cmd : NcCommand) : List (NcReg × Nat) → NcCommand
  | [] => cmd
  | (.CHIP_SELECT_REG, data) :: rest => after { cmd with chip_enabled := data } rest
  | (.ADDRESS_CYCLE_REG_1, data) :: rest => after { cmd with addr_1 := data } rest
  | (.ADDRESS_CYCLE_REG_2, data) :: rest => after { cmd with addr_2 := data } rest
  | (.DMA_RAM_PTR, data) :: rest => after { cmd with ram_ptr := data } rest
  | (.CMD_PHASE_CMD_REG, _) :: rest => after .new rest
  | (.DMA_PHASE_CMD_REG, _) :: rest => after .new rest

/-- The writes that are left end with a new command, and they select chips of the channel. -/
structure Writing (p : NandCtrlParams) (cmd : NcCommand) (ws : List (NcReg × Nat)) : Prop where
  ends : after cmd ws = .new
  chips : ∀ w ∈ ws, w.1 = .CHIP_SELECT_REG → w.2 ≤ p.planes_per_chn

theorem writing_page (hchip : chip_index p.geometry x.ppa < p.planes_per_chn) :
    Writing p .new (pageWrites p.geometry x) := by
  refine ⟨rfl, ?_⟩
  intro w hw hselect
  simp only [pageWrites, List.mem_cons, List.not_mem_nil, or_false] at hw
  rcases hw with rfl | rfl | rfl | rfl | rfl | rfl | rfl
  · exact Nat.le_of_lt hchip
  · cases hselect
  · cases hselect
  · cases hselect
  · exact Nat.le_of_lt hchip
  · cases hselect
  · cases hselect

namespace NandCtrl

/-! ## The invariant of a run -/

/-- The commands that the firmware has still to push for the pages it has issued. -/
def toPush (s : NandCtrl) (c : Chn) : List NcCommand := sends (s.channel c).new_cmd (s.writes c)

structure Good (p : NandCtrlParams) (f : FlashStream p) (m : FlashMemory) (ok : Prop)
    (s : NandCtrl) (tr : Chn → Track) : Prop where
  working : Working p f m ok s.toPush s tr
  settled : ∀ c, ChnSettled (s.channel c) (tr c)
  writing : ∀ c, Writing p (s.channel c).new_cmd (s.writes c)

theorem Served.same_new_cmd (h : Served s s' tr tr' c) (d : Chn) :
    (s'.channel d).new_cmd = (s.channel d).new_cmd := by
  by_cases hd : d = c
  · rw [hd, h.new_cmd]
  · rw [Chn.eq_other hd, h.other]

theorem Served.toPush (h : Served s s' tr tr' c) : s'.toPush = s.toPush := by
  funext d
  unfold NandCtrl.toPush
  rw [h.same_new_cmd, h.writes]

theorem served_setChip (tr : Chn → Track) {chip : NcChip} {dmas : List DmaTransfer} :
    Served s { s.setChip c k chip with dmas := dmas } tr tr c :=
  ⟨rfl, by simp [setChip, setChannel], by simp [setChip, setChannel], rfl⟩

/-- After an event the room of the channel is served, and all channels are settled again. -/
theorem Good.serve (h : Good p f m ok s tr) (hin : ok → ∀ c, ∀ x ∈ f.pages c, InImage p c x)
    (hworking : Working p f m ok s.toPush u tr') (hserved : Served s u tr tr' c) :
    ∃ tr', Good p f m ok (u.process_waiting_room_cmd p c) tr' := by
  obtain ⟨tr'', hworking', hsettled, hserved'⟩ := hworking.serve hin c
  have hall := hserved.trans hserved'
  refine ⟨tr'', ?_, ?_, ?_⟩
  · rw [hall.toPush]
    exact hworking'
  · intro d
    by_cases hd : d = c
    · rw [hd]
      exact hsettled
    · rw [Chn.eq_other hd, hall.other, hall.track]
      exact h.settled c.other
  · intro d
    rw [hall.same_new_cmd, hall.writes]
    exact h.writing d

/-! ## The steps of the events -/

theorem Good.chip_complete (h : Good p f m ok s tr)
    (hin : ok → ∀ c, ∀ x ∈ f.pages c, InImage p c x) (hs : s.chipCompleteStep p c k = some s') :
    ∃ tr', Good p f m ok s' tr' := by
  unfold chipCompleteStep at hs
  split at hs
  · rename_i hmem
    cases hs
    rw [operation_complete_eq]
    apply h.serve hin (h.working.chip_done hmem)
    refine ⟨rfl, ?_, ?_, rfl⟩
    · simp [chipDone, setChannel]
    · simp [chipDone, setChannel]
  · cases hs

theorem Good.dma_complete (h : Good p f m ok s tr)
    (hin : ok → ∀ c, ∀ x ∈ f.pages c, InImage p c x) (hs : s.dmaCompleteStep p n = some s') :
    ∃ tr', Good p f m ok s' tr' := by
  unfold dmaCompleteStep at hs
  cases hdma : s.dmas[n]? with
  | none =>
    rw [hdma] at hs
    cases hs
  | some dma =>
    obtain ⟨rfl, hdmas, hcurrent, hasks, -⟩ := h.working.engine.serving hdma
    simp only [hdma] at hs
    split at hs
    · rename_i hleft
      cases hs
      obtain ⟨u, tr', hcall, hworking, hserved⟩ :=
        h.working.dma_done hin hdmas rfl hleft hcurrent hasks
      rw [hdmas, List.eraseIdx_cons_zero, hcall]
      exact h.serve hin hworking hserved
    · cases hs

/-- A byte leaves the commands of all channels. -/
theorem Good.move_byte (h : Good p f m ok s tr) (hs : s.moveStep n i = some s') :
    Good p f m ok s' tr := by
  unfold moveStep at hs
  cases hdma : s.dmas[n]? with
  | none =>
    rw [hdma] at hs
    cases hs
  | some dma =>
    obtain ⟨rfl, hdmas, hcurrent, hasks, hleft⟩ := h.working.engine.serving hdma
    simp only [hdma] at hs
    split at hs
    · rename_i hi
      rw [hdmas, List.set_cons_zero] at hs
      have hless : ({ dma with left := dma.left.erase i } : DmaTransfer).left.Sublist
          (List.range p.geometry.nandPageBytes) := List.erase_sublist.trans hleft
      have hengine : ∀ u : NandCtrl, u.current_chn = s.current_chn →
          u.dmas = [{ dma with left := dma.left.erase i }] → Engine p u tr := by
        intro u hu hudmas
        refine ⟨?_, ?_⟩
        · intro hnone
          rw [hu, hcurrent] at hnone
          cases hnone
        · intro d hd
          rw [hu, hcurrent] at hd
          cases hd
          refine ⟨_, hudmas, rfl, ?_, hless⟩
          cases hstage : (tr dma.chn).stage <;> rw [hstage] at hasks <;> exact hasks
      rcases Asks.cases hasks with ⟨x, hstage, hread, hptr, hchip⟩ | ⟨x, hstage, hread, hptr, hchip⟩
      · have hmove : s.moveByte dma i = { s with
            ram := Function.update s.ram (x.ssd_addr + i)
              (((s.channel dma.chn).chips (chip_index p.geometry x.ppa)).nand_page_reg i) } := by
          rw [moveByte, if_neg (by rw [hread]; decide), hptr, hchip]
        rw [hmove] at hs
        cases hs
        refine ⟨?_, h.settled, h.writing⟩
        exact h.working.byte_to_ram hdmas rfl hleft hi hstage rfl (hengine _ rfl rfl)
      · have hmove : s.moveByte dma i = s.setChip dma.chn (chip_index p.geometry x.ppa)
            { (s.channel dma.chn).chips (chip_index p.geometry x.ppa) with
              nand_page_reg := Function.update
                ((s.channel dma.chn).chips (chip_index p.geometry x.ppa)).nand_page_reg i
                (s.ram (x.ssd_addr + i)) } := by
          rw [moveByte, if_pos hread, hptr, hchip]
        rw [hmove] at hs
        cases hs
        refine ⟨?_, ?_, ?_⟩
        · rw [(served_setChip tr).toPush]
          exact h.working.byte_from_ram hdmas rfl hleft hi hstage rfl rfl (hengine _ rfl rfl)
        · intro d
          by_cases hd : d = dma.chn
          · subst hd
            simp only [setChip, setChannel, Function.update_self]
            apply (h.settled dma.chn).congr
            intro j
            by_cases hj : j = chip_index p.geometry x.ppa
            · simp [hj]
            · simp [Function.update_of_ne hj]
          · simp only [setChip, setChannel, Function.update_of_ne hd]
            exact h.settled d
        · intro d
          rw [(served_setChip tr).same_new_cmd]
          exact h.writing d
    · cases hs

/-! ## The steps of the firmware -/

theorem Engine.restage (h : Engine p s tr) (hcurrent : s'.current_chn = s.current_chn)
    (hdmas : s'.dmas = s.dmas) (hstage : ∀ d, (tr' d).stage = (tr d).stage) : Engine p s' tr' := by
  refine ⟨?_, ?_⟩
  · intro hfree
    obtain ⟨hempty, hidle⟩ := h.free (hcurrent ▸ hfree)
    exact ⟨hdmas ▸ hempty, fun d => by rw [hstage, hidle]⟩
  · intro d hd
    obtain ⟨dma, hdma, hchn, hasks, hleft⟩ := h.serves d (hcurrent ▸ hd)
    refine ⟨dma, hdmas ▸ hdma, hchn, ?_, hleft⟩
    rwa [hstage]

/-- A change of the new command, with the register writes that are left. -/
theorem Working.new_cmd (h : Working p f m ok unsent s tr) (cmd : NcCommand)
    (ws : Chn → List (NcReg × Nat)) :
    Working p f m ok unsent { s.setChannel c { s.channel c with new_cmd := cmd } with writes := ws }
      tr := by
  rw [← Function.update_eq_self c tr]
  refine h.move ⟨rfl, rfl, rfl, ?_, rfl⟩ rfl ?_ (h.chips c) ?_ rfl rfl
    (fun _ => Moved.iff_of_dmas rfl) ?_
  · simp [setChannel]
  · simp only [setChannel, Function.update_self]
    exact (h.tracked c).new_cmd cmd
  · rw [Function.update_eq_self]
    exact h.engine.congr rfl rfl
  · intro ho
    refine (h.data ho c).congr (fun _ _ => rfl) (fun _ _ => rfl) (fun _ ha => ha)
      (fun _ => Moved.iff_of_dmas rfl) (fun _ _ _ _ => rfl) ?_
    intro k
    simp [setChannel]

/-- A command goes into the room. -/
theorem Working.push (h : Working p f m ok unsent s tr) (hcmd : unsent c = cmd :: waiting)
    (hroom : (s.channel c).cmd_waiting_room.items < 1023) (ws : Chn → List (NcReg × Nat)) :
    Working p f m ok (Function.update unsent c waiting)
      { s.setChannel c { s.channel c with
          cmd_waiting_room := (s.channel c).cmd_waiting_room.push cmd } with writes := ws }
      (Function.update tr c { tr c with room := (tr c).room ++ [cmd] }) := by
  have htracked := h.tracked c
  rw [hcmd] at htracked
  refine h.move ⟨rfl, rfl, rfl, ?_, rfl⟩ (Function.update_of_ne Chn.other_ne _ _) ?_ (h.chips c)
    ?_ rfl rfl (fun _ => Moved.iff_of_dmas rfl) ?_
  · simp [setChannel]
  · simp only [setChannel, Function.update_self]
    exact htracked.push hroom
  · refine h.engine.restage rfl rfl fun d => ?_
    by_cases hd : d = c
    · rw [hd, Function.update_self]
    · rw [Function.update_of_ne hd]
  · intro ho
    have hdata := h.data ho c
    have hregs : ∀ k, (((s.setChannel c { s.channel c with
        cmd_waiting_room := (s.channel c).cmd_waiting_room.push cmd }).channel c).chips k) =
        (s.channel c).chips k := by
      intro k
      simp [setChannel]
    refine ⟨hdata.image, hdata.ram, hdata.ram_moved, ?_, ?_⟩
    · intro x hx i hi
      rw [hregs]
      exact hdata.reg x hx i hi
    · intro x i hx hi
      rw [hregs]
      exact hdata.reg_moved x i hx hi

/-- A page is issued to a channel that has no command to push. -/
theorem Working.issue {rest : List FlashPage} (h : Working p f m ok unsent s tr)
    (hunsent : unsent c = []) (htodo : s.todo c = x :: rest) (ws : Chn → List (NcReg × Nat)) :
    Working p f m ok (Function.update unsent c (commands p.geometry x))
      { s with
        todo := Function.update s.todo c rest
        writes := ws
        issued := Function.update s.issued c (s.issued c ++ [x]) }
      (Function.update tr c { tr c with later := (tr c).later ++ [x] }) := by
  have htracked := h.tracked c
  rw [hunsent] at htracked
  refine ⟨h.sane, ?_, ?_, h.chips, ?_, ?_⟩
  · intro d
    have hpages := h.pages d
    by_cases hd : d = c
    · subst hd
      rw [htodo] at hpages
      simpa only [Function.update_self, List.append_assoc, List.singleton_append] using hpages
    · simpa only [Function.update_of_ne hd] using hpages
  · intro d
    by_cases hd : d = c
    · subst hd
      simp only [Function.update_self]
      exact htracked.issue x
    · simp only [Function.update_of_ne hd]
      exact h.tracked d
  · refine h.engine.restage rfl rfl fun d => ?_
    by_cases hd : d = c
    · rw [hd, Function.update_self]
    · rw [Function.update_of_ne hd]
  · intro ho d
    have hdata := h.data ho d
    by_cases hd : d = c
    · subst hd
      rw [Function.update_self]
      refine ⟨hdata.image, ?_, hdata.ram_moved, hdata.reg, hdata.reg_moved⟩
      intro a ha
      apply hdata.ram a
      unfold Own at ha ⊢
      simpa only [Function.update_of_ne Chn.other_ne] using ha
    · rw [Function.update_of_ne hd]
      refine hdata.congr (fun _ _ => rfl) (fun _ _ => rfl) ?_ (fun _ => Iff.rfl)
        (fun _ _ _ _ => rfl) (fun _ => rfl)
      -- One more page of `c` leaves fewer bytes to the other channel.
      intro a ha y hy
      apply ha y
      rw [Chn.eq_other hd, Chn.other_other] at hy ⊢
      simp only [Function.update_self]
      exact List.mem_append_left _ hy

/-- A write that pushes no command. -/
theorem Good.set_register (h : Good p f m ok s tr) {w : NcReg × Nat} {ws : List (NcReg × Nat)}
    (hws : s.writes c = w :: ws)
    (hsends : sends (s.channel c).new_cmd (w :: ws) = sends cmd ws)
    (hafter : after (s.channel c).new_cmd (w :: ws) = after cmd ws) :
    Good p f m ok { s.setChannel c { s.channel c with new_cmd := cmd } with
      writes := Function.update s.writes c ws } tr := by
  have hwriting := h.writing c
  rw [hws] at hwriting
  refine ⟨?_, ?_, ?_⟩
  · have htoPush : toPush { s.setChannel c { s.channel c with new_cmd := cmd } with
        writes := Function.update s.writes c ws } = s.toPush := by
      funext d
      unfold toPush
      by_cases hd : d = c
      · subst hd
        simp only [setChannel, Function.update_self]
        rw [hws, hsends]
      · simp only [setChannel, Function.update_of_ne hd]
    rw [htoPush]
    exact h.working.new_cmd cmd _
  · intro d
    by_cases hd : d = c
    · subst hd
      simp only [setChannel, Function.update_self]
      exact (h.settled d).congr fun _ => rfl
    · simp only [setChannel, Function.update_of_ne hd]
      exact h.settled d
  · intro d
    by_cases hd : d = c
    · subst hd
      simp only [setChannel, Function.update_self]
      exact ⟨hafter ▸ hwriting.ends, fun v hv => hwriting.chips v (List.mem_cons_of_mem _ hv)⟩
    · simp only [setChannel, Function.update_of_ne hd]
      exact h.writing d

/-- A write that pushes a command. -/
theorem Good.push_register (h : Good p f m ok s tr)
    (hin : ok → ∀ c, ∀ x ∈ f.pages c, InImage p c x) {w : NcReg × Nat} {ws : List (NcReg × Nat)}
    (hws : s.writes c = w :: ws)
    (hsends : sends (s.channel c).new_cmd (w :: ws) = cmd :: sends .new ws)
    (hafter : after (s.channel c).new_cmd (w :: ws) = after .new ws)
    (hroom : (s.channel c).cmd_waiting_room.items < 1023) :
    ∃ tr', Good p f m ok (pushCmd p { s with writes := Function.update s.writes c ws } c cmd)
      tr' := by
  have htoPush : s.toPush c = cmd :: sends .new ws := by rw [toPush, hws, hsends]
  have hpush := h.working.push htoPush hroom (Function.update s.writes c ws)
  generalize hs2 : ({ s.setChannel c _ with writes := _ } : NandCtrl) = s2 at hpush
  have hother : s2.channel c.other = s.channel c.other := by simp [← hs2, setChannel]
  have hwrites : s2.writes = Function.update s.writes c ws := by rw [← hs2]
  obtain ⟨s3, tr3, hs3, hworking, hsettled, hserved⟩ : ∃ s3 tr3,
      pushCmd p { s with writes := Function.update s.writes c ws } c cmd =
        s3.setChannel c { s3.channel c with new_cmd := .new } ∧
      Working p f m ok (Function.update s.toPush c (sends .new ws)) s3 tr3 ∧
      ChnSettled (s3.channel c) (tr3 c) ∧
      Served s2 s3 (Function.update tr c { tr c with room := (tr c).room ++ [cmd] }) tr3 c := by
    cases hempty : (s.channel c).cmd_waiting_room.isEmpty with
    | true =>
      obtain ⟨tr3, hworking, hsettled, hserved⟩ := hpush.serve hin c
      refine ⟨_, tr3, ?_, hworking, hsettled, hserved⟩
      unfold pushCmd
      simp only [hempty, if_pos]
      rw [← hs2]
      rfl
    | false =>
      refine ⟨s2, _, ?_, hpush, ?_, Served.refl⟩
      · unfold pushCmd
        simp only [hempty, if_neg Bool.false_ne_true]
        rw [← hs2]
        rfl
      · rw [Function.update_self]
        intro hwait first l hcons
        cases hroom' : (tr c).room with
        | nil =>
          rw [(h.working.tracked c).room.empty.mpr hroom'] at hempty
          cases hempty
        | cons first' l' =>
          simp only [hroom', List.cons_append, List.cons.injEq] at hcons
          rw [← hs2, ← hcons.1]
          simp only [setChannel, Function.update_self]
          exact h.settled c hwait first' l' hroom'
  have hwriting := h.writing c
  rw [hws] at hwriting
  rw [hs3]
  refine ⟨tr3, ?_, ?_, ?_⟩
  · have hsame : toPush (s3.setChannel c { s3.channel c with new_cmd := .new }) =
        Function.update s.toPush c (sends .new ws) := by
      funext d
      unfold toPush
      by_cases hd : d = c
      · subst hd
        simp [setChannel, hserved.writes, hwrites]
      · simp only [setChannel, Function.update_of_ne hd, hserved.writes, hwrites]
        rw [Chn.eq_other hd, hserved.other, hother]
    rw [hsame]
    exact hworking.new_cmd .new s3.writes
  · intro d
    by_cases hd : d = c
    · subst hd
      simp only [setChannel, Function.update_self]
      exact hsettled.congr fun _ => rfl
    · simp only [setChannel, Function.update_of_ne hd]
      rw [Chn.eq_other hd, hserved.other, hother, hserved.track,
        Function.update_of_ne Chn.other_ne]
      exact h.settled c.other
  · intro d
    by_cases hd : d = c
    · subst hd
      simp only [setChannel, Function.update_self, hserved.writes, hwrites]
      exact ⟨hafter ▸ hwriting.ends, fun v hv => hwriting.chips v (List.mem_cons_of_mem _ hv)⟩
    · simp only [setChannel, Function.update_of_ne hd, hserved.writes, hwrites]
      rw [Chn.eq_other hd, hserved.other, hother]
      exact h.writing c.other

theorem Good.register_write (h : Good p f m ok s tr)
    (hin : ok → ∀ c, ∀ x ∈ f.pages c, InImage p c x) (hs : s.registerWrite p c = some s') :
    ∃ tr', Good p f m ok s' tr' := by
  unfold registerWrite at hs
  cases hws : s.writes c with
  | nil =>
    rw [hws] at hs
    cases hs
  | cons w ws =>
    obtain ⟨r, data⟩ := w
    simp only [hws] at hs
    split at hs
    · cases hs
    · rename_i hroom
      cases hs
      have hless : r.pushes = true → (s.channel c).cmd_waiting_room.items < 1023 := by
        intro hpushes
        by_contra hcon
        exact hroom ⟨hpushes, by omega⟩
      cases r with
      | CHIP_SELECT_REG =>
        have hchip : ¬ p.planes_per_chn < data := by
          have := (h.writing c).chips (.CHIP_SELECT_REG, data) (by simp [hws]) rfl
          omega
        simp only [write, if_neg hchip]
        exact ⟨tr, h.set_register hws rfl rfl⟩
      | ADDRESS_CYCLE_REG_1 => exact ⟨tr, h.set_register hws rfl rfl⟩
      | ADDRESS_CYCLE_REG_2 => exact ⟨tr, h.set_register hws rfl rfl⟩
      | DMA_RAM_PTR => exact ⟨tr, h.set_register hws rfl rfl⟩
      | CMD_PHASE_CMD_REG => exact h.push_register hin hws rfl rfl (hless rfl)
      | DMA_PHASE_CMD_REG => exact h.push_register hin hws rfl rfl (hless rfl)

/-- The firmware takes its next page when the writes of the last one are over. -/
theorem Good.next_page (h : Good p f m ok s tr) (hs : s.nextPage p c = some s') :
    ∃ tr', Good p f m ok s' tr' := by
  unfold nextPage at hs
  cases hws : s.writes c with
  | cons w ws => simp [hws] at hs
  | nil =>
    cases htodo : s.todo c with
    | nil => simp [hws, htodo] at hs
    | cons x rest =>
      simp only [hws, htodo, Option.some.injEq] at hs
      subst hs
      have hnew : (s.channel c).new_cmd = .new := by
        have := (h.writing c).ends
        rwa [hws] at this
      have hpage : x ∈ f.pages c := by
        rw [← h.working.pages c, htodo]
        simp
      refine ⟨Function.update tr c { tr c with later := (tr c).later ++ [x] }, ?_, ?_, ?_⟩
      · have hunsent : s.toPush c = [] := by
          rw [toPush, hws]
          rfl
        convert h.working.issue hunsent htodo _ using 1
        funext d
        unfold toPush
        by_cases hd : d = c
        · subst hd
          simp only [Function.update_self, hnew]
          exact sends_pageWrites p.geometry x
        · simp only [Function.update_of_ne hd]
      · intro d
        by_cases hd : d = c
        · subst hd
          rw [Function.update_self]
          exact h.settled d
        · rw [Function.update_of_ne hd]
          exact h.settled d
      · intro d
        by_cases hd : d = c
        · subst hd
          simp only [Function.update_self]
          rw [hnew]
          exact writing_page (f.chip d x hpage)
        · simp only [Function.update_of_ne hd]
          exact h.writing d

end NandCtrl

end S4Sim
