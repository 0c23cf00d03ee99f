-- The events that a controller has still to take for the pages it was given: a
-- page takes one event for each of its bytes, one for the end of its DMA and one
-- for the end of its chip operation. Each event is one less.
import S4Sim.NandCtrl.SharedMedia

namespace S4Sim

open Rings Windows

variable {p : NandCtrlParams} {f : FlashStream p} {m : FlashMemory} {c : Chn}
  {s s' : NandCtrl} {tr tr' : Chn → Track} {x : FlashPage} {k n i : Nat}
  {cmd : NcCommand} {l : List NcCommand} {unsent : Chn → List NcCommand} {a : NandAction}

/-! ## The measure -/

/-- The events of the current page, before its DMA has moved a byte. The end of a chip operation
that is under way is counted with the events of the chips. -/
@[simp] def ChnStage.work (bytes : Nat) : ChnStage → Nat
  | idle => 0
  | sensed _ | toRam _ => bytes + 1
  | addressed _ | fromRam _ => bytes + 2

def Track.work (bytes : Nat) (t : Track) : Nat :=
  t.later.length * (bytes + 2) + t.stage.work bytes

namespace NandCtrl

/-- The bytes that the DMAs under way have moved. -/
def movedBytes (p : NandCtrlParams) (s : NandCtrl) : Nat :=
  (s.dmas.map fun d => p.geometry.nandPageBytes - d.left.length).sum

/-- The controller has `n` events to take. -/
def EventsLeft (p : NandCtrlParams) (s : NandCtrl) (tr : Chn → Track) (n : Nat) : Prop :=
  n + movedBytes p s = s.chip_events.length +
    ((tr .channel_0).work p.geometry.nandPageBytes + (tr .channel_1).work p.geometry.nandPageBytes)

theorem work_update (tr : Chn → Track) (c : Chn) (t : Track) (bytes : Nat) :
    (Function.update tr c t .channel_0).work bytes +
      (Function.update tr c t .channel_1).work bytes + (tr c).work bytes =
    (tr .channel_0).work bytes + (tr .channel_1).work bytes + t.work bytes := by
  cases c with
  | channel_0 =>
    rw [Function.update_self, Function.update_of_ne (by decide)]
    omega
  | channel_1 =>
    rw [Function.update_self, Function.update_of_ne (by decide)]
    omega

theorem work_le (tr : Chn → Track) (c : Chn) (bytes : Nat) :
    (tr c).work bytes ≤ (tr .channel_0).work bytes + (tr .channel_1).work bytes := by
  cases c <;> omega

/-- A DMA under way has more events to come than it has moved bytes. -/
theorem Engine.moved_le (h : Engine p s tr) : movedBytes p s + s.dmas.length ≤
    (tr .channel_0).work p.geometry.nandPageBytes +
      (tr .channel_1).work p.geometry.nandPageBytes := by
  unfold movedBytes
  cases hcurrent : s.current_chn with
  | none =>
    rw [(h.free hcurrent).1]
    exact Nat.zero_le _
  | some c =>
    obtain ⟨d, hdmas, -, hasks, -⟩ := h.serves c hcurrent
    have hwork : p.geometry.nandPageBytes + 1 ≤ (tr c).stage.work p.geometry.nandPageBytes := by
      rcases Asks.cases hasks with ⟨x, hstage, -⟩ | ⟨x, hstage, -⟩ <;> rw [hstage] <;> simp
    have hle := work_le tr c p.geometry.nandPageBytes
    unfold Track.work at hle ⊢
    rw [hdmas]
    simp only [List.map_cons, List.map_nil, List.sum_cons, List.sum_nil, List.length_cons,
      List.length_nil]
    omega

/-- There is such a number. -/
theorem Engine.exists_eventsLeft (h : Engine p s tr) : ∃ n, EventsLeft p s tr n := by
  have hmoved := h.moved_le
  refine ⟨s.chip_events.length + ((tr .channel_0).work p.geometry.nandPageBytes +
    (tr .channel_1).work p.geometry.nandPageBytes) - movedBytes p s, ?_⟩
  unfold EventsLeft
  omega

/-! ## A room is served -/

/-- A DMA that begins has moved no byte. -/
theorem moved_run_dma :
    movedBytes p (s.run_dma p) = movedBytes p s ∧ (s.run_dma p).chip_events = s.chip_events := by
  have hstart : ∀ (u : NandCtrl) (read : Bool) (ptr : Nat) (d : Chn) (j : Nat),
      movedBytes p (u.startDma p read ptr d j) = movedBytes p u := by
    intro u read ptr d j
    simp [movedBytes, startDma]
  unfold run_dma
  generalize s.pick _ = picked
  cases picked with
  | none => exact ⟨rfl, rfl⟩
  | some d =>
    simp only
    split
    · exact ⟨rfl, rfl⟩
    · split_ifs
      · exact ⟨hstart _ _ _ _ _, rfl⟩
      · exact ⟨hstart _ _ _ _ _, rfl⟩
      · exact ⟨rfl, rfl⟩

theorem moved_process_dma :
    movedBytes p (s.process_dma p) = movedBytes p s ∧
      (s.process_dma p).chip_events = s.chip_events := by
  unfold process_dma
  split
  · exact ⟨rfl, rfl⟩
  · exact moved_run_dma

theorem moved_dma_cmd :
    movedBytes p ((s.process_cmd p c (dmaPhase p.geometry x)).popCmd c) = movedBytes p s ∧
      ((s.process_cmd p c (dmaPhase p.geometry x)).popCmd c).chip_events = s.chip_events := by
  have hcode : (dmaPhase p.geometry x).op = READ_DMA ∨
      (dmaPhase p.geometry x).op = WRITE_DMA := by
    cases hop : x.op <;> simp [dmaPhase, hop]
  have hno : (dmaPhase p.geometry x).op ≠ READ_NAND ∧ (dmaPhase p.geometry x).op ≠ ERASE_NAND ∧
      (dmaPhase p.geometry x).op ≠ PROGRAM_NAND := by
    rcases hcode with hcode | hcode <;> rw [hcode] <;> decide
  unfold process_cmd
  rw [if_neg (by simp [hno]), if_neg hno.2.2, if_pos hcode]
  exact moved_process_dma

/-- A command of the room takes no event. -/
theorem Working.serve_cmd_left (h : Working p f m False unsent s tr)
    (hroom : (tr c).room = cmd :: l) (hwait : (tr c).stage.waits = false)
    (hbusy : ((s.channel c).chips cmd.chip_enabled).busy = false) (hn : EventsLeft p s tr n) :
    ∃ t', Working p f m False unsent ((s.process_cmd p c cmd).popCmd c) (Function.update tr c t') ∧
      t'.room = l ∧
      EventsLeft p ((s.process_cmd p c cmd).popCmd c) (Function.update tr c t') n := by
  have hin : False → ∀ c, ∀ x ∈ f.pages c, InImage p c x := False.elim
  unfold EventsLeft at hn ⊢
  rcases (h.tracked c).front_cases hroom hwait with
    ⟨x, later, hstage, hlater, rfl, hcoming⟩ | ⟨x, hstage, rfl, hcoming⟩
  · have hold : (tr c).work p.geometry.nandPageBytes =
        later.length * (p.geometry.nandPageBytes + 2) + (p.geometry.nandPageBytes + 2) := by
      simp [Track.work, hstage, hlater, Nat.add_mul]
    cases hop : x.op with
    | FLASH_READ =>
      refine ⟨_, h.read_cmd hin hop hroom hstage hlater hcoming hbusy, rfl, ?_⟩
      have hwork := work_update tr c ⟨(tr c).done, .sensed x, later, l⟩ p.geometry.nandPageBytes
      rw [hold] at hwork
      have hnew : (⟨(tr c).done, .sensed x, later, l⟩ : Track).work p.geometry.nandPageBytes =
        later.length * (p.geometry.nandPageBytes + 2) + (p.geometry.nandPageBytes + 1) := rfl
      rw [process_cmd_read hop, List.length_append, List.length_singleton]
      have hmoved : ∀ u : NandCtrl, u.dmas = s.dmas → movedBytes p u = movedBytes p s := by
        intro u hu
        unfold movedBytes
        rw [hu]
      rw [hmoved]
      · omega
      · rfl
    | FLASH_PROGRAM =>
      refine ⟨_, h.program_cmd hop hroom hstage hlater hcoming hbusy, rfl, ?_⟩
      have hwork := work_update tr c ⟨(tr c).done, .addressed x, later, l⟩ p.geometry.nandPageBytes
      rw [hold] at hwork
      have hnew : (⟨(tr c).done, .addressed x, later, l⟩ : Track).work p.geometry.nandPageBytes =
        later.length * (p.geometry.nandPageBytes + 2) + (p.geometry.nandPageBytes + 2) := rfl
      rw [process_cmd_program hop]
      have hkept : ∀ ch, movedBytes p (s.setChannel c ch) = movedBytes p s ∧
          (s.setChannel c ch).chip_events = s.chip_events := fun _ => ⟨rfl, rfl⟩
      rw [(hkept _).1, (hkept _).2]
      omega
  · refine ⟨_, h.dma_cmd hroom hstage hcoming hbusy, rfl, ?_⟩
    have hwork := work_update tr c ⟨(tr c).done, askingStage x, (tr c).later, l⟩
      p.geometry.nandPageBytes
    have hsame : (⟨(tr c).done, askingStage x, (tr c).later, l⟩ : Track).work
        p.geometry.nandPageBytes = (tr c).work p.geometry.nandPageBytes := by
      have hfits := (h.tracked c).fits
      unfold Track.work askingStage
      rcases hstage with hstage | hstage <;> rw [hstage] at hfits ⊢
      · have hop : x.op = .FLASH_READ := hfits
        simp [hop]
      · have hop : x.op = .FLASH_PROGRAM := hfits
        simp [hop]
    rw [moved_dma_cmd.1, moved_dma_cmd.2]
    omega

theorem Working.process_cmds_left :
    ∀ (fuel : Nat) (s : NandCtrl) (tr : Chn → Track), Working p f m False unsent s tr →
      (tr c).room.length ≤ fuel → EventsLeft p s tr n →
      ∃ tr', Working p f m False unsent (NandCtrl.process_cmds p fuel s c) tr' ∧
        ChnSettled ((NandCtrl.process_cmds p fuel s c).channel c) (tr' c) ∧
        Served s (NandCtrl.process_cmds p fuel s c) tr tr' c ∧
        EventsLeft p (NandCtrl.process_cmds p fuel s c) tr' n
  | 0, s, tr, h, hfuel, hn => by
    refine ⟨tr, h, ?_, Served.refl, hn⟩
    intro _ cmd l hroom
    simp [hroom] at hfuel
  | fuel + 1, s, tr, h, hfuel, hn => by
    have htracked := h.tracked c
    unfold NandCtrl.process_cmds
    cases hwait : (s.channel c).wait_dma_completion with
    | true =>
      rw [if_pos rfl]
      refine ⟨tr, h, ?_, Served.refl, hn⟩
      intro hno
      rw [← htracked.wait, hwait] at hno
      cases hno
    | false =>
      rw [if_neg Bool.false_ne_true]
      have hroomHolds := htracked.room
      cases hroom : (tr c).room with
      | nil =>
        rw [hroom] at hroomHolds
        rw [hroomHolds.front_nil]
        refine ⟨tr, h, ?_, Served.refl, hn⟩
        intro _ cmd l hcons
        rw [hroom] at hcons
        cases hcons
      | cons cmd l =>
        rw [hroom] at hroomHolds
        simp only [hroomHolds.front]
        cases hbusy : ((s.channel c).chips cmd.chip_enabled).busy with
        | true =>
          rw [if_pos rfl]
          refine ⟨tr, h, ?_, Served.refl, hn⟩
          intro _ cmd' l' hcons
          rw [hroom] at hcons
          cases hcons
          exact hbusy
        | false =>
          rw [if_neg Bool.false_ne_true]
          rw [htracked.wait] at hwait
          obtain ⟨t', hworking, hl, hn'⟩ := h.serve_cmd_left hroom hwait hbusy hn
          have hless : (Function.update tr c t' c).room.length ≤ fuel := by
            rw [Function.update_self, hl]
            rw [hroom, List.length_cons] at hfuel
            omega
          obtain ⟨tr', hworking', hsettled, hserved, hn''⟩ :=
            Working.process_cmds_left fuel _ _ hworking hless hn'
          exact ⟨tr', hworking', hsettled, served_of_cmd.trans hserved, hn''⟩

/-- After an event the room of the channel is served, which takes no event. -/
theorem Good.serve_left {u : NandCtrl} (h : Good p f m False s tr)
    (hworking : Working p f m False s.toPush u tr') (hserved : Served s u tr tr' c)
    (hn : EventsLeft p u tr' n) :
    ∃ tr', Good p f m False (u.process_waiting_room_cmd p c) tr' ∧
      EventsLeft p (u.process_waiting_room_cmd p c) tr' n := by
  have hlength : (tr' c).room.length ≤ (u.channel c).cmd_waiting_room.items := by
    rw [(hworking.tracked c).room.items]
  obtain ⟨tr'', hworking', hsettled, hserved', hn'⟩ :=
    Working.process_cmds_left _ u tr' hworking hlength hn
  have hall := hserved.trans hserved'
  refine ⟨tr'', ⟨?_, fun d => ?_, fun d => ?_⟩, hn'⟩
  · rw [process_waiting_room_cmd, hall.toPush]
    exact hworking'
  · by_cases hd : d = c
    · rw [hd]
      exact hsettled
    · rw [Chn.eq_other hd, process_waiting_room_cmd, hall.other, hall.track]
      exact h.settled c.other
  · rw [process_waiting_room_cmd, hall.same_new_cmd, hall.writes]
    exact h.writing d

/-! ## The events -/

/-- The end of a chip operation. -/
theorem Good.chip_complete_left (h : Good p f m False s tr)
    (hs : s.chipCompleteStep p c k = some s') (hn : EventsLeft p s tr n) :
    ∃ tr' n', Good p f m False s' tr' ∧ EventsLeft p s' tr' n' ∧ n' < n := by
  unfold chipCompleteStep at hs
  split at hs
  · rename_i hmem
    cases hs
    rw [operation_complete_eq]
    have hmoved := h.working.engine.moved_le
    have hpos := List.length_pos_of_mem hmem
    have hleft : EventsLeft p (s.chipDone c k) tr (n - 1) := by
      have hkept : movedBytes p (s.chipDone c k) = movedBytes p s := rfl
      have hevents : (s.chipDone c k).chip_events.length = s.chip_events.length - 1 :=
        List.length_erase_of_mem hmem
      unfold EventsLeft at hn ⊢
      rw [hkept, hevents]
      omega
    have hserved : Served s (s.chipDone c k) tr tr c := by
      refine ⟨rfl, ?_, ?_, rfl⟩
      · simp [chipDone, setChannel]
      · simp [chipDone, setChannel]
    obtain ⟨tr', hgood, hn'⟩ := h.serve_left (h.working.chip_done hmem) hserved hleft
    refine ⟨tr', _, hgood, hn', ?_⟩
    unfold EventsLeft at hn
    omega
  · cases hs

/-- A byte of a DMA. -/
theorem Good.move_byte_left (h : Good p f m False s tr) (hs : s.moveStep n i = some s') {e : Nat}
    (he : EventsLeft p s tr e) :
    ∃ tr' e', Good p f m False s' tr' ∧ EventsLeft p s' tr' e' ∧ e' < e := by
  have hgood := h.move_byte hs
  have hmoved := hgood.working.engine.moved_le
  unfold moveStep at hs
  cases hdma : s.dmas[n]? with
  | none =>
    rw [hdma] at hs
    cases hs
  | some dma =>
    obtain ⟨rfl, hdmas, -, -, hsub⟩ := h.working.engine.serving hdma
    simp only [hdma] at hs
    split at hs
    · rename_i hi
      cases hs
      have hlength := List.length_erase_of_mem hi
      have hpos := List.length_pos_of_mem hi
      have hle := hsub.length_le
      rw [List.length_range] at hle
      have hold : movedBytes p s = p.geometry.nandPageBytes - dma.left.length := by
        simp [movedBytes, hdmas]
      generalize hu : ({ s.moveByte dma i with dmas := _ } : NandCtrl) = u at hgood hmoved
      have hnew : u.dmas = [{ dma with left := dma.left.erase i }] := by
        rw [← hu, hdmas]
        rfl
      have hevents : u.chip_events = s.chip_events := by
        rw [← hu]
        unfold moveByte
        split <;> rfl
      refine ⟨tr, e - 1, hgood, ?_, ?_⟩
      · unfold movedBytes at hmoved
        unfold EventsLeft movedBytes at he ⊢
        rw [hdmas] at he
        rw [hnew] at hmoved ⊢
        rw [hevents]
        simp only [List.map_cons, List.map_nil, List.sum_cons, List.sum_nil, hlength,
          List.length_cons, List.length_nil] at he hmoved ⊢
        omega
      · unfold movedBytes at hmoved
        unfold EventsLeft at he
        rw [hnew] at hmoved
        simp only [List.map_cons, List.map_nil, List.sum_cons, List.sum_nil, hlength,
          List.length_cons, List.length_nil] at hmoved
        omega
    · cases hs

/-- The page of the DMA is done: its stage has moved all bytes, and a program leaves the end of
its chip operation. -/
theorem EventsLeft.page_done {u : NandCtrl} {dma : DmaTransfer} {x : FlashPage} {done : Nat}
    (he : EventsLeft p s tr n) (hdmas : s.dmas = [dma]) (hleft : dma.left = [])
    (hu : u.dmas = []) (hevents : u.chip_events.length = s.chip_events.length + done)
    (hstage : (tr c).stage.work p.geometry.nandPageBytes = p.geometry.nandPageBytes + 1 + done) :
    ∃ n', EventsLeft p (u.run_dma p) (Function.update tr c ⟨(tr c).done ++ [x], .idle, (tr c).later,
      (tr c).room⟩) n' ∧ n' < n := by
  have hwork := work_update tr c ⟨(tr c).done ++ [x], .idle, (tr c).later, (tr c).room⟩
    p.geometry.nandPageBytes
  have hle := work_le tr c p.geometry.nandPageBytes
  have hmoved : movedBytes p s = p.geometry.nandPageBytes := by simp [movedBytes, hdmas, hleft]
  have hnone : movedBytes p u = 0 := by simp [movedBytes, hu]
  obtain ⟨hrun, hrun'⟩ := moved_run_dma (p := p) (s := u)
  have hold : (tr c).work p.geometry.nandPageBytes = (tr c).later.length *
      (p.geometry.nandPageBytes + 2) + (p.geometry.nandPageBytes + 1 + done) := by
    rw [Track.work, hstage]
  have hnew : (⟨(tr c).done ++ [x], .idle, (tr c).later, (tr c).room⟩ : Track).work
      p.geometry.nandPageBytes = (tr c).later.length * (p.geometry.nandPageBytes + 2) := rfl
  unfold EventsLeft at he ⊢
  rw [hmoved] at he
  rw [hrun, hrun', hnone, hevents]
  exact ⟨n - 1, by omega, by omega⟩

/-- The only DMA has moved no byte of the other channel. -/
theorem not_moved_other {dma : DmaTransfer} (hdmas : s.dmas = [dma]) (hchn : dma.chn = c)
    (j : Nat) : ¬ Moved p s c.other j := by
  rintro ⟨-, dma', hmem, hother, -⟩
  rw [hdmas, List.mem_singleton] at hmem
  rw [hmem, hchn] at hother
  exact Chn.other_ne hother.symm

section DmaDone

variable {dma : DmaTransfer} (h : Good p f m False s tr) (hdmas : s.dmas = [dma])
  (hleft : dma.left = []) (hcurrent : s.current_chn = some c) (hchn : dma.chn = c)
  (hn : EventsLeft p s tr n)
include h hdmas hleft hcurrent hchn hn

theorem Good.read_done_left (hstage : (tr c).stage = .toRam x) :
    ∃ tr' n', Good p f m False (dma_complete_call_back p { s with dmas := [] }) tr' ∧
      EventsLeft p (dma_complete_call_back p { s with dmas := [] }) tr' n' ∧ n' < n := by
  have htracked := h.working.tracked c
  have hread : (s.channel c).read_dma = false := by
    rw [Bool.eq_false_iff, ne_eq, htracked.read_dma]
    simp [hstage]
  have hmove : ChannelMove s (s.readDone c) c := by
    refine ⟨rfl, rfl, rfl, ?_, rfl⟩
    simp [readDone, setChannel]
  have hdone : Tracked p.geometry ((s.readDone c).channel c) ((s.readDone c).eventsOf c)
      (s.toPush c) (s.issued c) ⟨(tr c).done ++ [x], .idle, (tr c).later, (tr c).room⟩ := by
    simp only [readDone, setChannel, Function.update_self]
    exact htracked.read_done hstage
  have hserved : Served s ((s.readDone c).run_dma p) tr (Function.update tr c
      ⟨(tr c).done ++ [x], .idle, (tr c).later, (tr c).room⟩) c := by
    apply served_of_page hmove rfl
    simp [readDone, setChannel]
  have hwork : (tr c).stage.work p.geometry.nandPageBytes = p.geometry.nandPageBytes + 1 + 0 := by
    rw [hstage]
    rfl
  obtain ⟨n', hn', hlt⟩ := hn.page_done (u := s.readDone c) (x := x) hdmas hleft rfl rfl hwork
  rw [dma_complete_read hcurrent hread (htracked.write_dma.mpr ⟨x, hstage⟩)]
  have hworking := h.working.page_done hmove rfl rfl hdone rfl (h.working.chips c)
    (not_moved_other hdmas hchn) rfl False.elim False.elim
  obtain ⟨tr', hgood, hleft'⟩ := h.serve_left hworking hserved hn'
  exact ⟨tr', n', hgood, hleft', hlt⟩

theorem Good.program_done_left (hstage : (tr c).stage = .fromRam x) :
    ∃ tr' n', Good p f m False (dma_complete_call_back p { s with dmas := [] }) tr' ∧
      EventsLeft p (dma_complete_call_back p { s with dmas := [] }) tr' n' ∧ n' < n := by
  have htracked := h.working.tracked c
  have hop : x.op = .FLASH_PROGRAM := by
    have hfits := htracked.fits
    rwa [hstage] at hfits
  have hpending : ((s.channel c).chips (chip_index p.geometry x.ppa)).pending_write_cmd =
      some (cmdPhase p.geometry x) := by
    rw [htracked.pending, hstage]
    simp
  have hsnoc : (s.programDone p c (chip_index p.geometry x.ppa)).chip_events =
      s.chip_events ++ [(c, chip_index p.geometry x.ppa)] := rfl
  obtain ⟨hevents, hevents'⟩ := eventsOf_snoc hsnoc
  have hmove : ChannelMove s (s.programDone p c (chip_index p.geometry x.ppa)) c := by
    refine ⟨rfl, rfl, rfl, ?_, hevents'⟩
    simp [programDone, setChannel]
  have hdone : Tracked p.geometry
      ((s.programDone p c (chip_index p.geometry x.ppa)).channel c)
      ((s.programDone p c (chip_index p.geometry x.ppa)).eventsOf c)
      (s.toPush c) (s.issued c) ⟨(tr c).done ++ [x], .idle, (tr c).later, (tr c).room⟩ := by
    rw [hevents]
    simp only [programDone, setChannel, Function.update_self]
    exact htracked.program_done hstage rfl rfl
  have hchips : ∀ k ∈ (s.programDone p c (chip_index p.geometry x.ppa)).eventsOf c,
      k < p.planes_per_chn := by
    rw [hevents]
    intro k hk
    rcases List.mem_append.mp hk with hk | hk
    · exact h.working.chips c k hk
    · rw [List.mem_singleton.mp hk]
      exact f.chip c x (h.working.current_mem (Or.inl (by simp [hstage])))
  have hserved : Served s ((s.programDone p c (chip_index p.geometry x.ppa)).run_dma p) tr
      (Function.update tr c ⟨(tr c).done ++ [x], .idle, (tr c).later, (tr c).room⟩) c := by
    apply served_of_page hmove rfl
    simp [programDone, setChannel]
  have hcount : (s.programDone p c (chip_index p.geometry x.ppa)).chip_events.length =
      s.chip_events.length + 1 := by rw [hsnoc, List.length_append, List.length_singleton]
  have hwork : (tr c).stage.work p.geometry.nandPageBytes = p.geometry.nandPageBytes + 1 + 1 := by
    rw [hstage]
    rfl
  obtain ⟨n', hn', hlt⟩ := hn.page_done (x := x) hdmas hleft rfl hcount hwork
  rw [dma_complete_program hcurrent (htracked.read_dma.mpr ⟨x, hstage⟩)
    (htracked.dma x (Or.inr hstage)).1 hpending hop]
  have hworking := h.working.page_done hmove rfl rfl hdone rfl hchips
    (not_moved_other hdmas hchn) rfl False.elim False.elim
  obtain ⟨tr', hgood, hleft'⟩ := h.serve_left hworking hserved hn'
  exact ⟨tr', n', hgood, hleft', hlt⟩

end DmaDone

/-- The end of a DMA. -/
theorem Good.dma_complete_left (h : Good p f m False s tr) (hs : s.dmaCompleteStep p i = some s')
    (hn : EventsLeft p s tr n) :
    ∃ tr' n', Good p f m False s' tr' ∧ EventsLeft p s' tr' n' ∧ n' < n := by
  unfold dmaCompleteStep at hs
  cases hdma : s.dmas[i]? with
  | none =>
    rw [hdma] at hs
    cases hs
  | some dma =>
    obtain ⟨rfl, hdmas, hcurrent, hasks, -⟩ := h.working.engine.serving hdma
    simp only [hdma] at hs
    split at hs
    · rename_i hleft
      cases hs
      rw [hdmas, List.eraseIdx_cons_zero]
      rcases Asks.cases hasks with ⟨x, hstage, -⟩ | ⟨x, hstage, -⟩
      · exact h.read_done_left hdmas hleft hcurrent rfl hn hstage
      · exact h.program_done_left hdmas hleft hcurrent rfl hn hstage
    · cases hs

/-- Each event of the controller is one less. -/
theorem Good.event_left (h : Good p f m False s tr) (ha : isEvent a = true)
    (hs : nandStep p s a = some s') (hn : EventsLeft p s tr n) :
    ∃ tr' n', Good p f m False s' tr' ∧ EventsLeft p s' tr' n' ∧ n' < n := by
  unfold nandStep at hs
  rw [if_neg (by rw [h.working.sane]; decide)] at hs
  cases a with
  | nextPage c | registerWrite c => cases ha
  | moveByte n i => exact h.move_byte_left hs hn
  | dmaComplete n => exact h.dma_complete_left hs hn
  | chipComplete c k => exact h.chip_complete_left hs hn

/-- The events do not look at the memories. -/
theorem Good.any_memory {ok : Prop} (h : Good p f m ok s tr) (image ram : Nat → UInt8) :
    Good p f m False { s with image := image, ram := ram } tr :=
  ⟨⟨h.working.sane, h.working.pages, h.working.tracked, h.working.chips,
    h.working.engine.congr rfl rfl, False.elim⟩, h.settled, h.writing⟩

/-! ## The end -/

/-- Without an event left, the channels count no operation. -/
theorem Good.none_left {ok : Prop} (h : Good p f m ok s tr)
    (hn : EventsLeft p s tr 0) (c : Chn) : s.activeOperationCount c = 0 := by
  have hmoved := h.working.engine.moved_le
  have hle := work_le tr c p.geometry.nandPageBytes
  unfold EventsLeft at hn
  obtain ⟨hwork, hevents⟩ : (tr c).work p.geometry.nandPageBytes = 0 ∧
      s.chip_events.length = 0 := by
    by_cases hdmas : s.dmas = []
    · have hnone : movedBytes p s = 0 := by simp [movedBytes, hdmas]
      omega
    · have := List.length_pos_of_ne_nil hdmas
      omega
  have htracked := h.working.tracked c
  unfold Track.work at hwork
  obtain ⟨hlater, hstage⟩ : (tr c).later = [] ∧ (tr c).stage = .idle := by
    constructor
    · rw [← List.length_eq_zero_iff]
      rcases Nat.eq_zero_or_pos (tr c).later.length with hzero | hpos
      · exact hzero
      · have := Nat.mul_pos hpos (show 0 < p.geometry.nandPageBytes + 2 by omega)
        omega
    · cases hstage : (tr c).stage with
      | idle => rfl
      | sensed x | addressed x | toRam x | fromRam x =>
        rw [hstage] at hwork
        simp at hwork
  have hcoming := congrArg List.length htracked.coming
  have hactive := htracked.active
  have hempty : s.eventsOf c = [] := by
    rw [eventsOf, List.length_eq_zero_iff.mp hevents]
    rfl
  rw [hstage, hlater] at hcoming
  rw [hstage, hempty] at hactive
  unfold activeOperationCount
  rw [htracked.room.items, hactive]
  simp only [ChnStage.rest, List.flatMap_nil, List.append_nil, List.length_append,
    List.length_nil] at hcoming
  simp only [ChnStage.waits, Bool.toNat_false, List.length_nil]
  omega

/-- With one left, a chip or a DMA is under way. -/
theorem Good.some_left {ok : Prop} (h : Good p f m ok s tr) (hwrites : ∀ c, s.writes c = [])
    (hn : EventsLeft p s tr n) (hpos : n ≠ 0) : s.chip_events ≠ [] ∨ s.dmas ≠ [] := by
  by_contra hcon
  push Not at hcon
  obtain ⟨hevents, hdmas⟩ := hcon
  apply hpos
  have hidle : ∀ c, (tr c).work p.geometry.nandPageBytes = 0 := by
    intro c
    have htracked := h.working.tracked c
    have hwaits : (tr c).stage.waits = false := by
      cases hcurrent : s.current_chn with
      | none => exact (h.working.engine.free hcurrent).2 c
      | some d =>
        obtain ⟨dma, hone, -⟩ := h.working.engine.serves d hcurrent
        rw [hdmas] at hone
        cases hone
    have hroom : (tr c).room = [] := by
      cases hroom : (tr c).room with
      | nil => rfl
      | cons cmd l =>
        have hbusy := (htracked.busy _).mp (h.settled c hwaits cmd l hroom)
        rw [eventsOf, hevents] at hbusy
        cases hbusy
    have hcoming := congrArg List.length htracked.coming
    have hpush : s.toPush c = [] := by
      rw [toPush, hwrites]
      rfl
    rw [hroom, hpush] at hcoming
    have hcommands : ((tr c).later.flatMap (commands p.geometry)).length =
        2 * (tr c).later.length := by
      simp [List.length_flatMap, commands, Nat.mul_comm]
    simp only [List.length_append, List.length_nil, hcommands] at hcoming
    have hlater : (tr c).later.length = 0 := by omega
    unfold Track.work
    rw [hlater]
    cases hstage : (tr c).stage with
    | idle => simp
    | sensed x | addressed x =>
      rw [hstage, ChnStage.rest, List.length_singleton] at hcoming
      omega
    | toRam x | fromRam x =>
      rw [hstage] at hwaits
      cases hwaits
  unfold EventsLeft at hn
  rw [hevents, hidle, hidle] at hn
  exact Nat.eq_zero_of_add_eq_zero_right hn

theorem chip_events_length (s : NandCtrl) :
    s.chip_events.length = (s.eventsOf .channel_0).length + (s.eventsOf .channel_1).length := by
  unfold eventsOf
  induction s.chip_events with
  | nil => rfl
  | cons e l ih =>
    obtain ⟨d, k⟩ := e
    cases d <;> simp_all <;> omega

/-- No more events than the pages and the chips have. -/
theorem Good.left_le {ok : Prop} (h : Good p f m ok s tr) (hn : EventsLeft p s tr n)
    (hpages : ∀ c, (f.pages c).length ≤ 128) :
    n ≤ 256 * (p.geometry.nandPageBytes + 3) := by
  have hwork : ∀ c, (tr c).work p.geometry.nandPageBytes ≤
      128 * (p.geometry.nandPageBytes + 2) := by
    intro c
    have hissued := congrArg List.length (h.working.tracked c).issued
    have hall := congrArg List.length (h.working.pages c)
    have hfew := hpages c
    simp only [List.length_append] at hissued hall
    have hstage : (tr c).stage.work p.geometry.nandPageBytes ≤
        (tr c).stage.pages.length * (p.geometry.nandPageBytes + 2) := by
      cases (tr c).stage <;> simp
    calc (tr c).work p.geometry.nandPageBytes
        ≤ ((tr c).later.length + (tr c).stage.pages.length) * (p.geometry.nandPageBytes + 2) := by
          rw [Nat.add_mul]
          exact Nat.add_le_add_left hstage _
      _ ≤ 128 * (p.geometry.nandPageBytes + 2) := Nat.mul_le_mul_right _ (by omega)
  have hevents := chip_events_length s
  have hzero := h.working.events_le .channel_0
  have hone := h.working.events_le .channel_1
  have hwork0 := hwork .channel_0
  have hwork1 := hwork .channel_1
  unfold EventsLeft at hn
  omega

end NandCtrl

end S4Sim
