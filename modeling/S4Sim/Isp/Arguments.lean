-- The arguments that execute_command leaves in `arg_buffer`, from isp.c and host_dma.c. Up
-- to 24 bytes come from the entry, more from the buffer of the host. The copy from the
-- entry takes cdw12 for cdw11, and nobody looks at the size or at the result of
-- `decode_prp`. The arguments arrive exactly when none of that does any harm.
import S4Sim.Isp.Transfers
import S4Sim.Nvme.PrpDescriptor

open Runs Windows

namespace S4Sim

/-! ## The arguments of the host -/

namespace IspCommand

variable (p : HostPage) (cmd : IspCommand)

def argTransfer : PrpTransfer :=
  ⟨cmd.scmd.prp1.toNat, cmd.scmd.prp2.toNat, cmd.scmd.agument_size.toNat⟩

/-- The PRPs describe a buffer of the host: their pointers are good ones. -/
def DescribesBuffer : Prop :=
  cmd.argTransfer.prp1 ≠ 0 ∧ (cmd.argTransfer.pointers p cmd.mem).Good p

/-- The argument bytes of a command. -/
def hostArguments : List UInt8 :=
  if cmd.scmd.agument_size.toNat > 24 then
    (cmd.argTransfer.segments p cmd.mem).flatMap fun e => window cmd.mem e.host_p_addr e.len
  else cmd.scmd.scmdarg.bytes.take cmd.scmd.agument_size.toNat

end IspCommand

/-! ## The bytes that the turns write -/

section Turns

variable {ops : List DmaOp} {ws : List DmaWindow} {mem : Mem} {ssd : Nat → UInt8} {a n hi i : Nat}

/-- The turns end where the transfer does. -/
theorem dmaWindows_end_iff (ops : List DmaOp) (n : Nat) (ha : a ≤ hi) :
    (∀ w ∈ dmaWindows ops a n, w.ssd_addr + w.len ≤ hi) ↔ a + min (opsBytes ops) n ≤ hi := by
  induction ops generalizing a n with
  | nil => simp [dmaWindows, opsBytes, ha]
  | cons e ops ih =>
    have hbytes : opsBytes (e :: ops) = e.len + opsBytes ops := opsBytes_cons
    by_cases hn : n = 0
    · simp [dmaWindows, hn, ha]
    · rw [dmaWindows, if_neg hn]
      simp only [List.forall_mem_cons]
      by_cases hfirst : a + min e.len n ≤ hi
      · rw [ih _ hfirst, hbytes]
        omega
      · rw [hbytes]
        constructor
        · intro h
          exact absurd h.1 hfirst
        · intro h
          omega

/-- What lies behind the turns stays. -/
theorem readHost_behind (h : ∀ w ∈ ws, w.ssd_addr + w.len ≤ i) : readHost mem ssd ws i = ssd i := by
  induction ws generalizing ssd with
  | nil => rfl
  | cons w ws ih =>
    obtain ⟨hw, hws⟩ := List.forall_mem_cons.mp h
    have hrest : readHost mem ssd (w :: ws) i =
        writeWindow ssd w.ssd_addr w.len (fun j => mem (w.host_p_addr + j)) i := ih hws
    rw [hrest, writeWindow_outside (Or.inr hw)]

end Turns

/-! ## Filling the buffer -/

namespace IspState

/-- The part of `execute_command` that fills `arg_buffer`: the copy, or the transfer. -/
def fill_arguments (c : Config) (s : IspState) (req : Nat) (cmd : IspCommand) : Option IspState :=
  (s.execute_arguments c req cmd).bind fun t =>
    match t.nvme with
    | .execute_transfer req cmd ws => t.execute_transfer c req cmd ws
    | _ => some t

/-- The buffer gets the arguments that the host has given, and nothing behind it is written. -/
def ArgumentsArrive (c : Config) (p : HostPage) (s : IspState) (req : Nat) (cmd : IspCommand) :
    Prop :=
  ∃ t, s.fill_arguments c req cmd = some t ∧
    ((cmd.scmd.agument_size.toNat > 24 → cmd.DescribesBuffer p) →
      window t.arg_buffer 0 cmd.scmd.agument_size.toNat = cmd.hostArguments p) ∧
    ∀ i, MAX_TX_SIZE c ≤ i → t.arg_buffer i = s.arg_buffer i

/-- For arguments in the entry: the bytes of `cdw11` that belong to them are those of `cdw12`.
For a buffer of the host: it fits in `arg_buffer`, and its segments in the descriptor. Where
the PRPs describe no buffer: so do the segments that are decoded all the same. -/
def ArgumentsFit (c : Config) (p : HostPage) (cmd : IspCommand) : Prop :=
  let arg_size := cmd.scmd.agument_size.toNat
  if arg_size > 24 then
    (cmd.DescribesBuffer p → arg_size ≤ MAX_TX_SIZE c ∧
      (cmd.argTransfer.segments p cmd.mem).length ≤ MDTS_PAGES) ∧
    (¬ cmd.DescribesBuffer p → ∃ ops, commandOps c.hostPageBits cmd arg_size = some ops ∧
      min (opsBytes ops) arg_size ≤ MAX_TX_SIZE c)
  else
    (wordBytes cmd.scmd.scmdarg.cdw11).take (arg_size - 4) =
      (wordBytes cmd.scmd.scmdarg.cdw12).take (arg_size - 4)

variable {c : Config} {p : HostPage} {s s' : IspState} {a : IspAction} {req : Nat}
  {cmd : IspCommand} {ops : List DmaOp}

/-- A buffer of the host is decoded as it is described, or its segments find no room. -/
theorem commandOps_of_described (hp : c.hostPageBits = p.hostPageBits)
    (h : cmd.DescribesBuffer p) :
    commandOps c.hostPageBits cmd cmd.scmd.agument_size.toNat =
      if (cmd.argTransfer.segments p cmd.mem).length ≤ MDTS_PAGES then
        some (cmd.argTransfer.segments p cmd.mem)
      else none := by
  obtain ⟨hfits, hfull⟩ := PrpWalk.dma_of_good
    { cmd.dma with data_size := cmd.scmd.agument_size.toNat } h.1 rfl h.2
  unfold commandOps
  rw [hp]
  split
  · rename_i hroom
    obtain ⟨dma', hdec, hops⟩ := hfits hroom
    have hdec : decode_prp p.hostPageBits cmd.mem cmd.scmd.prp1.toNat cmd.scmd.prp2.toNat
        { cmd.dma with data_size := cmd.scmd.agument_size.toNat } = some (dma', true) := hdec
    rw [hdec, Option.map_some]
    exact congrArg some hops
  · rename_i hroom
    have hdec : decode_prp p.hostPageBits cmd.mem cmd.scmd.prp1.toNat cmd.scmd.prp2.toNat
        { cmd.dma with data_size := cmd.scmd.agument_size.toNat } = none :=
      hfull (Nat.lt_of_not_le hroom)
    rw [hdec, Option.map_none]

theorem argumentsFit_small (hsmall : ¬ cmd.scmd.agument_size.toNat > 24) :
    ArgumentsFit c p cmd ↔
      (wordBytes cmd.scmd.scmdarg.cdw11).take (cmd.scmd.agument_size.toNat - 4) =
        (wordBytes cmd.scmd.scmdarg.cdw12).take (cmd.scmd.agument_size.toNat - 4) := by
  unfold ArgumentsFit
  simp only [if_neg hsmall]

/-- Large arguments fit exactly when they are decoded, and end in the buffer. -/
theorem argumentsFit_large (hp : c.hostPageBits = p.hostPageBits)
    (hlarge : cmd.scmd.agument_size.toNat > 24) :
    ArgumentsFit c p cmd ↔ ∃ ops, commandOps c.hostPageBits cmd cmd.scmd.agument_size.toNat =
      some ops ∧ min (opsBytes ops) cmd.scmd.agument_size.toNat ≤ MAX_TX_SIZE c := by
  unfold ArgumentsFit
  simp only [if_pos hlarge]
  by_cases hbuffer : cmd.DescribesBuffer p
  · have hbytes : opsBytes (cmd.argTransfer.segments p cmd.mem) = cmd.scmd.agument_size.toNat :=
      PrpTransfer.opsBytes_segments
    rw [commandOps_of_described hp hbuffer]
    by_cases hroom : (cmd.argTransfer.segments p cmd.mem).length ≤ MDTS_PAGES
    · simp [hbuffer, hroom, hbytes]
    · simp [hbuffer, hroom]
  · simp [hbuffer]

/-! ## The copy and the transfer -/

theorem small_arguments_arrive_iff (hbuf : 24 ≤ MAX_TX_SIZE c)
    (hsize : s.arg_size = cmd.scmd.agument_size.toNat)
    (hsmall : ¬ cmd.scmd.agument_size.toNat > 24) :
    s.ArgumentsArrive c p req cmd ↔ ArgumentsFit c p cmd := by
  have hfill : s.fill_arguments c req cmd = some { s with
      arg_buffer := writeWindow s.arg_buffer 0 24 fun i =>
        (copiedArg cmd.scmd.scmdarg).bytes.getD i 0
      nvme := .execute_message req cmd } := by
    unfold fill_arguments execute_arguments
    rw [if_neg (hsize ▸ hsmall)]
    rfl
  rw [argumentsFit_small hsmall]
  unfold ArgumentsArrive IspCommand.hostArguments
  simp only [hfill, hsmall, false_imp_iff, true_imp_iff, if_false, Option.some.injEq,
    exists_eq_left']
  rw [window_copied (scmdArg_bytes_length _) (by omega), copiedArg_bytes_iff]
  refine and_iff_left ?_
  intro i hi
  exact writeWindow_outside (Or.inr (by omega))

theorem large_arguments_arrive_iff (hp : c.hostPageBits = p.hostPageBits)
    (hsize : s.arg_size = cmd.scmd.agument_size.toNat)
    (hlarge : cmd.scmd.agument_size.toNat > 24) :
    s.ArgumentsArrive c p req cmd ↔ ArgumentsFit c p cmd := by
  rw [argumentsFit_large hp hlarge]
  have hfill : s.fill_arguments c req cmd =
      (commandWindows c.hostPageBits cmd 0 cmd.scmd.agument_size.toNat).bind fun ws =>
        { s with nvme := .execute_transfer req cmd ws }.execute_transfer c req cmd ws := by
    unfold fill_arguments execute_arguments
    rw [hsize, if_pos hlarge]
    cases commandWindows c.hostPageBits cmd 0 cmd.scmd.agument_size.toNat <;> rfl
  unfold ArgumentsArrive
  rw [hfill, commandWindows]
  cases hops : commandOps c.hostPageBits cmd cmd.scmd.agument_size.toNat with
  | none => simp
  | some ops =>
    have hend := dmaWindows_end_iff ops cmd.scmd.agument_size.toNat (Nat.zero_le (MAX_TX_SIZE c))
    rw [Nat.zero_add] at hend
    simp only [Option.map_some, Option.bind_some, execute_transfer, List.all_eq_true,
      decide_eq_true_eq, hend, Option.some.injEq, exists_eq_left']
    by_cases hin : min (opsBytes ops) cmd.scmd.agument_size.toNat ≤ MAX_TX_SIZE c
    · refine iff_of_true ⟨_, if_pos hin, ?_, ?_⟩ hin
      · intro hdescribed
        have hbuffer := commandOps_of_described hp (hdescribed hlarge)
        rw [hops] at hbuffer
        split at hbuffer
        · obtain rfl := Option.some.inj hbuffer
          have hbytes : opsBytes (cmd.argTransfer.segments p cmd.mem) =
              cmd.scmd.agument_size.toNat := PrpTransfer.opsBytes_segments
          have hread := (readHost_windows cmd.mem (cmd.argTransfer.segments p cmd.mem)
            s.arg_buffer 0).1
          rw [hbytes] at hread
          unfold IspCommand.hostArguments
          rw [if_pos hlarge]
          exact hread
        · cases hbuffer
      · intro i hi
        exact readHost_behind fun w hw => (hend.mpr hin w hw).trans hi
    · refine iff_of_false ?_ hin
      rintro ⟨t, ht, -⟩
      rw [if_neg hin] at ht
      cases ht

/-! ## The size in the slot -/

/-- While a command is under way the slot holds the size of its arguments. -/
def Sized (s : IspState) : Prop :=
  ∀ cmd, s.nvme.command = some cmd → s.arg_size = cmd.scmd.agument_size.toNat

theorem Sized.outside (hn : s'.nvme.command = none) : s'.Sized := by
  intro cmd hcmd
  rw [hn] at hcmd
  cases hcmd

theorem Sized.same (h : s.Sized) (hn : s'.nvme.command = s.nvme.command)
    (hsize : s'.arg_size = s.arg_size) : s'.Sized := by
  intro cmd hcmd
  rw [hsize]
  exact h cmd (hn.symm.trans hcmd)

theorem Sized.take {task : NvmeTask} (hn : s.nvme = .free) (hstep : s.take c task = some s') :
    s'.Sized := by
  have hfree : s.nvme.command = none := by rw [hn]; rfl
  cases take_move hn hstep with
  | same _ _ hn' => exact .outside hn'
  | transfer _ _ _ hn' => exact .outside hn'
  | download => exact .outside hfree
  | activate => exact .outside (by rw [add_applet_view.2]; exact hfree)
  | @execute req cmd _ _ hn' hview =>
    have hview := (slotView_eq hview).1
    simp only [callView, Prod.mk.injEq] at hview
    intro cmd' hcmd
    rw [hn'] at hcmd
    cases hcmd
    exact hview.2.1

theorem Sized.nvmeContinue (h : s.Sized) (hstep : s.nvmeContinue c = some s') : s'.Sized := by
  unfold IspState.nvmeContinue at hstep
  split at hstep <;> rename_i hn
  · cases hstep
    exact h
  · obtain ⟨t, hmove, rfl⟩ := execute_objects_move hstep
    refine h.same (by rw [hn]; rfl) ?_
    rw [hmove.rest]
  · unfold execute_arguments at hstep
    split at hstep
    · obtain ⟨ws, -, rfl⟩ := Option.map_eq_some_iff.mp hstep
      exact h.same (by rw [hn]; rfl) rfl
    · cases hstep
      exact h.same (by rw [hn]; rfl) rfl
  · unfold execute_transfer at hstep
    split at hstep <;> cases hstep
    exact h.same (by rw [hn]; rfl) rfl
  · cases hstep
    exact h.same (by rw [hn]; rfl) rfl
  · cases hstep
    exact .outside rfl
  · cases hstep
    unfold control_pending
    split <;> exact .outside rfl
  · obtain ⟨req, -, rfl⟩ := Option.map_eq_some_iff.mp hstep
    exact .outside rfl
  · cases hstep
    exact .outside rfl
  · cases hstep
    exact .outside rfl

theorem Sized.step (h : s.Sized) (hstep : ispStep c s a = some s') : s'.Sized := by
  rcases ispStep_cases hstep with ⟨task, -, rfl | ⟨hn, htake⟩⟩ | ⟨-, hcontinue⟩ | hview
  · exact h
  · exact .take hn htake
  · exact h.nvmeContinue hcontinue
  · obtain ⟨hn, hsize, -⟩ := nvmeView_eq hview
    exact h.same (congrArg NvmePc.command hn) hsize

end IspState

open IspState

/-- In every run, the arguments of a command arrive exactly when they fit. -/
theorem the_arguments_arrive_exactly_when_they_fit {c : Config} {p : HostPage}
    {objs : Nat → HostDma} {arg_buffer code : Nat → UInt8} {acts : List IspAction} {s : IspState}
    {req : Nat} {cmd : IspCommand} (hp : c.hostPageBits = p.hostPageBits)
    (hbuf : 24 ≤ MAX_TX_SIZE c)
    (hrun : run (ispStep c) (initialIsp objs arg_buffer code) acts = some s)
    (hn : s.nvme = .execute_arguments req cmd) :
    s.ArgumentsArrive c p req cmd ↔ ArgumentsFit c p cmd := by
  have hinit : (initialIsp objs arg_buffer code).Sized := .outside rfl
  have hsized := run_keeps (fun _ _ _ ht hstep => ht.step hstep) hinit hrun
  have hsize := hsized cmd (by rw [hn]; rfl)
  by_cases hlarge : cmd.scmd.agument_size.toNat > 24
  · exact large_arguments_arrive_iff hp hsize hlarge
  · exact small_arguments_arrive_iff hbuf hsize hlarge

/-- The steps of a command up to its arguments. -/
def untilArguments (cmd : IspCommand) : List IspAction :=
  [.nvme (.isp_io 0x80 cmd zeroDma), .nvme_continue]

theorem reaches_arguments (cmd : IspCommand)
    (h : (run (ispStep smallDevice) zeroIsp (untilArguments cmd)).isSome = true) :
    ∃ s req, run (ispStep smallDevice) zeroIsp (untilArguments cmd) = some s ∧
      s.nvme = .execute_arguments req cmd := by
  obtain ⟨t, hrun⟩ := Option.isSome_iff_exists.mp h
  have hsteps := hrun
  simp only [untilArguments, run_cons, run_nil] at hsteps
  obtain ⟨u, hfirst, hrest⟩ := Option.bind_eq_some_iff.mp hsteps
  obtain ⟨v, hsecond, hv⟩ := Option.bind_eq_some_iff.mp hrest
  cases hv
  have hfirst : zeroIsp.process_isp_io smallDevice 0x80 cmd zeroDma = some u := hfirst
  obtain ⟨⟨req, s1⟩, -, hcommand⟩ := Option.bind_eq_some_iff.mp hfirst
  have hu : u.nvme = .execute_objects req cmd := by
    obtain rfl := Option.some.inj hcommand
    exact freeControl_view.2
  simp only [ispStep, IspState.nvmeContinue, hu] at hsecond
  obtain ⟨t, -, rfl⟩ := execute_objects_move hsecond
  exact ⟨_, req, hrun, rfl⟩

/-- A hundred bytes in one page of the host. -/
def hundredBytes : IspCommand := ispCommand 1 100 ⟨0, 0, 0, 0, 0, 0⟩

theorem hundredBytes_described : hundredBytes.DescribesBuffer PrpWalk.page4096 := by
  have hpointers : hundredBytes.argTransfer.pointers PrpWalk.page4096 hundredBytes.mem =
      ⟨[], []⟩ := by
    unfold PrpTransfer.pointers PrpTransfer.pointersFrom
    rw [if_pos (by decide)]
  refine ⟨by decide, ?_⟩
  rw [hpointers]
  exact ⟨nofun, nofun⟩

/-- They arrive, and so do eight bytes with the same words in `cdw11` and `cdw12`. -/
theorem a_hundred_bytes_and_two_equal_words_arrive :
    (∃ s req, ArgumentsArrive smallDevice PrpWalk.page4096 s req hundredBytes) ∧
      hundredBytes.DescribesBuffer PrpWalk.page4096 ∧
      ∃ s req, ArgumentsArrive smallDevice PrpWalk.page4096 s req
        (ispCommand 1 8 ⟨5, 6, 6, 0, 0, 0⟩) := by
  refine ⟨?_, hundredBytes_described, ?_⟩
  · obtain ⟨s, req, hs, hn⟩ := reaches_arguments hundredBytes (by decide +kernel)
    refine ⟨s, req, (the_arguments_arrive_exactly_when_they_fit (p := PrpWalk.page4096) rfl
      (by decide) hs hn).mpr ?_⟩
    rw [argumentsFit_large rfl (by decide)]
    exact ⟨[⟨4096, 100⟩], by decide, by decide⟩
  · obtain ⟨s, req, hs, hn⟩ := reaches_arguments (ispCommand 1 8 ⟨5, 6, 6, 0, 0, 0⟩)
      (by decide +kernel)
    refine ⟨s, req, (the_arguments_arrive_exactly_when_they_fit (p := PrpWalk.page4096) rfl
      (by decide) hs hn).mpr ?_⟩
    rw [argumentsFit_small (by decide)]
    rfl

/-- Eight bytes with other words there. -/
theorem the_second_word_of_the_arguments_is_lost :
    ¬ ∀ (c : Config) (p : HostPage) (objs : Nat → HostDma) (arg_buffer code : Nat → UInt8)
      (acts : List IspAction) (s : IspState) (req : Nat) (cmd : IspCommand),
        c.hostPageBits = p.hostPageBits → 24 ≤ MAX_TX_SIZE c →
          run (ispStep c) (initialIsp objs arg_buffer code) acts = some s →
            s.nvme = .execute_arguments req cmd → s.ArgumentsArrive c p req cmd := by
  intro hall
  obtain ⟨s, req, hs, hn⟩ := reaches_arguments (ispCommand 1 8 ⟨5, 6, 7, 0, 0, 0⟩)
    (by decide +kernel)
  have hinit : zeroIsp.Sized := .outside rfl
  have hsized := run_keeps (fun _ _ _ ht hstep => ht.step hstep) hinit hs
  have harrive := hall smallDevice PrpWalk.page4096 _ _ _ _ s req _ rfl (by decide) hs hn
  rw [small_arguments_arrive_iff (by decide) (hsized _ (by rw [hn]; rfl)) (by decide),
    argumentsFit_small (by decide)] at harrive
  revert harrive
  decide

end S4Sim
