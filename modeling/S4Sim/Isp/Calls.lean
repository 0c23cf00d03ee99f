-- The calls that execute commands lead to. All commands use one thread slot, and the
-- message to the applet thread is a pointer to it. Each completed command is one call
-- with its own function and arguments as long as no command comes while a function is
-- queued or running, and as long as the copy of the arguments is right.
import S4Sim.Isp.Objects
import S4Sim.Firmware.DoorBellPolling

open Runs Windows

namespace S4Sim

/-! ## The arguments of a command -/

/-- The argument bytes of a command: from its entry, or from the buffers of the host. -/
def ownArgs (c : Config) (cmd : IspCommand) : Option (List UInt8) :=
  if cmd.scmd.agument_size.toNat > 24 then
    (decodedOps c.hostPageBits cmd.mem cmd.scmd.prp1.toNat cmd.scmd.prp2.toNat
      cmd.scmd.agument_size.toNat).map fun ops =>
    ops.flatMap fun e => window cmd.mem e.host_p_addr e.len
  else some (cmd.scmd.scmdarg.bytes.take cmd.scmd.agument_size.toNat)

/-- The function, the argument size and the argument bytes that a command names. -/
def ownExecution (c : Config) (cmd : IspCommand) : Option Execution :=
  (ownArgs c cmd).map fun args =>
    ⟨cmd.scmd.ftn_id.toNat, cmd.scmd.agument_size.toNat, args⟩

/-- The PRPs of large arguments decode. For arguments in the entry, the bytes of `cdw11`
that belong to the arguments are those of `cdw12`. -/
def ArgsOk (c : Config) (cmd : IspCommand) : Prop :=
  if cmd.scmd.agument_size.toNat > 24 then
    (decodedOps c.hostPageBits cmd.mem cmd.scmd.prp1.toNat cmd.scmd.prp2.toNat
      cmd.scmd.agument_size.toNat).isSome = true
  else
    (wordBytes cmd.scmd.scmdarg.cdw11).take (cmd.scmd.agument_size.toNat - 4) =
      (wordBytes cmd.scmd.scmdarg.cdw12).take (cmd.scmd.agument_size.toNat - 4)

theorem wordBytes_length (w : UInt32) : (wordBytes w).length = 4 := by simp [wordBytes]

theorem scmdArg_bytes_length (arg : ScmdArg) : arg.bytes.length = 24 := by
  simp [ScmdArg.bytes, wordBytes_length]

/-- The copy takes `cdw12` for `cdw11`, so it is right where these agree. -/
theorem copiedArg_bytes_iff {arg : ScmdArg} {n : Nat} :
    (IspState.copiedArg arg).bytes.take n = arg.bytes.take n ↔
      (wordBytes arg.cdw11).take (n - 4) = (wordBytes arg.cdw12).take (n - 4) := by
  simp only [ScmdArg.bytes, IspState.copiedArg, List.take_append, wordBytes_length,
    List.append_cancel_left_eq]
  constructor
  · intro h
    exact (List.append_inj_left h (by simp [wordBytes_length])).symm
  · intro h
    rw [h]

/-- A list in memory: a window that is written with the bytes of a list holds the list. -/
theorem window_getD (l : List UInt8) {n : Nat} (h : n ≤ l.length) :
    window (fun i => l.getD i 0) 0 n = l.take n := by
  apply List.ext_getElem
  · simp [h]
  · intro i hi _
    rw [window_length] at hi
    simp [window, List.getD, List.getElem?_eq_getElem (show i < l.length by omega)]

theorem window_copied {m : Nat → UInt8} {l : List UInt8} {n : Nat} (hl : l.length = 24)
    (hn : n ≤ 24) : window (writeWindow m 0 24 fun i => l.getD i 0) 0 n = l.take n := by
  rw [← window_take hn, window_writeWindow_same, window_getD l (by omega), List.take_take,
    Nat.min_eq_left hn]

theorem segments_length (mem : Mem) (ops : List DmaOp) :
    (ops.flatMap fun e => window mem e.host_p_addr e.len).length = opsBytes ops := by
  simp [opsBytes, List.length_flatMap]

/-- A transfer that goes through all of its segments copies them one after the other. -/
theorem readHost_windows (mem : Mem) (ops : List DmaOp) (ssd : Nat → UInt8) (a : Nat) :
    window (readHost mem ssd (dmaWindows ops a (opsBytes ops))) a (opsBytes ops) =
        (ops.flatMap fun e => window mem e.host_p_addr e.len) ∧
      ∀ i, i < a → readHost mem ssd (dmaWindows ops a (opsBytes ops)) i = ssd i := by
  induction ops generalizing ssd a with
  | nil => exact ⟨rfl, fun _ _ => rfl⟩
  | cons e ops ih =>
    have hbytes : opsBytes (e :: ops) = e.len + opsBytes ops := opsBytes_cons
    by_cases hzero : opsBytes (e :: ops) = 0
    · -- All segments are empty.
      have hlen := segments_length mem (e :: ops)
      rw [hzero, List.length_eq_zero_iff] at hlen
      rw [hzero, hlen]
      exact ⟨rfl, fun i _ => by simp [dmaWindows, readHost]⟩
    · have hws : dmaWindows (e :: ops) a (opsBytes (e :: ops)) =
          ⟨e.host_p_addr, a, e.len⟩ :: dmaWindows ops (a + e.len) (opsBytes ops) := by
        rw [dmaWindows, if_neg hzero, hbytes, Nat.min_eq_left (Nat.le_add_right _ _)]
        simp only [Nat.add_sub_cancel_left]
      obtain ⟨hrest, hbelow⟩ :=
        ih (writeWindow ssd a e.len fun i => mem (e.host_p_addr + i)) (a + e.len)
      have hfirst : window (writeWindow ssd a e.len fun i => mem (e.host_p_addr + i)) a e.len =
          window mem e.host_p_addr e.len := by
        rw [window_writeWindow_same, window_shift, Nat.add_zero]
      rw [hws]
      refine ⟨?_, ?_⟩
      · rw [hbytes, window_add, List.flatMap_cons, ← hrest, ← hfirst]
        congr 1
        apply window_congr
        intro i _ hi
        exact hbelow i hi
      · intro i hi
        have hkeep := hbelow i (by omega)
        rw [writeWindow_outside (Or.inl hi)] at hkeep
        exact hkeep

/-- The bytes that a transfer from the host leaves in `arg_buffer`. -/
theorem readHost_decoded {c : Config} {cmd : IspCommand} {ops : List DmaOp} {ws : List DmaWindow}
    {n : Nat} {ssd : Nat → UInt8}
    (hops : decodedOps c.hostPageBits cmd.mem cmd.scmd.prp1.toNat cmd.scmd.prp2.toNat n = some ops)
    (hws : commandWindows c.hostPageBits cmd 0 n = some ws) :
    window (readHost cmd.mem ssd ws) 0 n =
      ops.flatMap fun e => window cmd.mem e.host_p_addr e.len := by
  obtain ⟨ops', hops', rfl⟩ := Option.map_eq_some_iff.mp hws
  obtain ⟨⟨dma, ok⟩, hdec, hdma⟩ := Option.map_eq_some_iff.mp hops'
  have hdma : dma.ops = ops' := hdma
  obtain ⟨hsame, hbytes⟩ := decodedOps_spec hops rfl hdec
  rw [← hdma, hsame, ← hbytes]
  exact (readHost_windows cmd.mem ops ssd 0).1

namespace AppletPc

/-- No function of the applet runs. -/
def finished : AppletPc → Bool
  | idle | exited => true
  | _ => false

end AppletPc

/-- No command of the driver is under way. -/
def NvmePc.isFree : NvmePc → Bool
  | .free => true
  | _ => false

/-- The execute command that the NVMe thread works on. -/
def NvmePc.command : NvmePc → Option IspCommand
  | execute_objects _ cmd | execute_arguments _ cmd | execute_transfer _ cmd _
  | execute_message _ cmd | execute_post _ cmd => some cmd
  | _ => none

namespace IspState

/-- A function is queued or running. -/
def Busy (s : IspState) : Prop := s.msg_in_q ≠ 0 ∨ s.applet.finished = false

/-- The call that a message in the queue leads to. -/
def slot (s : IspState) : Execution :=
  ⟨s.ftn_id, s.arg_size, window s.arg_buffer 0 s.arg_size⟩

/-- The calls that wait: one for each message in the queue, and one that has begun. -/
def queuedCalls (s : IspState) : List Execution :=
  List.replicate (s.msg_in_q + if s.applet = .starting then 1 else 0) s.slot

/-- The command whose completion is being posted. -/
def posting (s : IspState) : List IspCommand :=
  match s.nvme with
  | .execute_post _ cmd => [cmd]
  | _ => []

/-- The execute commands that are completed are, in their order, the calls that were made
and the calls that wait. -/
def CalledOnce (c : Config) (s : IspState) : Prop :=
  (s.executed ++ s.posting).map (ownExecution c) = (s.called ++ s.queuedCalls).map some

/-- What a function that is queued or running uses. -/
def functionView (s : IspState) :=
  (s.ftn_id, s.arg_size, s.arg_buffer, s.function_exited, s.sync_nand_op_req, s.pending_dma,
    s.cmplt_dma)

/-- The step is part of an execute command. -/
def Executes (s : IspState) : IspAction → Prop
  | .nvme (.isp_io 0x80 _ _) => True
  | .nvme_continue => s.nvme.command.isSome
  | _ => False

/-- A step of an execute command leaves what a queued or running function uses. -/
def Undisturbed (c : Config) (s : IspState) (a : IspAction) : Prop :=
  s.Busy → s.Executes a → ∀ s', ispStep c s a = some s' → s'.functionView = s.functionView

/-! ## What a step does to the thread slot -/

variable {s s' : IspState} {c : Config} {a : IspAction}

/-- What the calls of the functions depend on. -/
def callView (s : IspState) :=
  (s.ftn_id, s.arg_size, s.arg_buffer, s.msg_in_q, s.applet, s.executed, s.called)

/-- What the addresses of the calls depend on. -/
def imageView (s : IspState) :=
  (s.header, s.external_code_buffer, s.checked, s.accepted, s.calls)

def slotView (s : IspState) := (s.callView, s.imageView, s.answered)

theorem slotView_eq (h : s'.slotView = s.slotView) :
    s'.callView = s.callView ∧ s'.imageView = s.imageView ∧ s'.answered = s.answered := by
  simpa only [slotView, Prod.mk.injEq] using h

/-- The transfer that is under way. -/
def moving (s : IspState) : List DataTransfer :=
  match s.nvme with
  | .transfer_wait _ _ _ transfer => [transfer]
  | _ => []

theorem freeControl_view : s.freeControl.slotView = s.slotView ∧ s.freeControl.nvme = s.nvme := by
  unfold freeControl
  split <;> exact ⟨rfl, rfl⟩

theorem malloc_view {x : Nat} (h : s.sys_malloc_req_obj = some (x, s')) :
    s'.slotView = s.slotView ∧ s'.nvme = s.nvme := by
  obtain ⟨rest, -, rfl⟩ := malloc_cases h
  exact ⟨rfl, rfl⟩

/-- The slot after the first writes of `execute_command`. -/
def named (s : IspState) (cmd : IspCommand) : IspState :=
  { s with ftn_id := cmd.scmd.ftn_id.toNat, arg_size := cmd.scmd.agument_size.toNat }

theorem named_view {cmd : IspCommand} (h : s'.slotView = s.slotView) :
    (s'.named cmd).slotView = (s.named cmd).slotView := by
  simp only [slotView, callView, imageView, named, Prod.mk.injEq] at h ⊢
  tauto

/-- Only `execute_command` writes the slot. -/
theorem isp_io_view {opcode req : Nat} {cmd : IspCommand} (hn : s.nvme = .free)
    (h : s.isp_io c opcode req cmd = some s') :
    (opcode ≠ 0x82 ∧ s'.slotView = s.slotView ∧ s'.nvme.command = none ∧ s'.moving = []) ∨
      (opcode = 0x80 ∧ s'.nvme = .execute_objects req cmd ∧
        s'.slotView = (s.named cmd).slotView) ∨
      (opcode = 0x82 ∧ s.data_transfer_command c req cmd = some s' ∧
        s'.slotView = s.slotView ∧ s'.nvme.command = none) := by
  unfold isp_io at h
  split at h
  · cases h
    right
    left
    exact ⟨rfl, freeControl_view.2, freeControl_view.1⟩
  · cases h
    left
    unfold control_command
    split
    · refine ⟨by decide, rfl, ?_, ?_⟩
      · simp only [enqueue_io_ccmd, hn]
        rfl
      · simp [moving, enqueue_io_ccmd, hn]
    · exact ⟨by decide, rfl, rfl, rfl⟩
  · right
    right
    refine ⟨rfl, h, ?_⟩
    obtain ⟨x, -, hws⟩ := Option.bind_eq_some_iff.mp h
    obtain ⟨ws, -, rfl⟩ := Option.map_eq_some_iff.mp hws
    exact ⟨rfl, rfl⟩
  · rename_i hopcode
    cases h
    left
    refine ⟨hopcode, rfl, ?_, ?_⟩
    · rw [hn]
      rfl
    · simp [moving, hn]

theorem msg_cbk_view {m : MsgOut} (h : s.msg_cbk m = some s') :
    s'.slotView = s.slotView ∧ s'.nvme = s.nvme := by
  unfold msg_cbk at h
  split at h
  · split at h
    · split at h <;> cases h <;> exact ⟨rfl, rfl⟩
    · cases h
  · cases h
    exact ⟨rfl, rfl⟩
  · split at h <;> cases h <;> exact ⟨rfl, rfl⟩

theorem recycle_view (hn : s.nvme = .free) :
    s.recycle_control_command.slotView = s.slotView ∧
      s.recycle_control_command.nvme.command = none ∧ s.recycle_control_command.moving = [] := by
  unfold recycle_control_command
  split
  · refine ⟨rfl, ?_, ?_⟩
    · rw [hn]
      rfl
    · simp [moving, hn]
  · split
    · refine ⟨rfl, ?_, ?_⟩
      · simp only [post_dma_msg, enqueue_io_ccmd, hn]
        rfl
      · simp [moving, post_dma_msg, enqueue_io_ccmd, hn]
    · exact ⟨rfl, rfl, rfl⟩

/-- What a task of the NVMe thread does to the slot, to the header and to transfers. -/
inductive TaskMove (c : Config) (s : IspState) : NvmeTask → IspState → Prop
  | same {task : NvmeTask} {s' : IspState} : (∀ cmd obj, task ≠ .isp_io 0x82 cmd obj) →
      s'.slotView = s.slotView → s'.nvme.command = none → s'.moving = [] → TaskMove c s task s'
  | execute {req : Nat} {cmd : IspCommand} {obj : HostDma} {s' : IspState} :
      s'.nvme = .execute_objects req cmd → s'.slotView = (s.named cmd).slotView →
      TaskMove c s (.isp_io 0x80 cmd obj) s'
  | transfer {req : Nat} {cmd : IspCommand} {obj : HostDma} {s1 s' : IspState} :
      s.sys_malloc_req_obj = some (req, s1) →
      (s1.writeObj req obj).data_transfer_command c req cmd = some s' →
      s'.slotView = s.slotView → s'.nvme.command = none →
      TaskMove c s (.isp_io 0x82 cmd obj) s'
  | download {n off : Nat} {cmd : IspCommand} {image : Nat → UInt8} :
      TaskMove c s (.fw_download n off cmd)
        { s with external_code_buffer := image, checked := false }
  | activate : TaskMove c s .fw_activate s.add_applet

theorem take_move {task : NvmeTask} (hn : s.nvme = .free) (h : s.take c task = some s') :
    TaskMove c s task s' := by
  have hfree : s.nvme.command = none := by rw [hn]; rfl
  have hstill : ∀ t : IspState, t.nvme = s.nvme → t.nvme.command = none ∧ t.moving = [] := by
    intro t ht
    rw [ht]
    exact ⟨hfree, by simp [moving, ht, hn]⟩
  cases task with
  | isp_io opcode cmd obj =>
    obtain ⟨⟨req, s1⟩, hmalloc, hrest⟩ := Option.bind_eq_some_iff.mp h
    obtain ⟨hview, hnvme⟩ := malloc_view hmalloc
    rcases isp_io_view (s := s1.writeObj req obj) (hnvme.trans hn) hrest with
      ⟨hopcode, hview', hn', hmoving⟩ | ⟨rfl, hn', hview'⟩ | ⟨rfl, htransfer, hview', hn'⟩
    · refine .same ?_ (hview'.trans hview) hn' hmoving
      intro cmd' obj' he
      cases he
      exact hopcode rfl
    · exact .execute hn' (hview'.trans (named_view hview))
    · exact .transfer hmalloc htransfer (hview'.trans hview) hn'
  | msg_out =>
    simp only [take] at h
    split at h
    · cases h
      exact .same (by simp) rfl (hstill _ rfl).1 (hstill _ rfl).2
    · rename_i m rest hq
      obtain ⟨hview, hnvme⟩ := msg_cbk_view (s := { s with msg_out_q := rest }) h
      exact .same (by simp) hview (hstill _ hnvme).1 (hstill _ hnvme).2
  | recycle =>
    simp only [take] at h
    split at h <;> cases h
    · exact .same (by simp) rfl (hstill _ rfl).1 (hstill _ rfl).2
    · obtain ⟨hview, hn', hmoving⟩ := recycle_view (s := { s with recycles := s.recycles - 1 }) hn
      exact .same (by simp) hview hn' hmoving
  | fw_download num_dwords dword_off cmd =>
    obtain ⟨ws, -, hws⟩ := Option.bind_eq_some_iff.mp h
    split at hws <;> cases hws
    exact .download
  | fw_activate =>
    cases h
    exact .activate
  | other_malloc obj =>
    obtain ⟨⟨x, s1⟩, hmalloc, rfl⟩ := Option.map_eq_some_iff.mp h
    obtain ⟨hview, hnvme⟩ := malloc_view hmalloc
    exact .same (by simp) hview (hstill _ hnvme).1 (hstill _ hnvme).2
  | other_write x obj =>
    simp only [take] at h
    split at h <;> cases h <;> exact .same (by simp) rfl (hstill _ rfl).1 (hstill _ rfl).2
  | other_free x =>
    simp only [take] at h
    split at h <;> cases h <;> exact .same (by simp) rfl (hstill _ rfl).1 (hstill _ rfl).2

theorem add_applet_view : s.add_applet.callView = s.callView ∧ s.add_applet.nvme = s.nvme := by
  unfold add_applet
  simp only
  split <;> exact ⟨rfl, rfl⟩

/-! ## The other threads -/

/-- What the NVMe thread alone writes. -/
def nvmeView (s : IspState) :=
  (s.nvme, s.ftn_id, s.arg_size, s.arg_buffer, s.executed, s.answered)

theorem nvmeView_eq (h : s'.nvmeView = s.nvmeView) :
    s'.nvme = s.nvme ∧ s'.arg_size = s.arg_size ∧ s'.answered = s.answered := by
  simp only [nvmeView, Prod.mk.injEq] at h
  tauto

theorem appletStep_nvmeView (h : s.appletStep = some s') : s'.nvmeView = s.nvmeView := by
  unfold IspState.appletStep at h
  split at h
  · split at h <;> cases h <;> rfl
  · cases h
    rfl
  · cases h
    rfl
  · unfold dequeue_dma_req at h
    split at h <;> cases h
    rfl
  · cases h
    rfl
  · cases h
    rfl
  · cases h
    rfl
  · cases h
    unfold wait_dma_req
    split <;> rfl
  · cases h
    rfl
  · obtain ⟨x, -, rfl⟩ := Option.map_eq_some_iff.mp h
    rfl
  · obtain ⟨x, -, rfl⟩ := Option.map_eq_some_iff.mp h
    split <;> rfl
  · cases h
    rfl

/-- A step is one of the NVMe thread, or leaves what that thread writes. -/
theorem ispStep_cases (h : ispStep c s a = some s') :
    (∃ task, a = .nvme task ∧ (s' = s ∨ s.nvme = .free ∧ s.take c task = some s')) ∨
      (a = .nvme_continue ∧ s.nvmeContinue c = some s') ∨ s'.nvmeView = s.nvmeView := by
  cases a with
  | nvme task =>
    left
    simp only [ispStep] at h
    split at h
    · rename_i hn
      exact ⟨task, rfl, Or.inr ⟨hn, h⟩⟩
    · cases h
      exact ⟨task, rfl, Or.inl rfl⟩
  | nvme_continue => exact Or.inr (Or.inl ⟨rfl, h⟩)
  | applet => exact Or.inr (Or.inr (appletStep_nvmeView h))
  | call low =>
    right
    right
    simp only [ispStep] at h
    split at h <;> cases h <;> rfl
  | host_dma start_mem_page ssd_addr size write =>
    right
    right
    simp only [ispStep] at h
    split at h <;> cases h <;> rfl
  | nand_op op =>
    right
    right
    simp only [ispStep] at h
    split at h
    · obtain ⟨x, -, rfl⟩ := Option.map_eq_some_iff.mp h
      rfl
    · cases h
      rfl
  | return_function =>
    right
    right
    simp only [ispStep] at h
    split at h <;> cases h <;> rfl
  | ftl =>
    right
    right
    simp only [ispStep] at h
    split at h <;> cases h <;> rfl

/-! ## The invariant -/

/-- How far the command that the NVMe thread works on has filled the slot. -/
def Stage (c : Config) (s : IspState) : Prop :=
  match s.nvme with
  | .execute_objects _ cmd | .execute_arguments _ cmd =>
    ¬ s.Busy ∧ s.ftn_id = cmd.scmd.ftn_id.toNat ∧ s.arg_size = cmd.scmd.agument_size.toNat ∧
      ArgsOk c cmd
  | .execute_transfer _ cmd ws =>
    ¬ s.Busy ∧ s.ftn_id = cmd.scmd.ftn_id.toNat ∧ s.arg_size = cmd.scmd.agument_size.toNat ∧
      ArgsOk c cmd ∧ s.arg_size > 24 ∧ commandWindows c.hostPageBits cmd 0 s.arg_size = some ws
  | .execute_message _ cmd => ¬ s.Busy ∧ ownExecution c cmd = some s.slot
  | _ => True

structure Calling (c : Config) (s : IspState) : Prop where
  stage : s.Stage c
  calls : s.CalledOnce c

theorem stage_of_no_command (h : s.nvme.command = none) : s.Stage c := by
  unfold Stage
  split <;> rename_i hn <;> first
    | trivial
    | (rw [hn] at h
       cases h)

theorem posting_of_no_command (h : s.nvme.command = none) : s.posting = [] := by
  unfold posting
  split
  · rename_i hn
    rw [hn] at h
    cases h
  · rfl

theorem view_fields (h : s'.callView = s.callView) :
    s'.slot = s.slot ∧ s'.queuedCalls = s.queuedCalls ∧ s'.executed = s.executed ∧
      s'.called = s.called ∧ (s'.Busy ↔ s.Busy) := by
  simp only [callView, Prod.mk.injEq] at h
  obtain ⟨hftn, hsize, hbuf, hmsg, happlet, hexecuted, hcalled⟩ := h
  have hslot : s'.slot = s.slot := by simp only [slot, hftn, hsize, hbuf]
  refine ⟨hslot, ?_, hexecuted, hcalled, ?_⟩
  · simp only [queuedCalls, hslot, hmsg, happlet]
  · simp only [Busy, hmsg, happlet]

/-- Work of the NVMe thread outside `execute_command`. -/
theorem Calling.outside (h : s.Calling c) (hn : s.nvme.command = none)
    (hn' : s'.nvme.command = none) (hview : s'.callView = s.callView) : s'.Calling c := by
  obtain ⟨-, hqueued, hexecuted, hcalled, -⟩ := view_fields hview
  refine ⟨stage_of_no_command hn', ?_⟩
  have hcalls := h.calls
  unfold CalledOnce at hcalls ⊢
  rw [posting_of_no_command hn] at hcalls
  rw [posting_of_no_command hn', hexecuted, hcalled, hqueued]
  exact hcalls

/-- While a function is queued or running, the NVMe thread does not fill the slot. -/
theorem Stage.of_busy (h : s.Stage c) (hbusy : s.Busy) (hn : s'.nvme = s.nvme) : s'.Stage c := by
  unfold Stage at h ⊢
  rw [hn]
  split at h <;> first
    | trivial
    | exact absurd hbusy h.1

theorem CalledOnce.applet (h : s.CalledOnce c) (hn : s'.nvme = s.nvme)
    (hexecuted : s'.executed = s.executed)
    (hcalls : s'.called ++ s'.queuedCalls = s.called ++ s.queuedCalls) : s'.CalledOnce c := by
  unfold CalledOnce posting at h ⊢
  rw [hn, hexecuted, hcalls]
  exact h

/-- The applet thread takes a message, and calls. -/
theorem Calling.pop (h : s.Calling c) (hpc : s.applet = .idle) (hmsg : s.msg_in_q ≠ 0) :
    Calling c { s with msg_in_q := s.msg_in_q - 1, applet := .starting } := by
  refine ⟨h.stage.of_busy (Or.inl hmsg) rfl, h.calls.applet rfl rfl ?_⟩
  have hcount : s.msg_in_q - 1 + 1 = s.msg_in_q := by omega
  simp [queuedCalls, slot, hpc, hcount]

theorem Calling.call {low : Nat → UInt8} (h : s.Calling c) (hpc : s.applet = .starting) :
    (s.call_function low).Calling c := by
  refine ⟨h.stage.of_busy (Or.inr (by rw [hpc]; rfl)) rfl, h.calls.applet rfl rfl ?_⟩
  simp [queuedCalls, slot, call_function, hpc, List.replicate_succ]

/-- A step of the applet thread at which no call begins. -/
theorem Calling.applet (h : s.Calling c) (hn : s'.nvme = s.nvme)
    (hview : s'.callView = callView { s with applet := s'.applet })
    (hstart : s.applet ≠ .starting) (hstart' : s'.applet ≠ .starting)
    (hfinished : s.applet.finished = true → s'.applet.finished = true) : s'.Calling c := by
  obtain ⟨hslot, hqueued, hexecuted, hcalled, hbusy⟩ := view_fields hview
  have hslot : s'.slot = s.slot := hslot
  have hbusy : s'.Busy → s.Busy := by
    intro hb
    rcases hbusy.mp hb with hmsg | hrun
    · exact Or.inl hmsg
    · right
      rw [Bool.eq_false_iff]
      intro hfin
      rw [hfinished hfin] at hrun
      cases hrun
  refine ⟨?_, h.calls.applet hn hexecuted ?_⟩
  · have hstage := h.stage
    simp only [callView, Prod.mk.injEq] at hview
    obtain ⟨hftn, hsize, -⟩ := hview
    unfold Stage at hstage ⊢
    rw [hn]
    split at hstage
    · exact ⟨fun hb => hstage.1 (hbusy hb), hftn ▸ hstage.2.1, hsize ▸ hstage.2.2⟩
    · exact ⟨fun hb => hstage.1 (hbusy hb), hftn ▸ hstage.2.1, hsize ▸ hstage.2.2⟩
    · exact ⟨fun hb => hstage.1 (hbusy hb), hftn ▸ hstage.2.1, hsize ▸ hstage.2.2⟩
    · exact ⟨fun hb => hstage.1 (hbusy hb), hslot ▸ hstage.2⟩
    · trivial
  · rw [hcalled, hqueued]
    simp only [queuedCalls, slot, hstart, hstart', if_false]

/-! ## The steps of execute_command -/

theorem queuedCalls_of_not_busy (h : ¬ s.Busy) : s.queuedCalls = [] := by
  obtain ⟨hmsg, hfin⟩ := not_or.mp h
  have hmsg := not_not.mp hmsg
  have hstart : s.applet ≠ .starting := by
    intro hpc
    rw [hpc] at hfin
    exact hfin rfl
  simp [queuedCalls, hmsg, hstart]

/-- While no function is queued or running, the slot can be filled. -/
theorem Calling.filling (h : s.Calling c) (hidle : ¬ s.Busy) (hmsg : s'.msg_in_q = s.msg_in_q)
    (happlet : s'.applet = s.applet) (hexecuted : s'.executed = s.executed)
    (hcalled : s'.called = s.called) (hpost : s.posting = []) (hpost' : s'.posting = [])
    (hstage : s'.Stage c) : s'.Calling c := by
  have hidle' : ¬ s'.Busy := by
    unfold Busy
    rw [hmsg, happlet]
    exact hidle
  refine ⟨hstage, ?_⟩
  have hcalls := h.calls
  unfold CalledOnce at hcalls ⊢
  rw [queuedCalls_of_not_busy hidle, hpost] at hcalls
  rw [queuedCalls_of_not_busy hidle', hpost', hexecuted, hcalled]
  exact hcalls

theorem Calling.begin {req : Nat} {cmd : IspCommand} (h : s.Calling c) (hn : s.nvme = .free)
    (hidle : ¬ s.Busy) (hargs : ArgsOk c cmd) (hn' : s'.nvme = .execute_objects req cmd)
    (hview : s'.callView = (s.named cmd).callView) : s'.Calling c := by
  obtain ⟨-, -, hexecuted, hcalled, hbusy⟩ := view_fields hview
  simp only [callView, Prod.mk.injEq] at hview
  obtain ⟨hftn, hsize, -, hmsg, happlet, -⟩ := hview
  apply h.filling hidle hmsg happlet hexecuted hcalled
  · simp [posting, hn]
  · simp [posting, hn']
  · unfold Stage
    rw [hn']
    exact ⟨fun hb => hidle (hbusy.mp hb), hftn, hsize, hargs⟩

theorem Calling.objects {req : Nat} {cmd : IspCommand} (h : s.Calling c)
    (hn : s.nvme = .execute_objects req cmd) (hstep : s.execute_objects req cmd = some s') :
    s'.Calling c := by
  obtain ⟨t, hmove, rfl⟩ := execute_objects_move hstep
  have hview : t.callView = s.callView := by
    rw [hmove.rest]
    rfl
  obtain ⟨-, -, hexecuted, hcalled, hbusy⟩ := view_fields hview
  simp only [callView, Prod.mk.injEq] at hview
  obtain ⟨hftn, hsize, -, hmsg, happlet, -⟩ := hview
  have hstage := h.stage
  unfold Stage at hstage
  rw [hn] at hstage
  refine h.filling hstage.1 hmsg happlet hexecuted hcalled ?_ ?_ ?_
  · simp [posting, hn]
  · rfl
  · exact ⟨fun hb => hstage.1 (hbusy.mp hb), hftn.trans hstage.2.1, hsize.trans hstage.2.2.1,
      hstage.2.2.2⟩

/-- The bytes that the copy from the entry leaves in `arg_buffer`. -/
theorem slot_of_entry {req : Nat} {cmd : IspCommand} (hsmall : ¬ s.arg_size > 24)
    (hftn : s.ftn_id = cmd.scmd.ftn_id.toNat) (hsize : s.arg_size = cmd.scmd.agument_size.toNat)
    (hargs : ArgsOk c cmd) (hstep : s.execute_arguments c req cmd = some s') :
    ownExecution c cmd = some s'.slot := by
  unfold execute_arguments at hstep
  rw [if_neg hsmall] at hstep
  cases hstep
  unfold ArgsOk at hargs
  rw [← hsize, if_neg hsmall] at hargs
  have hbytes : window (writeWindow s.arg_buffer 0 24 fun i =>
      (copiedArg cmd.scmd.scmdarg).bytes.getD i 0) 0 s.arg_size =
        cmd.scmd.scmdarg.bytes.take s.arg_size := by
    rw [window_copied (scmdArg_bytes_length _) (by omega), copiedArg_bytes_iff.mpr hargs]
  simp only [ownExecution, ownArgs, slot, ← hsize, if_neg hsmall, Option.map_some, hbytes, hftn]

theorem Calling.arguments {req : Nat} {cmd : IspCommand} (h : s.Calling c)
    (hn : s.nvme = .execute_arguments req cmd)
    (hstep : s.execute_arguments c req cmd = some s') : s'.Calling c := by
  have hstage := h.stage
  unfold Stage at hstage
  rw [hn] at hstage
  obtain ⟨hidle, hftn, hsize, hargs⟩ := hstage
  by_cases hlarge : s.arg_size > 24
  · unfold execute_arguments at hstep
    rw [if_pos hlarge] at hstep
    obtain ⟨ws, hws, rfl⟩ := Option.map_eq_some_iff.mp hstep
    refine h.filling hidle rfl rfl rfl rfl ?_ ?_ ?_
    · simp [posting, hn]
    · rfl
    · exact ⟨hidle, hftn, hsize, hargs, hlarge, hws⟩
  · have hslot := slot_of_entry hlarge hftn hsize hargs hstep
    unfold execute_arguments at hstep
    rw [if_neg hlarge] at hstep
    cases hstep
    refine h.filling hidle rfl rfl rfl rfl ?_ ?_ ?_
    · simp [posting, hn]
    · rfl
    · exact ⟨hidle, hslot⟩

theorem Calling.transfer {req : Nat} {cmd : IspCommand} {ws : List DmaWindow} (h : s.Calling c)
    (hn : s.nvme = .execute_transfer req cmd ws)
    (hstep : s.execute_transfer c req cmd ws = some s') : s'.Calling c := by
  have hstage := h.stage
  unfold Stage at hstage
  rw [hn] at hstage
  obtain ⟨hidle, hftn, hsize, hargs, hlarge, hws⟩ := hstage
  unfold execute_transfer at hstep
  split at hstep <;> cases hstep
  refine h.filling hidle rfl rfl rfl rfl ?_ ?_ ?_
  · simp [posting, hn]
  · rfl
  · refine ⟨hidle, ?_⟩
    unfold ArgsOk at hargs
    rw [← hsize, if_pos hlarge] at hargs
    obtain ⟨ops, hops⟩ := Option.isSome_iff_exists.mp hargs
    unfold ownExecution ownArgs slot
    rw [← hsize, if_pos hlarge, hops, Option.map_some, Option.map_some, hftn,
      readHost_decoded hops hws]

theorem Calling.message {req : Nat} {cmd : IspCommand} (h : s.Calling c)
    (hn : s.nvme = .execute_message req cmd) : (s.execute_message req cmd).Calling c := by
  have hstage := h.stage
  unfold Stage at hstage
  rw [hn] at hstage
  obtain ⟨hidle, hslot⟩ := hstage
  refine ⟨trivial, ?_⟩
  have hcalls := h.calls
  unfold CalledOnce at hcalls ⊢
  rw [queuedCalls_of_not_busy hidle] at hcalls
  have hmsg : s.msg_in_q = 0 := by
    by_contra hne
    exact hidle (Or.inl hne)
  have hstart : s.applet ≠ .starting := by
    intro hpc
    exact hidle (Or.inr (by rw [hpc]; rfl))
  simp only [posting, hn, List.append_nil] at hcalls
  simp [posting, execute_message, queuedCalls, slot, hmsg, hstart, MSG_Q_SIZE, hcalls, hslot]

theorem Calling.post {req : Nat} {cmd : IspCommand} (h : s.Calling c)
    (hn : s.nvme = .execute_post req cmd) : (s.execute_post req cmd).Calling c := by
  refine ⟨trivial, ?_⟩
  have hcalls := h.calls
  unfold CalledOnce at hcalls ⊢
  rw [show s.posting = [cmd] by simp [posting, hn]] at hcalls
  have hpost : (s.execute_post req cmd).posting = [] := rfl
  have hqueued : (s.execute_post req cmd).queuedCalls = s.queuedCalls := rfl
  rw [hpost, hqueued, List.append_nil]
  exact hcalls

/-! ## The law -/

/-- An execute command comes when no function is queued or running, with arguments that
the driver copies. -/
def ExecuteOk (c : Config) (s : IspState) : IspAction → Prop
  | .nvme (.isp_io 0x80 cmd _) =>
    match s.nvme with
    | .free => ¬ s.Busy ∧ ArgsOk c cmd
    | _ => True
  | _ => True

theorem Calling.appletStep (h : s.Calling c) (hstep : s.appletStep = some s') :
    s'.Calling c := by
  unfold IspState.appletStep at hstep
  split at hstep <;> rename_i hpc
  · split at hstep <;> cases hstep
    · exact h
    · rename_i hmsg
      exact h.pop hpc hmsg
  · cases hstep
    exact h
  · cases hstep
    exact h
  · unfold dequeue_dma_req at hstep
    split at hstep <;> cases hstep
    exact h.applet rfl rfl (by simp [hpc]) nofun (by simp [hpc, AppletPc.finished])
  · cases hstep
    exact h.applet rfl rfl (by simp [hpc]) nofun (by simp [hpc, AppletPc.finished])
  · cases hstep
    exact h.applet rfl rfl (by simp [hpc]) nofun (by simp [hpc, AppletPc.finished])
  · cases hstep
    exact h.applet rfl rfl (by simp [hpc]) nofun (by simp [hpc, AppletPc.finished])
  · cases hstep
    unfold wait_dma_req
    split
    · exact h.applet rfl rfl (by simp [hpc]) nofun (by simp [hpc, AppletPc.finished])
    · exact h
  · cases hstep
    exact h.applet rfl rfl (by simp [hpc]) nofun (by simp [hpc, AppletPc.finished])
  · obtain ⟨x, -, rfl⟩ := Option.map_eq_some_iff.mp hstep
    exact h.applet rfl rfl (by simp [hpc]) nofun (by simp [hpc, AppletPc.finished])
  · obtain ⟨x, -, rfl⟩ := Option.map_eq_some_iff.mp hstep
    split
    · exact h.applet rfl rfl (by simp [hpc]) nofun (by simp [hpc, AppletPc.finished])
    · exact h
  · cases hstep
    exact h.applet rfl rfl (by simp [hpc]) nofun fun _ => rfl

theorem Calling.nvmeContinue (h : s.Calling c) (hstep : s.nvmeContinue c = some s') :
    s'.Calling c := by
  unfold IspState.nvmeContinue at hstep
  split at hstep <;> rename_i hn
  · cases hstep
    exact h
  · exact h.objects hn hstep
  · exact h.arguments hn hstep
  · exact h.transfer hn hstep
  · cases hstep
    exact h.message hn
  · cases hstep
    exact h.post hn
  · cases hstep
    unfold control_pending
    split <;> exact h.outside (by rw [hn]; rfl) rfl rfl
  · obtain ⟨req, -, rfl⟩ := Option.map_eq_some_iff.mp hstep
    exact h.outside (by rw [hn]; rfl) rfl rfl
  · cases hstep
    exact h.outside (by rw [hn]; rfl) rfl rfl
  · cases hstep
    exact h.outside (by rw [hn]; rfl) rfl rfl

theorem Calling.step (h : s.Calling c) (hok : ExecuteOk c s a) (hstep : ispStep c s a = some s') :
    s'.Calling c := by
  cases a with
  | nvme task =>
    simp only [ispStep] at hstep
    split at hstep
    · rename_i hn
      have hfree : s.nvme.command = none := by rw [hn]; rfl
      cases take_move hn hstep with
      | same _ hview hn' => exact h.outside hfree hn' (slotView_eq hview).1
      | transfer _ _ hview hn' => exact h.outside hfree hn' (slotView_eq hview).1
      | execute hn' hview =>
        simp only [ExecuteOk, hn] at hok
        exact h.begin hn hok.1 hok.2 hn' (slotView_eq hview).1
      | download => exact h.outside hfree hfree rfl
      | activate =>
        exact h.outside hfree (by rw [add_applet_view.2]; exact hfree) add_applet_view.1
    · cases hstep
      exact h
  | nvme_continue => exact h.nvmeContinue hstep
  | applet => exact h.appletStep hstep
  | call low =>
    simp only [ispStep] at hstep
    split at hstep <;> cases hstep
    · rename_i hpc
      exact h.call hpc
    · exact h
  | host_dma start_mem_page ssd_addr size write =>
    simp only [ispStep] at hstep
    split at hstep <;> cases hstep
    · rename_i hpc
      exact h.applet rfl rfl (by simp [hpc]) (by simp [do_sync_host_dma])
        (by simp [hpc, AppletPc.finished])
    · exact h
  | nand_op op =>
    simp only [ispStep] at hstep
    split at hstep
    · rename_i hpc
      obtain ⟨x, -, rfl⟩ := Option.map_eq_some_iff.mp hstep
      exact h.applet rfl rfl (by simp [hpc]) (by simp) (by simp [hpc, AppletPc.finished])
    · cases hstep
      exact h
  | return_function =>
    simp only [ispStep] at hstep
    split at hstep <;> cases hstep
    · rename_i hpc
      exact h.applet rfl rfl (by simp [hpc]) (by simp) (by simp [hpc, AppletPc.finished])
    · exact h
  | ftl =>
    simp only [ispStep] at hstep
    split at hstep <;> cases hstep
    · exact h
    · exact ⟨h.stage, h.calls⟩

/-- After the message, a command changes nothing that a function uses; before it, no
function is queued or running. -/
theorem Calling.undisturbed (h : s.Calling c) (hok : ExecuteOk c s a) : s.Undisturbed c a := by
  intro hbusy hexec s' hstep
  cases a with
  | nvme task =>
    simp only [ispStep] at hstep
    split at hstep
    · rename_i hn
      cases task with
      | isp_io opcode cmd obj =>
        by_cases hopcode : opcode = 0x80
        · subst hopcode
          simp only [ExecuteOk, hn] at hok
          exact absurd hbusy hok.1
        · simp [Executes, hopcode] at hexec
      | _ => exact hexec.elim
    · cases hstep
      rfl
  | nvme_continue =>
    have hstage := h.stage
    unfold Stage at hstage
    simp only [Executes] at hexec
    simp only [ispStep, IspState.nvmeContinue] at hstep
    cases hn : s.nvme with
    | execute_post req cmd =>
      rw [hn] at hstep
      cases hstep
      rfl
    | execute_objects | execute_arguments | execute_transfer | execute_message =>
      rw [hn] at hstage
      exact absurd hbusy hstage.1
    | free | control_pending | recycle_exited | transfer_wait | transfer_complete =>
      rw [hn] at hexec
      cases hexec
  | _ => exact hexec.elim

instance (c : Config) (cmd : IspCommand) : Decidable (ArgsOk c cmd) := by
  unfold ArgsOk
  split <;> infer_instance

instance (s : IspState) : Decidable s.Busy := inferInstanceAs (Decidable (_ ∨ _))

theorem executeOk_iff {opcode : Nat} {cmd : IspCommand} {obj : HostDma} :
    (s.nvme.isFree = true → opcode = 0x80 → ¬ s.Busy ∧ ArgsOk c cmd) ↔
      ExecuteOk c s (.nvme (.isp_io opcode cmd obj)) := by
  unfold ExecuteOk
  by_cases hopcode : opcode = 0x80
  · cases s.nvme <;> simp [NvmePc.isFree, hopcode]
  · simp [hopcode]

instance (c : Config) (s : IspState) : (a : IspAction) → Decidable (ExecuteOk c s a)
  | .nvme (.isp_io _ _ _) => decidable_of_iff _ executeOk_iff
  | .nvme .msg_out | .nvme .recycle | .nvme (.fw_download ..) | .nvme .fw_activate
  | .nvme (.other_malloc _) | .nvme (.other_write ..) | .nvme (.other_free _) | .nvme_continue
  | .applet | .call _ | .host_dma .. | .nand_op _ | .return_function | .ftl =>
    inferInstanceAs (Decidable True)

instance (c : Config) (s : IspState) : Decidable (s.CalledOnce c) :=
  inferInstanceAs (Decidable (_ = _))

end IspState

open IspState

/-- Each completed execute command is one call with its own function and arguments, and no
command changes what a function uses, in every run in which the commands come when no
function is queued or running and their arguments are copied. -/
theorem each_execute_command_is_one_call_while_no_function_waits {c : Config}
    {objs : Nat → HostDma} {arg_buffer code : Nat → UInt8} {acts : List IspAction} {s : IspState}
    (hok : AllSteps (ispStep c) (ExecuteOk c) (initialIsp objs arg_buffer code) acts)
    (hrun : run (ispStep c) (initialIsp objs arg_buffer code) acts = some s) :
    s.CalledOnce c ∧
      AllSteps (ispStep c) (Undisturbed c) (initialIsp objs arg_buffer code) acts := by
  have hinit : Calling c (initialIsp objs arg_buffer code) := ⟨trivial, rfl⟩
  constructor
  · have hinv := run_invariant_of_ok (I := fun _ s => Calling c s) hinit
      (fun _ t a u _ ht ha hstep => ht.step ha hstep) hok hrun
    exact hinv.calls
  · exact allSteps_of_invariant (fun t a u ht ha hstep => ht.step ha hstep)
      (fun t a ht ha => ht.undisturbed ha) hinit hok

/-- The same words in `cdw11` and `cdw12`, and a second command after the first function. -/
def twoFunctions : List IspAction :=
  runExecute 1 16 ⟨5, 6, 6, 7, 0, 0⟩ ++ startFunction ++ [.return_function] ++
    runExecute 2 4 ⟨9, 1, 2, 0, 0, 0⟩ ++ [.applet] ++ startFunction

theorem two_functions_are_called_in_turn :
    ∃ s, run (ispStep smallDevice) zeroIsp twoFunctions = some s ∧
      s.called.map Execution.ftn_id = [1, 2] ∧ s.CalledOnce smallDevice ∧
      AllSteps (ispStep smallDevice) (Undisturbed smallDevice) zeroIsp twoFunctions := by
  have hrun : (run (ispStep smallDevice) zeroIsp twoFunctions).map
      (fun s => s.called.map Execution.ftn_id) = some [1, 2] := by
    decide +kernel
  obtain ⟨s, hs, hcalled⟩ := Option.map_eq_some_iff.mp hrun
  exact ⟨s, hs, hcalled,
    each_execute_command_is_one_call_while_no_function_waits (by decide +kernel) hs⟩

/-- A second command before the applet thread has taken the first one: both messages lead
to the second function. And a command with 8 bytes of arguments: its function gets `cdw12`
for `cdw11`. -/
theorem a_second_command_or_a_second_word_changes_the_call :
    (∃ s, run (ispStep smallDevice) zeroIsp (runExecute 1 0 ⟨0, 0, 0, 0, 0, 0⟩ ++
        runExecute 2 0 ⟨0, 0, 0, 0, 0, 0⟩ ++ startFunction ++ [.return_function, .applet] ++
        startFunction) = some s ∧
      s.called.map Execution.ftn_id = [2, 2] ∧ ¬ s.CalledOnce smallDevice) ∧
    ∃ s, run (ispStep smallDevice) zeroIsp (runExecute 1 8 ⟨5, 6, 7, 0, 0, 0⟩ ++ startFunction) =
        some s ∧
      s.called = [⟨1, 8, [5, 0, 0, 0, 7, 0, 0, 0]⟩] ∧ ¬ s.CalledOnce smallDevice := by
  constructor
  · have hrun : (run (ispStep smallDevice) zeroIsp (runExecute 1 0 ⟨0, 0, 0, 0, 0, 0⟩ ++
        runExecute 2 0 ⟨0, 0, 0, 0, 0, 0⟩ ++ startFunction ++ [.return_function, .applet] ++
        startFunction)).map (fun s => (s.called.map Execution.ftn_id,
          decide (s.CalledOnce smallDevice))) = some ([2, 2], false) := by
      decide +kernel
    obtain ⟨s, hs, he⟩ := Option.map_eq_some_iff.mp hrun
    rw [Prod.mk.injEq, decide_eq_false_iff_not] at he
    exact ⟨s, hs, he⟩
  · have hrun : (run (ispStep smallDevice) zeroIsp (runExecute 1 8 ⟨5, 6, 7, 0, 0, 0⟩ ++
        startFunction)).map (fun s => (s.called, decide (s.CalledOnce smallDevice))) =
          some ([⟨1, 8, [5, 0, 0, 0, 7, 0, 0, 0]⟩], false) := by
      decide +kernel
    obtain ⟨s, hs, he⟩ := Option.map_eq_some_iff.mp hrun
    rw [Prod.mk.injEq, decide_eq_false_iff_not] at he
    exact ⟨s, hs, he⟩

end S4Sim
