-- The SSD memory that data transfer commands go through. The length comes from the host
-- and the address from a slot that is never cleared, and every command is completed
-- without an error. A command is safe exactly when the applet has a request that is not
-- complete, of at least its size, and the memory behind the slot lies in that request.
import S4Sim.Isp.Calls

open Runs

namespace S4Sim

namespace DataTransfer

/-- Every byte that moves lies in the request that was live. -/
def Inside (t : DataTransfer) : Prop :=
  ∀ w ∈ t.ws, ∀ i, i < w.len → ∃ r, t.live = some r ∧ r.ssd_addr ≤ w.ssd_addr + i ∧
    w.ssd_addr + i < r.ssd_addr + r.size

/-- There was a request for the command. -/
def HasRequest (t : DataTransfer) : Prop := ∃ r, t.live = some r ∧ t.size ≤ r.size

end DataTransfer

/-- A command stays inside the live request. Without a request it moves nothing and is
completed with an error. -/
def SafeAnswer (p : DataTransfer × IspCompletion) : Prop :=
  p.1.Inside ∧ (¬ p.1.HasRequest → (∀ w ∈ p.1.ws, w.len = 0) ∧ p.2.status ≠ 0)

namespace IspState

structure TransfersSafe (s : IspState) : Prop where
  moving : ∀ t ∈ s.moving, t.Inside
  answered : ∀ p ∈ s.answered, SafeAnswer p

/-! ## The memory that the turns cover -/

/-- `n` bytes from `a` lie in `[lo, hi)`. -/
def RangeInside (a n lo hi : Nat) : Prop := n = 0 ∨ (lo ≤ a ∧ a + n ≤ hi)

instance (a n lo hi : Nat) : Decidable (RangeInside a n lo hi) :=
  inferInstanceAs (Decidable (_ ∨ _))

/-- The turns go through the bytes from `a` on, one after the other. -/
theorem dmaWindows_inside_iff {ops : List DmaOp} {a n lo hi : Nat} :
    (∀ w ∈ dmaWindows ops a n, ∀ i, i < w.len → lo ≤ w.ssd_addr + i ∧ w.ssd_addr + i < hi) ↔
      RangeInside a (min (opsBytes ops) n) lo hi := by
  induction ops generalizing a n with
  | nil => simp [dmaWindows, opsBytes, RangeInside]
  | cons e ops ih =>
    have hbytes : opsBytes (e :: ops) = e.len + opsBytes ops := opsBytes_cons
    by_cases hn : n = 0
    · simp [dmaWindows, RangeInside, hn]
    · have hfirst : (∀ i, i < min e.len n → lo ≤ a + i ∧ a + i < hi) ↔
          RangeInside a (min e.len n) lo hi := by
        unfold RangeInside
        constructor
        · intro h
          by_cases hzero : min e.len n = 0
          · exact Or.inl hzero
          · have hlow := h 0 (by omega)
            have hhigh := h (min e.len n - 1) (by omega)
            right
            omega
        · intro h i hi
          omega
      rw [dmaWindows, if_neg hn]
      simp only [List.forall_mem_cons, hfirst, ih, hbytes]
      unfold RangeInside
      omega

/-! ## The command -/

/-- The applet has a request that is not complete, the command asks for no more, and the
bytes from the address in the slot lie in that request. -/
def SlotOk (c : Config) (s : IspState) (cmd : IspCommand) : Prop :=
  match s.active_dma_req, s.liveRequest, commandOps c.hostPageBits cmd
      cmd.scmd.scmdarg.cdw11.toNat with
  | some x, some r, some ops =>
    cmd.scmd.scmdarg.cdw11.toNat ≤ r.size ∧
      (((s.objs x).tx_type = ISP_APPLET_READ_DTX ∨ (s.objs x).tx_type = ISP_APPLET_WRITE_DTX) →
        RangeInside (s.objs x).ssd_addr (min (opsBytes ops) cmd.scmd.scmdarg.cdw11.toNat)
          r.ssd_addr (r.ssd_addr + r.size))
  | _, _, _ => False

/-- A data transfer command meets `SlotOk` when its request object is set up. -/
def TransferOk (c : Config) (s : IspState) : IspAction → Prop
  | .nvme (.isp_io 0x82 cmd obj) =>
    match s.nvme, s.sys_malloc_req_obj with
    | .free, some (req, s1) => SlotOk c (s1.writeObj req obj) cmd
    | _, _ => True
  | _ => True

variable {s s' t : IspState} {c : Config} {a : IspAction}

/-- What `data_transfer_command` starts, and that it is safe just when `SlotOk` holds. -/
theorem data_transfer_spec {req : Nat} {cmd : IspCommand}
    (h : s.data_transfer_command c req cmd = some s') :
    ∃ x transfer, s'.nvme = .transfer_wait req x cmd.ccmd_dw0 transfer ∧
      (SafeAnswer (transfer, ⟨req, cmd.ccmd_dw0, 0⟩) ↔ SlotOk c s cmd) := by
  obtain ⟨x, hactive, hrest⟩ := Option.bind_eq_some_iff.mp h
  obtain ⟨ws, hws, rfl⟩ := Option.map_eq_some_iff.mp hrest
  obtain ⟨ops, hops, rfl⟩ := Option.map_eq_some_iff.mp hws
  refine ⟨x, s.dataTransfer x cmd.scmd.scmdarg.cdw11.toNat _, rfl, ?_⟩
  unfold SafeAnswer SlotOk
  rw [hactive, hops]
  cases hlive : s.liveRequest with
  | none =>
    simp only [iff_false]
    rintro ⟨-, hrefused⟩
    refine (hrefused ?_).2 rfl
    rintro ⟨r, hr, -⟩
    simp only [dataTransfer, hlive] at hr
    cases hr
  | some r =>
    simp only
    have hrequest : (s.dataTransfer x cmd.scmd.scmdarg.cdw11.toNat
        (dmaWindows ops (s.objs x).ssd_addr cmd.scmd.scmdarg.cdw11.toNat)).HasRequest ↔
          cmd.scmd.scmdarg.cdw11.toNat ≤ r.size := by
      simp [DataTransfer.HasRequest, dataTransfer, hlive]
    rw [hrequest]
    have hinside : (s.dataTransfer x cmd.scmd.scmdarg.cdw11.toNat
        (dmaWindows ops (s.objs x).ssd_addr cmd.scmd.scmdarg.cdw11.toNat)).Inside ↔
          (((s.objs x).tx_type = ISP_APPLET_READ_DTX ∨
              (s.objs x).tx_type = ISP_APPLET_WRITE_DTX) →
            RangeInside (s.objs x).ssd_addr (min (opsBytes ops) cmd.scmd.scmdarg.cdw11.toNat)
              r.ssd_addr (r.ssd_addr + r.size)) := by
      rw [← dmaWindows_inside_iff]
      unfold DataTransfer.Inside dataTransfer
      simp only [hlive, Option.some.injEq, exists_eq_left']
      by_cases htype : (s.objs x).tx_type = ISP_APPLET_READ_DTX ∨
          (s.objs x).tx_type = ISP_APPLET_WRITE_DTX
      · simp [htype]
      · simp [htype]
    rw [hinside]
    constructor
    · rintro ⟨hin, hrefused⟩
      refine ⟨?_, hin⟩
      by_contra hsize
      exact (hrefused hsize).2 rfl
    · rintro ⟨hsize, hin⟩
      exact ⟨hin, fun hno => absurd hsize hno⟩

/-! ## Each step keeps the transfers safe -/

theorem TransfersSafe.still (h : s.TransfersSafe) (hanswered : s'.answered = s.answered)
    (hmoving : s'.moving = []) : s'.TransfersSafe := by
  refine ⟨?_, ?_⟩
  · rw [hmoving]
    exact nofun
  · rw [hanswered]
    exact h.answered

/-- The threads other than the NVMe thread do not touch transfers. -/
theorem TransfersSafe.other (h : s.TransfersSafe) (hanswered : s'.answered = s.answered)
    (hn : s'.nvme = s.nvme) : s'.TransfersSafe := by
  refine ⟨?_, ?_⟩
  · unfold IspState.moving
    rw [hn]
    exact h.moving
  · rw [hanswered]
    exact h.answered

/-- The command whose transfer is under way would be a safe answer. -/
def MovingSafe (s : IspState) : Prop :=
  match s.nvme with
  | .transfer_wait req _ ccmd_dw0 transfer => SafeAnswer (transfer, ⟨req, ccmd_dw0, 0⟩)
  | _ => True

theorem MovingSafe.of_still (h : s.moving = []) : s.MovingSafe := by
  unfold moving at h
  unfold MovingSafe
  split <;> rename_i hn
  · rw [hn] at h
    cases h
  · trivial

structure Transferring (s : IspState) : Prop where
  safe : s.TransfersSafe
  moving : s.MovingSafe

theorem Transferring.still (h : s.Transferring) (hanswered : s'.answered = s.answered)
    (hmoving : s'.moving = []) : s'.Transferring :=
  ⟨h.safe.still hanswered hmoving, .of_still hmoving⟩

theorem Transferring.other (h : s.Transferring) (hanswered : s'.answered = s.answered)
    (hn : s'.nvme = s.nvme) : s'.Transferring := by
  refine ⟨h.safe.other hanswered hn, ?_⟩
  have hmoving := h.moving
  unfold MovingSafe at hmoving ⊢
  rw [hn]
  exact hmoving

theorem Transferring.transfer {req : Nat} {cmd : IspCommand} (h : s.Transferring)
    (hok : SlotOk c t cmd) (hstep : t.data_transfer_command c req cmd = some s')
    (hanswered : s'.answered = s.answered) : s'.Transferring := by
  obtain ⟨x, transfer, hn, hsafe⟩ := data_transfer_spec hstep
  have hanswer := hsafe.mpr hok
  refine ⟨⟨?_, ?_⟩, ?_⟩
  · unfold IspState.moving
    rw [hn]
    intro u hu
    rw [List.mem_singleton.mp hu]
    exact hanswer.1
  · rw [hanswered]
    exact h.safe.answered
  · unfold MovingSafe
    rw [hn]
    exact hanswer

/-- The completion of the command, which has no error. -/
theorem Transferring.complete {req x ccmd_dw0 : Nat} {transfer : DataTransfer}
    (h : s.Transferring) (hn : s.nvme = .transfer_wait req x ccmd_dw0 transfer) :
    (s.transfer_wait req x ccmd_dw0 transfer).Transferring := by
  have hmoving := h.moving
  unfold MovingSafe at hmoving
  rw [hn] at hmoving
  refine ⟨⟨nofun, ?_⟩, trivial⟩
  intro p hp
  rcases List.mem_append.mp hp with hp | hp
  · exact h.safe.answered p hp
  · rw [List.mem_singleton.mp hp]
    exact hmoving

theorem Transferring.nvmeContinue (h : s.Transferring) (hstep : s.nvmeContinue c = some s') :
    s'.Transferring := by
  unfold IspState.nvmeContinue at hstep
  split at hstep <;> rename_i hn
  · cases hstep
    exact h
  · obtain ⟨t, hmove, rfl⟩ := execute_objects_move hstep
    have hanswered : t.answered = s.answered := by rw [hmove.rest]
    exact h.still hanswered rfl
  · unfold execute_arguments at hstep
    split at hstep
    · obtain ⟨ws, -, rfl⟩ := Option.map_eq_some_iff.mp hstep
      exact h.still rfl rfl
    · cases hstep
      exact h.still rfl rfl
  · unfold execute_transfer at hstep
    split at hstep <;> cases hstep
    exact h.still rfl rfl
  · cases hstep
    exact h.still rfl rfl
  · cases hstep
    exact h.still rfl rfl
  · cases hstep
    unfold control_pending
    split <;> exact h.still rfl rfl
  · obtain ⟨req, -, rfl⟩ := Option.map_eq_some_iff.mp hstep
    exact h.still rfl rfl
  · cases hstep
    exact h.complete hn
  · cases hstep
    exact h.still rfl rfl

theorem Transferring.take {task : NvmeTask} (h : s.Transferring) (hn : s.nvme = .free)
    (hok : TransferOk c s (.nvme task)) (hstep : s.take c task = some s') : s'.Transferring := by
  have hmoving : s.moving = [] := by simp [IspState.moving, hn]
  cases take_move hn hstep with
  | same _ hview _ hmoving' => exact h.still (slotView_eq hview).2.2 hmoving'
  | execute hn' hview =>
    exact h.still (slotView_eq hview).2.2 (by simp [IspState.moving, hn'])
  | transfer hmalloc htransfer hview _ =>
    simp only [TransferOk, hn, hmalloc] at hok
    exact h.transfer hok htransfer (slotView_eq hview).2.2
  | download => exact h.still rfl hmoving
  | activate =>
    apply h.other _ add_applet_view.2
    unfold add_applet
    simp only
    split <;> rfl

theorem Transferring.step (h : s.Transferring) (hok : TransferOk c s a)
    (hstep : ispStep c s a = some s') : s'.Transferring := by
  rcases ispStep_cases hstep with ⟨task, rfl, rfl | ⟨hn, htake⟩⟩ | ⟨rfl, hcontinue⟩ | hview
  · exact h
  · exact h.take hn hok htake
  · exact h.nvmeContinue hcontinue
  · obtain ⟨hn, -, hanswered⟩ := nvmeView_eq hview
    exact h.other hanswered hn

/-- Two steps of the NVMe thread take a command to its completion. -/
theorem answer_spec {cmd : IspCommand} {obj : HostDma} (hn : s.nvme = .free)
    (hrun : run (ispStep c) s [.nvme (.isp_io 0x82 cmd obj), .nvme_continue] = some t) :
    ∃ p, t.answered = s.answered ++ [p] ∧
      (SafeAnswer p ↔ TransferOk c s (.nvme (.isp_io 0x82 cmd obj))) := by
  simp only [run_cons, run_nil] at hrun
  obtain ⟨u, hfirst, hrest⟩ := Option.bind_eq_some_iff.mp hrun
  obtain ⟨v, hsecond, hv⟩ := Option.bind_eq_some_iff.mp hrest
  cases hv
  simp only [ispStep, hn] at hfirst
  cases take_move hn hfirst with
  | same hno => exact absurd rfl (hno cmd obj)
  | @transfer req _ _ _ _ hmalloc htransfer hview _ =>
    obtain ⟨x, transfer, hn', hsafe⟩ := data_transfer_spec htransfer
    simp only [ispStep, IspState.nvmeContinue, hn'] at hsecond
    cases hsecond
    refine ⟨(transfer, ⟨req, cmd.ccmd_dw0, 0⟩), ?_, ?_⟩
    · rw [← (slotView_eq hview).2.2]
      rfl
    · simp only [TransferOk, hn, hmalloc]
      exact hsafe

instance (c : Config) (s : IspState) (cmd : IspCommand) : Decidable (SlotOk c s cmd) := by
  unfold SlotOk
  split <;> infer_instance

theorem transferOk_iff {opcode : Nat} {cmd : IspCommand} {obj : HostDma} :
    (s.nvme.isFree = true → opcode = 0x82 →
      ∀ p ∈ s.sys_malloc_req_obj, SlotOk c (p.2.writeObj p.1 obj) cmd) ↔
      TransferOk c s (.nvme (.isp_io opcode cmd obj)) := by
  unfold TransferOk
  by_cases hopcode : opcode = 0x82
  · cases s.nvme <;> cases s.sys_malloc_req_obj <;> simp [NvmePc.isFree, hopcode]
  · simp [hopcode]

instance (c : Config) (s : IspState) : (a : IspAction) → Decidable (TransferOk c s a)
  | .nvme (.isp_io _ _ _) => decidable_of_iff _ transferOk_iff
  | .nvme .msg_out | .nvme .recycle | .nvme (.fw_download ..) | .nvme .fw_activate
  | .nvme (.other_malloc _) | .nvme (.other_write ..) | .nvme (.other_free _) | .nvme_continue
  | .applet | .call _ | .host_dma .. | .nand_op _ | .return_function | .ftl =>
    inferInstanceAs (Decidable True)

end IspState

open IspState

/-- In every run a command is answered safely exactly when `SlotOk` holds for it, and in
every run whose commands all meet it the transfers are safe. -/
theorem transfers_are_safe_exactly_when_the_slot_lies_in_a_live_request {c : Config}
    {objs : Nat → HostDma} {arg_buffer code : Nat → UInt8} {acts : List IspAction} {s : IspState}
    (hrun : run (ispStep c) (initialIsp objs arg_buffer code) acts = some s) :
    (AllSteps (ispStep c) (TransferOk c) (initialIsp objs arg_buffer code) acts →
      s.TransfersSafe) ∧
    ∀ cmd obj t, s.nvme = .free →
      run (ispStep c) s [.nvme (.isp_io 0x82 cmd obj), .nvme_continue] = some t →
      ∃ p, t.answered = s.answered ++ [p] ∧
        (SafeAnswer p ↔ TransferOk c s (.nvme (.isp_io 0x82 cmd obj))) := by
  refine ⟨?_, fun cmd obj t hn ht => answer_spec hn ht⟩
  intro hok
  have hinv := run_invariant_of_ok (I := fun _ s => s.Transferring) ⟨⟨nofun, nofun⟩, trivial⟩
    (fun _ t a u _ ht ha hstep => ht.step ha hstep) hok hrun
  exact hinv.safe

/-- A request of 16 bytes, announced, and its transfer. -/
def transferOnce (size : UInt32) : List IspAction :=
  runExecute 1 0 ⟨0, 0, 0, 0, 0, 0⟩ ++ startFunction ++ askHost 8192 16 ++ [.nvme .msg_out] ++
    runControl ++ runTransfer size

theorem a_transfer_of_the_size_of_its_request_is_safe :
    ∃ s, run (ispStep smallDevice) zeroIsp (transferOnce 16) = some s ∧
      s.answered.length = 1 ∧ s.TransfersSafe := by
  have hrun : (run (ispStep smallDevice) zeroIsp (transferOnce 16)).map
      (fun s => s.answered.length) = some 1 := by
    decide +kernel
  obtain ⟨s, hs, hlength⟩ := Option.map_eq_some_iff.mp hrun
  exact ⟨s, hs, hlength,
    (transfers_are_safe_exactly_when_the_slot_lies_in_a_live_request hs).1 (by decide +kernel)⟩

/-- A command of a whole page goes past the 16 bytes of the request, with status 0. -/
theorem a_larger_transfer_leaves_its_request :
    ∃ s, run (ispStep smallDevice) zeroIsp (transferOnce 4096) = some s ∧ ¬ s.TransfersSafe := by
  have hrun : (run (ispStep smallDevice) zeroIsp (transferOnce 4096)).map
      (fun s => s.answered.map fun p => (p.1.live.map HostDma.size, p.1.size, p.2.status)) =
        some [(some 16, 4096, 0)] := by
    decide +kernel
  obtain ⟨s, hs, hanswered⟩ := Option.map_eq_some_iff.mp hrun
  refine ⟨s, hs, ?_⟩
  intro hsafe
  obtain ⟨p, hp, he⟩ : ∃ p ∈ s.answered,
      (p.1.live.map HostDma.size, p.1.size, p.2.status) = (some 16, 4096, 0) := by
    apply List.mem_map.mp
    rw [hanswered]
    exact List.mem_singleton_self _
  simp only [Prod.mk.injEq] at he
  obtain ⟨hlive, hsize, hstatus⟩ := he
  refine ((hsafe.answered p hp).2 ?_).2 hstatus
  rintro ⟨r, hr, hle⟩
  rw [hr, Option.map_some, Option.some.injEq] at hlive
  omega

end S4Sim
