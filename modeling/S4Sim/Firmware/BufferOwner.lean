-- The one page buffer of the build with a single write back cache. A READ has it from
-- `get_read_io_buffer` to `free_read_io_buffer`, a WRITE from `get_write_io_buffer` to the
-- `free_wbc_buffer` after its write-back, when its request object is long recycled.
import S4Sim.Firmware.FlushDurability

open Runs

namespace S4Sim

/-! ## Who has the buffer -/

/-- What has the page buffer: a READ, a WRITE whose data comes in, or the write back cache
in the FTL, for the WRITE that queued it. -/
inductive Holder
  | read (req : Req)
  | write (req : Req)
  | writeBack

/-- A job that is with the FTL between `get_read_io_buffer` and `completed_req_cbk`, or between
`flush_all_wbc` and `free_wbc_buffer`. -/
def FtlJob.holder : FtlJob → Option Holder
  | .read req => some (.read req)
  | .flush => some .writeBack
  | .isp .. => none

/-- `sync_read_io_dma` is before `free_read_io_buffer`, and `sync_write_io_dma` is before
`free_write_io_buffer`. -/
def Task.holder : Task → Option Holder
  | .read_dma req => some (.read req)
  | .write_dma req => some (.write req)
  | _ => none

/-- All places of the firmware that come between a get and a free of the buffer. -/
def holders (s : State) : List Holder :=
  s.todo.filterMap Task.holder ++ s.ftl.jobs.filterMap FtlJob.holder

/-- The WRITE that called `free_write_io_buffer` last: the write back cache is queued for it. -/
def queuedFor (s : State) (writer : Option Req) : Action → Option Req
  | .nvme _ =>
    match s.todo, s.dma with
    | .write_dma req :: _, none => some req
    | _, _ => writer
  | _ => writer

/-- The function gives the same outcome for all contents of the page buffer, and leaves it. -/
def Blind (f : State → Option State) : Prop :=
  ∀ s page_buffer, f (s.setPageBuffer page_buffer) =
    (f s).map fun s' => s'.setPageBuffer page_buffer

variable (c : Config)

/-- A step of the firmware, with the WRITE of the write-back beside it. -/
def ownedStep (x : State × Option Req) (a : Action) : Option (State × Option Req) :=
  (fwStep c x.1 a).map fun s => (s, queuedFor x.1 x.2 a)

/-! ## The property -/

/-- The step gives the same outcome for all contents of the page buffer, and leaves it. -/
def LeavesBuffer (s : State) (a : Action) : Prop :=
  ∀ page_buffer, fwStep c (s.setPageBuffer page_buffer) a =
    (fwStep c s a).map fun s' => s'.setPageBuffer page_buffer

/-- The step is one of the host DMA or of the flash job of the holder. -/
def ActsFor (s : State) : Action → Holder → Prop
  | .dma _, .read req => ∃ job, s.dma = some job ∧ job.req = req ∧ job.toHost = true
  | .dma _, .write req => ∃ job, s.dma = some job ∧ job.req = req ∧ job.toHost = false
  | .ftl .., holder => ∃ job ∈ s.ftl.pc.job, job.holder = some holder
  | _, _ => False

def FtlJob.isFlush : FtlJob → Bool
  | .flush => true
  | _ => false

/-- The valid pages of the cache are the first `num_program_pgs`, one for each LBA of the
WRITE. An LPN has 32 bits. -/
structure HasPagesOf (wbc : Wbc) (req : Req) : Prop where
  count : wbc.num_program_pgs = req.scmd.nlbs + 1
  valid : ∀ i, (wbc.pages i).valid = true ↔ i < wbc.num_program_pgs
  lpn : ∀ i < wbc.num_program_pgs, (wbc.pages i).lpn = req.lpn i
  ssd_addr : ∀ i < wbc.num_program_pgs, (wbc.pages i).ssd_addr = i * c.pageBytes

/-- The page buffer has one owner while it is in use, and the threads touch it for the owner. -/
structure BufferOwned (s : State) (writer : Option Req) : Prop where
  inuse : s.buf.page_buffer_inuse = true ↔ (holders s).length = 1
  free : s.buf.page_buffer_inuse = false → holders s = []
  touched : ∀ a, LeavesBuffer c s a ∨ ∃ holder, holders s = [holder] ∧ ActsFor s a holder
  once : s.ftl.jobs.countP FtlJob.isFlush ≤ 1
  pages : .flush ∈ s.ftl.jobs → ∃ req, writer = some req ∧ HasPagesOf c s.buf.wbc req

/-! ## The invariant -/

/-- The holder at each stage. -/
def Stage.holders : Stage → List Holder
  | .receiving req => [.write req]
  | .programming _ => [.writeBack]
  | .loading req | .sending req => [.read req]
  | _ => []

/-- The pages of the write back cache at each stage. -/
def WbcAt (wbc : Wbc) : Stage → Prop
  | .receiving req | .programming req => CachedWrite c req wbc
  | _ => ∀ i, (wbc.pages i).valid = false

/-- The flash operations of an applet have its own buffer. -/
def AppletOps (pc : FtlPc) : Prop :=
  ∀ job ∈ pc.job, job.isRw = false → ∀ op ∈ pc.ops, op.ssd_addr = none

/-- The firmware is at a stage, and the cache and the writer are those of the stage. -/
structure OwnedAt (x : State × Option Req) (st : Stage) : Prop where
  stage : At x.1 st
  ops : AppletOps x.1.ftl.pc
  wbc : WbcAt c x.1.buf.wbc st
  writer : ∀ req, st = .programming req → x.2 = some req

section Moves

variable {c} {env : Env} {s s' : State} {st st' : Stage} {b : Books} {req : Req}
  {writer : Option Req}

theorem NvmeMove.wbc (hmove : NvmeMove c env s st st' b) (h : WbcAt c s.buf.wbc st) :
    WbcAt c b.wbc st' := by
  cases hmove with
  | write hf hask hop => exact cachedWrite_wbcPages hask h
  | programmed hout => exact fun _ => rfl
  | _ => exact h

theorem NvmeMove.pc (hmove : NvmeMove c env s st st' b) : b.ftl.pc = s.ftl.pc := by
  cases hmove <;> rfl

/-! ## The flash operations of an applet -/

theorem appletOps_rw {pc : FtlPc} {job : FtlJob} (hjob : pc.job = [job]) (hrw : job.isRw = true) :
    AppletOps pc := by
  intro job' hmem hnot
  rw [hjob, List.mem_singleton] at hmem
  rw [hmem, hrw] at hnot
  cases hnot

theorem appletOps_of {pc : FtlPc} (h : ∀ op ∈ pc.ops, op.ssd_addr = none) : AppletOps pc :=
  fun _ _ _ => h

/-- Another page of the operation of an applet. -/
theorem addrs_snoc {ops : List NandOp} {op : NandOp} (h : ∀ op ∈ ops, op.ssd_addr = none)
    (hop : op.ssd_addr = none) : ∀ op' ∈ ops ++ [op], op'.ssd_addr = none := by
  intro op' hmem
  rcases List.mem_append.mp hmem with hmem | hmem
  · exact h op' hmem
  · rw [List.mem_singleton.mp hmem]
    exact hop

theorem AppletOps.ftl_step {pick : Nat} {applet : Nat → UInt8} (h : AppletOps s.ftl.pc)
    (hs : ftlThreadStep c pick applet s = some s') : AppletOps s'.ftl.pc := by
  unfold ftlThreadStep at hs
  split at hs
  · split at hs
    · cases hs
      exact h
    · cases hs
      exact appletOps_of nofun
  · unfold ftl_process_read_io at hs
    simp only at hs
    split at hs
    · split at hs
      · split at hs <;> (cases hs; exact appletOps_rw rfl rfl)
      · cases hs
    · cases hs
      exact appletOps_rw rfl rfl
  · unfold process_wbc mapPage at hs
    simp only at hs
    split at hs
    · split at hs
      · split at hs
        · split at hs
          · cases hs
            exact h
          · cases hs
            exact appletOps_rw rfl rfl
        · cases hs
      · cases hs
        exact appletOps_rw rfl rfl
    · cases hs
      exact appletOps_rw rfl rfl
  · rename_i program start_lpn num_of_lpn i ops hpc
    rw [hpc] at h
    have hops : ∀ op ∈ ops, op.ssd_addr = none := h _ (List.mem_singleton_self _) rfl
    unfold sync_isp_pages mapPage at hs
    simp only at hs
    split at hs
    · split at hs
      · split at hs
        · split at hs
          · cases hs
            rw [hpc]
            exact h
          · cases hs
            exact appletOps_of (addrs_snoc hops rfl)
        · cases hs
      · split at hs
        · split at hs
          · cases hs
            exact appletOps_of hops
          · cases hs
            exact appletOps_of (addrs_snoc hops rfl)
        · cases hs
    · cases hs
      exact appletOps_of hops
  · rename_i job hpc
    cases hs
    cases job <;> exact appletOps_of nofun
  · rename_i job op ops hpc
    cases hs
    rw [hpc] at h
    intro job' hjob hnot op' hmem
    exact h job' hjob hnot op' (List.mem_of_mem_eraseIdx hmem)

end Moves

/-! ## The NVMe thread -/

section Blind

variable {c : Config} {env : Env} {s : State} {b : Nat → UInt8} {req : Req}

theorem blind_enqueue_io {q : Nat} : Blind fun s => s.enqueue_io_ccmd q req := by
  intro s b
  simp only [State.enqueue_io_ccmd, Option.map_map]
  rfl

/-- A blind function and then one that changes other fields. -/
theorem Blind.map {f : State → Option State} {g : State → State} (h : Blind f)
    (hg : ∀ s b, g (s.setPageBuffer b) = (g s).setPageBuffer b) : Blind fun s => (f s).map g := by
  intro s b
  simp only [h s b, Option.map_map]
  congr 1
  funext s'
  exact hg s' b

/-- The loops over the requests that wait. -/
theorem read_ios_setPageBuffer {l : List Req} (s : State) (b : Nat → UInt8) :
    read_ios_step_2 l (s.setPageBuffer b) = (read_ios_step_2 l s).setPageBuffer b := by
  induction l generalizing s with
  | nil => rfl
  | cons req l ih =>
    unfold read_ios_step_2
    have hsame : (s.setPageBuffer b).buf.page_buffer_inuse = s.buf.page_buffer_inuse := rfl
    rw [hsame]
    split
    · rfl
    · exact ih (s.get_read_io_buffer.sys_push_to_ftl (.read req))

theorem write_ios_setPageBuffer (s : State) (b : Nat → UInt8) :
    process_write_ios_step_2 c (s.setPageBuffer b) =
      (process_write_ios_step_2 c s).setPageBuffer b := by
  have hq : (s.setPageBuffer b).buf.w_buf_q = s.buf.w_buf_q := rfl
  have hinuse : (s.setPageBuffer b).buf.page_buffer_inuse = s.buf.page_buffer_inuse := rfl
  unfold process_write_ios_step_2
  rw [hq, hinuse]
  cases s.buf.w_buf_q with
  | nil => rfl
  | cons req rest =>
    simp only
    split <;> rfl

theorem blind_process_read_io : Blind (process_read_io c env req) := by
  intro s b
  unfold process_read_io
  simp only
  split
  · rw [Option.map_map]
    congr 1
    funext req
    exact read_ios_setPageBuffer
      { s with buf := { s.buf with r_buf_q := s.buf.r_buf_q ++ [req] } } b
  · exact blind_enqueue_io s b

theorem blind_process_write_io : Blind (process_write_io c env req) := by
  intro s b
  unfold process_write_io
  simp only
  split
  · rw [Option.map_map]
    congr 1
    funext req
    exact write_ios_setPageBuffer
      { s with buf := { s.buf with w_buf_q := s.buf.w_buf_q ++ [req] } } b
  · exact blind_enqueue_io s b

theorem blind_process_flush_io : Blind (process_flush_io env req) :=
  blind_enqueue_io.map fun _ _ => rfl

theorem blind_post_dma_msg {dma_req : IspDma} : Blind (post_dma_msg dma_req req) := by
  intro s b
  exact blind_enqueue_io { s with isp := { s.isp with active_dma_req := some dma_req } } b

@[simp] theorem setPageBuffer_isp : (s.setPageBuffer b).isp = s.isp := rfl

@[simp] theorem setPageBuffer_dma : (s.setPageBuffer b).dma = s.dma := rfl

theorem blind_control_command : Blind (control_command req) := by
  intro s b
  unfold control_command
  rw [setPageBuffer_isp]
  split
  · exact blind_enqueue_io s b
  · cases hpend : s.isp.pending_dma with
    | nil => rfl
    | cons dma_req rest =>
      exact blind_post_dma_msg { s with isp := { s.isp with pending_dma := rest } } b

theorem blind_recycle : Blind recycle_control_command := by
  intro s b
  unfold recycle_control_command
  rw [setPageBuffer_isp]
  cases s.isp.ctrl_cmd_req with
  | none => rfl
  | some req =>
    simp only
    cases hpend : s.isp.pending_dma with
    | nil =>
      simp only
      split
      · exact blind_enqueue_io
          { s with isp := { s.isp with ctrl_cmd_req := none, pending_dma := [] } } b
      · exact blind_enqueue_io
          { s with isp := { s.isp with ctrl_cmd_req := none, pending_dma := [] } } b
    | cons dma_req rest =>
      exact blind_post_dma_msg
        { s with isp := { s.isp with ctrl_cmd_req := none, pending_dma := rest } } b

theorem blind_execute_command : Blind (execute_command c env req) := by
  intro s b
  unfold execute_command
  simp only
  generalize (if env.scmd.agument_size > 24 then ispDma c env env.scmd.agument_size req
    else some req) = request
  cases request with
  | none => rfl
  | some req =>
    exact blind_enqueue_io
      { s with isp := { s.isp with function_exited := false, ctrl_cmd_req := none } } b

theorem blind_data_transfer_command : Blind (data_transfer_command c env req) := by
  intro s b
  unfold data_transfer_command
  rw [setPageBuffer_isp]
  cases s.isp.active_dma_req with
  | none => rfl
  | some dma_req =>
    cases ispDma c env env.scmd.cdw11.toNat req with
    | none => rfl
    | some req => exact blind_enqueue_io s b

theorem blind_process_isp_io : Blind (process_isp_io c env req) := by
  unfold process_isp_io
  refine Blind.map ?_ fun _ _ => rfl
  split
  · exact blind_execute_command
  · exact blind_control_command
  · exact blind_data_transfer_command

theorem blind_msg_cbk (msg : IspMsg) : Blind fun s => msg_cbk s msg := by
  intro s b
  cases msg with
  | host_dma dma_req =>
    simp only [msg_cbk]
    rw [setPageBuffer_isp]
    cases s.isp.ctrl_cmd_req with
    | none => rfl
    | some req =>
      exact blind_post_dma_msg { s with isp := { s.isp with ctrl_cmd_req := none } } b
  | nand_op program start_lpn num_of_lpn => rfl
  | execution_exit =>
    simp only [msg_cbk]
    rw [setPageBuffer_isp]
    cases s.isp.ctrl_cmd_req with
    | none => rfl
    | some req => exact blind_enqueue_io { s with isp := { s.isp with ctrl_cmd_req := none } } b

theorem blind_process_io_cmd {sqid : Nat} : Blind (process_io_cmd c env sqid) := by
  intro s b
  unfold process_io_cmd
  have hdriver : (s.setPageBuffer b).driver = s.driver := rfl
  simp only [hdriver]
  generalize env.obj.bind (ioRequest s.driver sqid) = request
  cases s.driver.read_scmd sqid env.scmd env.mem with
  | none => rfl
  | some driver =>
    simp only [Option.bind_some]
    cases request with
    | none => split <;> rfl
    | some req =>
      split
      · exact blind_process_read_io { s with driver } b
      · exact blind_process_write_io { s with driver } b
      · exact blind_process_flush_io { s with driver } b
      · exact blind_process_isp_io { s with driver } b
      · exact blind_process_isp_io { s with driver } b
      · exact blind_process_isp_io { s with driver } b
      · rfl

theorem blind_idle_poll : Blind (idle_poll c env) := by
  intro s b
  unfold idle_poll
  have hidle : (s.setPageBuffer b).idleTimeCounter = s.idleTimeCounter := rfl
  simp only
  rw [hidle]
  split
  · rw [Option.map_map]
    congr 1
    funext driver
    simp only [Function.comp_apply]
    split
    · simp only [State.setPageBuffer, State.sys_add_callback_ftn]
      cases store_mapping_tables c.g s.ftl.ftl with
      | none => rfl
      | some ftl => rfl
    · rfl
  · rfl

theorem blind_check_door_bell : Blind (check_door_bell c env) := by
  intro s b
  unfold check_door_bell
  have hdriver : (s.setPageBuffer b).driver = s.driver := rfl
  rw [hdriver]
  split
  · cases s.driver.sq_door_bell env.Qindex env.db_value with
    | none => rfl
    | some driver =>
      simp only [Option.bind_some]
      split
      · exact blind_process_io_cmd { s with driver } b
      · rw [Option.map_map]
        rfl
  · split
    · rw [Option.map_map]
      rfl
    · exact blind_idle_poll s b

theorem blind_runTask (task : Task) : Blind fun s => runTask c env s task := by
  intro s b
  cases task with
  | callback =>
    simp only [runTask]
    have hcb : (s.setPageBuffer b).callbacks = s.callbacks := rfl
    rw [hcb]
    cases s.callbacks with
    | nil => rfl
    | cons f rest =>
      cases f with
      | check_door_bell => exact blind_check_door_bell { s with callbacks := rest } b
      | recycle_control_command => exact blind_recycle { s with callbacks := rest } b
  | msg_out =>
    simp only [runTask]
    rw [setPageBuffer_isp]
    cases s.isp.msg_out_q with
    | nil => rfl
    | cons msg rest =>
      exact blind_msg_cbk msg { s with isp := { s.isp with msg_out_q := rest } } b
  | ftl_out =>
    simp only [runTask]
    have hftl : (s.setPageBuffer b).ftl = s.ftl := rfl
    rw [hftl]
    cases s.ftl.outq with
    | nil => rfl
    | cons job rest => cases job <;> rfl
  | read_ios_step_2 => exact congrArg some (read_ios_setPageBuffer s b)
  | write_ios_step_2 => exact congrArg some (write_ios_setPageBuffer s b)
  | read_dma req =>
    simp only [runTask]
    rw [setPageBuffer_dma]
    split
    · rfl
    · exact blind_enqueue_io s.free_read_io_buffer b
  | write_dma req =>
    simp only [runTask]
    rw [setPageBuffer_dma]
    split
    · rfl
    · exact blind_enqueue_io
        { s.free_write_io_buffer with todo := .write_ios_step_2 :: s.todo } b
  | add_check_door_bell => rfl

theorem blind_nvmeStep : Blind (nvmeStep c env) := by
  intro s b
  unfold nvmeStep
  have htodo : (s.setPageBuffer b).todo = s.todo := rfl
  rw [htodo]
  cases s.todo with
  | nil => rfl
  | cons task rest => exact blind_runTask task { s with todo := rest } b

end Blind

/-! ## The FTL thread -/

section Threads

variable {c : Config} {s s' : State} {st : Stage} {pick : Nat} {applet : Nat → UInt8}
  {x y : State × Option Req} {a : Action}

theorem leavesBuffer_mapPage {lpn : Nat} {next : Ppa → FtlPc} (s : State) (b : Nat → UInt8) :
    mapPage c (s.setPageBuffer b) lpn next =
      (mapPage c s lpn next).map fun s' => s'.setPageBuffer b := by
  unfold mapPage
  have hftl : (s.setPageBuffer b).ftl = s.ftl := rfl
  rw [hftl]
  split
  · cases make_new_mapping c.g s.ftl.ftl lpn with
    | none => rfl
    | some r => rfl
  · rfl

/-- A flash job of an applet leaves the buffer. -/
theorem leavesBuffer_ftl (hops : AppletOps s.ftl.pc)
    (hisp : ∀ job ∈ s.ftl.pc.job, job.isRw = false) : LeavesBuffer c s (.ftl pick applet) := by
  intro b
  simp only [fwStep, ftlThreadStep]
  have hftl : (s.setPageBuffer b).ftl = s.ftl := rfl
  rw [hftl]
  cases hpc : s.ftl.pc with
  | idle =>
    cases s.ftl.inq with
    | nil => rfl
    | cons job rest => rfl
  | looping job i ops =>
    rw [hpc] at hisp
    have hjob := hisp job (List.mem_singleton_self _)
    cases job with
    | read req => cases hjob
    | flush => cases hjob
    | isp program start_lpn num_of_lpn =>
      simp only
      unfold sync_isp_pages
      simp only
      rw [hftl]
      split
      · split
        · exact leavesBuffer_mapPage s b
        · split
          · split <;> rfl
          · rfl
      · rfl
  | waiting job ops =>
    rw [hpc] at hisp hops
    have hjob := hisp job (List.mem_singleton_self _)
    have haddr := hops job (List.mem_singleton_self _) hjob
    cases ops with
    | nil =>
      cases job with
      | read req => cases hjob
      | flush => cases hjob
      | isp program start_lpn num_of_lpn => rfl
    | cons op ops =>
      have hk : pick % (op :: ops).length < (op :: ops).length := Nat.mod_lt _ (by simp)
      have hnone := haddr _ (List.getElem_mem hk)
      simp only
      rw [List.getD_eq_getElem _ _ hk]
      generalize (op :: ops)[pick % (op :: ops).length] = op' at hnone
      unfold nandOp
      rw [hnone]
      split <;> rfl

/-! ## The holders -/

theorem rounds_holders {todo : List Task} (h : todo ∈ rounds) :
    todo.filterMap Task.holder = [] := by
  simp only [rounds, List.mem_cons, List.not_mem_nil, or_false] at h
  rcases h with rfl | rfl | rfl | rfl <;> rfl

theorem Control.holders {callbacks : List Callback} {todo : List Task} {ctrl : Option Req}
    (h : Control st callbacks todo ctrl) :
    todo.filterMap Task.holder ++ st.jobs.filterMap FtlJob.holder = st.holders := by
  cases h with
  | polling h => rw [rounds_holders h]; rfl
  | recycling h => rw [rounds_holders h]; rfl
  | receiving => rfl
  | received => rfl
  | programming h => rw [rounds_holders h]; rfl
  | loading h => rw [rounds_holders h]; rfl
  | sending => rfl
  | resuming h =>
    simp only [resumptions, List.mem_cons, List.not_mem_nil, or_false] at h
    rcases h with rfl | rfl | rfl | rfl | rfl <;> rfl
  | stopped h => rw [rounds_holders h]; rfl

/-- The jobs of applets hold nothing. -/
theorem filterMap_rwJobs (t : FtlThread) :
    t.rwJobs.filterMap FtlJob.holder = t.jobs.filterMap FtlJob.holder := by
  rw [FtlThread.rwJobs, List.filterMap_filter]
  refine List.filterMap_congr fun job _ => ?_
  cases job <;> rfl

/-- The places between a get and a free are those of the stage. -/
theorem At.holders (hat : At s st) : holders s = st.holders := by
  rw [S4Sim.holders, ← filterMap_rwJobs, hat.jobs]
  exact hat.control.holders

theorem Stage.holders_of_mem {holder : Holder} (h : holder ∈ st.holders) :
    st.holders = [holder] := by
  cases st with
  | receiving req => rw [List.mem_singleton.mp h]; rfl
  | programming req => rw [List.mem_singleton.mp h]; rfl
  | loading req => rw [List.mem_singleton.mp h]; rfl
  | sending req => rw [List.mem_singleton.mp h]; rfl
  | polling => cases h
  | resuming => cases h
  | stopped => cases h

/-- A step of the host DMA or of the flash jobs leaves the buffer, or is one of the holder. -/
theorem At.touched (hat : At s st) (hops : AppletOps s.ftl.pc) (a : Action) :
    LeavesBuffer c s a ∨ ∃ holder, S4Sim.holders s = [holder] ∧ ActsFor s a holder := by
  rw [hat.holders]
  cases a with
  | nvme env => exact Or.inl fun b => blind_nvmeStep s b
  | dma mem =>
    cases hdma : s.dma with
    | none =>
      left
      intro b
      simp only [fwStep, dmaThreadStep, setPageBuffer_dma, hdma]
      rfl
    | some job =>
      right
      have htransfer := hat.dma job hdma
      cases st with
      | receiving req =>
        obtain ⟨hreq, hdir⟩ := Prod.mk.inj (Option.some.inj htransfer)
        exact ⟨.write req, rfl, job, hdma, hreq.symm, hdir.symm⟩
      | sending req =>
        obtain ⟨hreq, hdir⟩ := Prod.mk.inj (Option.some.inj htransfer)
        exact ⟨.read req, rfl, job, hdma, hreq.symm, hdir.symm⟩
      | polling => cases htransfer
      | programming req => cases htransfer
      | loading req => cases htransfer
      | resuming => cases htransfer
      | stopped => cases htransfer
  | ftl pick applet =>
    by_cases hisp : ∀ job ∈ s.ftl.pc.job, job.isRw = false
    · exact Or.inl (leavesBuffer_ftl hops hisp)
    · right
      push Not at hisp
      obtain ⟨job, hjob, hrw⟩ := hisp
      obtain ⟨holder, hholder⟩ : ∃ holder, job.holder = some holder := by
        cases job with
        | read req => exact ⟨_, rfl⟩
        | flush => exact ⟨_, rfl⟩
        | isp => exact absurd rfl hrw
      have hmem : holder ∈ st.holders := by
        rw [← hat.holders, S4Sim.holders]
        refine List.mem_append_right _ (List.mem_filterMap.mpr ⟨job, ?_, hholder⟩)
        simp [FtlThread.jobs, hjob]
      exact ⟨holder, Stage.holders_of_mem hmem, job, hjob, hholder⟩
  | isp_exit => exact Or.inl fun _ => rfl
  | isp_host_dma dma_req => exact Or.inl fun _ => rfl
  | isp_nand_op program start_lpn num_of_lpn => exact Or.inl fun _ => rfl
  | isp_function_exited => exact Or.inl fun _ => rfl
  | isp_pending_dma dma_req => exact Or.inl fun _ => rfl
  | isp_msg_out msg => exact Or.inl fun _ => rfl

/-! ## One step -/

/-- Only the end of the transfer of a WRITE changes the writer. -/
theorem queuedFor_of_ne (env : Env) (writer : Option Req) (hat : At s st)
    (hst : ∀ req, st ≠ .receiving req) : queuedFor s writer (.nvme env) = writer := by
  simp only [queuedFor]
  split
  · rename_i req rest htodo hdma
    exact absurd (htodo ▸ hat.control).write_dma.1 (hst req)
  · rfl

theorem OwnedAt.nvme {env : Env} (h : OwnedAt c x st) (hs : nvmeStep c env x.1 = some s') :
    ∃ st', OwnedAt c (s', queuedFor x.1 x.2 (.nvme env)) st' := by
  obtain ⟨st', hat', hmove⟩ := nvmeStep_move h.stage hs
  have hpc : s'.ftl.pc = x.1.ftl.pc := hmove.pc
  refine ⟨st', hat', ?_, hmove.wbc h.wbc, fun req hreq => ?_⟩
  · rw [hpc]
    exact h.ops
  · subst hreq
    generalize s'.books = b at hmove
    cases hmove with
    | quiet => exact (queuedFor_of_ne env _ h.stage nofun).trans (h.writer req rfl)
    | isp_job => exact (queuedFor_of_ne env _ h.stage nofun).trans (h.writer req rfl)
    | received hdma hto =>
      have htodo := receiving_todo h.stage
      simp only [queuedFor, htodo, hdma]

theorem OwnedAt.step (h : OwnedAt c x st) (hs : ownedStep c x a = some y) :
    ∃ st', OwnedAt c y st' := by
  obtain ⟨s', hs', rfl⟩ := Option.map_eq_some_iff.mp hs
  obtain ⟨hat, hops, hwbc, hwriter⟩ := h
  have hisp (isp : Isp) (hctrl : isp.ctrl_cmd_req = x.1.isp.ctrl_cmd_req) :
      OwnedAt c ({ x.1 with isp }, x.2) st := by
    refine ⟨⟨?_, hat.2, hat.3, hat.4, hat.5, hat.6, hat.7⟩, hops, hwbc, hwriter⟩
    simp only [hctrl]
    exact hat.control
  cases a with
  | nvme env => exact OwnedAt.nvme ⟨hat, hops, hwbc, hwriter⟩ hs'
  | dma mem =>
    obtain rfl : dmaThreadStep mem x.1 = s' := Option.some.inj hs'
    refine ⟨st, dmaThreadStep_at hat, ?_, ?_, hwriter⟩
    · unfold dmaThreadStep
      split
      · exact hops
      · simp only
        split <;> exact hops
    · unfold dmaThreadStep
      split
      · exact hwbc
      · simp only
        split <;> exact hwbc
  | ftl pick applet =>
    have hs' : ftlThreadStep c pick applet x.1 = some s' := hs'
    have hframe := ftlThreadStep_frame hs'
    refine ⟨st, hframe.at hat, hops.ftl_step hs', ?_, hwriter⟩
    simp only
    rw [hframe.state]
    exact hwbc
  | isp_exit =>
    cases hs'
    exact ⟨st, hisp _ rfl⟩
  | isp_host_dma dma_req =>
    cases hs'
    exact ⟨st, hisp _ rfl⟩
  | isp_nand_op program start_lpn num_of_lpn =>
    cases hs'
    exact ⟨st, hisp _ rfl⟩
  | isp_function_exited =>
    cases hs'
    exact ⟨st, hisp _ rfl⟩
  | isp_pending_dma dma_req =>
    cases hs'
    exact ⟨st, hisp _ rfl⟩
  | isp_msg_out msg =>
    cases hs'
    exact ⟨st, hisp _ rfl⟩

theorem ownedAt_initialState (c : Config) (asqs acqs asq acq : Nat)
    (flash : Ppa → Nat → UInt8) :
    OwnedAt c (initialState c asqs acqs asq acq flash, none) .polling := by
  refine ⟨at_initialState c asqs acqs asq acq flash, ?_, fun _ => rfl, nofun⟩
  intro job hjob
  cases hjob

/-! ## The law -/

theorem hasPagesOf_cachedWrite {wbc : Wbc} {req : Req} (h : CachedWrite c req wbc) :
    HasPagesOf c wbc req := by
  have hcount := h.count
  refine ⟨hcount, fun i => ?_, fun i hi => ?_, fun i hi => ?_⟩
  · by_cases hi : i ≤ req.scmd.nlbs
    · rw [h.filled i hi]
      simp only [true_iff]
      omega
    · rw [h.rest i (by omega)]
      simp only [Bool.false_eq_true, false_iff]
      omega
  · rw [h.filled i (by omega)]
  · rw [h.filled i (by omega)]

theorem OwnedAt.owned (h : OwnedAt c x st) : BufferOwned c x.1 x.2 := by
  obtain ⟨hat, hops, hwbc, hwriter⟩ := h
  have hjobs : ∀ job, job.isRw = true → (job ∈ x.1.ftl.jobs ↔ job ∈ st.jobs) := by
    intro job hrw
    rw [← hat.jobs, FtlThread.rwJobs, List.mem_filter, hrw]
    simp
  have hcount : x.1.ftl.jobs.countP FtlJob.isFlush = st.jobs.countP FtlJob.isFlush := by
    rw [← hat.jobs, FtlThread.rwJobs, List.countP_filter]
    refine List.countP_congr fun job _ => ?_
    cases job <;> simp [FtlJob.isFlush, FtlJob.isRw]
  refine ⟨?_, ?_, hat.touched hops, ?_, fun hflush => ?_⟩
  · rw [hat.inuse, hat.holders]
    cases st <;> simp [Stage.inuse, Stage.holders]
  · rw [hat.inuse, hat.holders]
    cases st <;> simp [Stage.inuse, Stage.holders]
  · rw [hcount]
    cases st <;> simp [Stage.jobs, FtlJob.isFlush]
  · have hstage := (hjobs .flush rfl).mp hflush
    cases st with
    | programming req => exact ⟨req, hwriter req rfl, hasPagesOf_cachedWrite hwbc⟩
    | loading req => simp [Stage.jobs] at hstage
    | polling => cases hstage
    | receiving req => cases hstage
    | sending req => cases hstage
    | resuming => cases hstage
    | stopped => cases hstage

end Threads

/-- In every state of every run the page buffer has exactly one owner while it is in use and
none otherwise, the threads touch it for the owner only, and the write back cache is queued
at most once, with the pages of the WRITE that queued it and no other valid page. -/
theorem the_page_buffer_has_one_owner_while_in_use (c : Config) {asqs acqs asq acq : Nat}
    {flash : Ppa → Nat → UInt8} {acts : List Action} {x : State × Option Req}
    (h : run (ownedStep c) (initialState c asqs acqs asq acq flash, none) acts = some x) :
    BufferOwned c x.1 x.2 := by
  have hinv : ∃ st, OwnedAt c x st :=
    run_keeps (I := fun x => ∃ st, OwnedAt c x st) (fun _ _ _ ⟨_, ht⟩ hstep => ht.step hstep)
      ⟨.polling, ownedAt_initialState c asqs acqs asq acq flash⟩ h
  obtain ⟨st, hst⟩ := hinv
  exact hst.owned

/-- A WRITE of block 0, up to the state in which its write-back is queued. -/
def writeBlock : List Action :=
  roundFor (ringFor 1 1 ⟨0x01, 4, 1, 0, 0x30000, 0, 0, 0, 0⟩) ++
    List.replicate 2 (.dma fun _ => 0) ++ roundFor noRing

/-- The WRITE is the third command that is completed, and its pages still have the buffer. -/
theorem the_page_buffer_of_a_completed_write_has_one_owner :
    ∃ x, run (ownedStep smallDevice) (bootState, none) (createQueues ++ writeBlock) = some x ∧
      x.1.driver.posted.length = 3 ∧ x.1.buf.page_buffer_inuse = true ∧
      BufferOwned smallDevice x.1 x.2 := by
  have hrun : (run (ownedStep smallDevice) (bootState, none) (createQueues ++ writeBlock)).map
      (fun x => (x.1.driver.posted.length, x.1.buf.page_buffer_inuse)) = some (3, true) := by
    decide +kernel
  obtain ⟨x, hx, hvals⟩ := Option.map_eq_some_iff.mp hrun
  obtain ⟨hposted, hinuse⟩ := Prod.mk.inj hvals
  exact ⟨x, hx, hposted, hinuse, the_page_buffer_has_one_owner_while_in_use smallDevice hx⟩

end S4Sim
