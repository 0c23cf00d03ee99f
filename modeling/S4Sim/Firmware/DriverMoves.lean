-- What one step does to the queues of the driver. A step calls the functions of
-- nvme_driver.c in one of seven orders, so an invariant of the queues has seven cases.
import S4Sim.Firmware.OneCompletion

namespace S4Sim

variable {c : Config} {env : Env} {s s' s0 : State} {d d' : Driver} {req : Req}

/-- The driver after a step of the NVMe thread from the state `s`. -/
inductive DriverMove (c : Config) (env : Env) (s : State) : Driver → Prop
  | same : DriverMove c env s s.driver
  | finished {req req' : Req} {d' : Driver} (hreq : req ∈ inFlight s)
    (hto : completesTo c env s = some req.cqid) (hsqid : req'.sqid = req.sqid)
    (h : s.driver.enqueue_io_ccmd req.cqid req' = some d') : DriverMove c env s d'
  | retried {d' : Driver} (hpoll : aboutToPoll s = true) (hbell : env.DoorBell ≠ 1)
    (h : s.driver.retry_io_ccmds = some d') : DriverMove c env s d'
  | released {d' : Driver} (hpoll : aboutToPoll s = true) (hbell : env.DoorBell = 2)
    (h : s.driver.cq_door_bell env.Qindex env.db_value = some d') : DriverMove c env s d'
  | admin {d d' : Driver} (hf : fetches env s = true) (hq : env.Qindex = 0)
    (hd : s.driver.sq_door_bell env.Qindex env.db_value = some d)
    (h : process_admin_cmd c.hostPageBits env d = some d') : DriverMove c env s d'
  | fetched {d d' : Driver} (hf : fetches env s = true) (hq : env.Qindex ≠ 0)
    (hd : s.driver.sq_door_bell env.Qindex env.db_value = some d)
    (h : d.read_scmd env.Qindex env.scmd env.mem = some d') : DriverMove c env s d'
  | answered {d d1 d' : Driver} {req : Req} (hf : fetches env s = true) (hq : env.Qindex ≠ 0)
    (hd : s.driver.sq_door_bell env.Qindex env.db_value = some d)
    (hd1 : d.read_scmd env.Qindex env.scmd env.mem = some d1)
    (hask : IoAsk s.driver env req) (hto : completesTo c env s = some req.cqid)
    (h : d1.enqueue_io_ccmd req.cqid req = some d') : DriverMove c env s d'

/-! ## The handlers of an I/O entry -/

/-- A handler that runs after the entry is read has completed the request of the entry, or
it has left the driver. -/
def Handled (c : Config) (env : Env) (s0 s s' : State) : Prop :=
  s'.driver = s.driver ∨ ∃ req, IoAsk s0.driver env req ∧ completesAtOnce c env s0 = true ∧
    s.driver.enqueue_io_ccmd req.cqid req = some s'.driver

theorem driver_of_enqueue_io {q : Nat} (h : s.enqueue_io_ccmd q req = some s') :
    s.driver.enqueue_io_ccmd q req = some s'.driver := by
  obtain ⟨d', hd, rfl⟩ := Option.map_eq_some_iff.mp h
  exact hd

theorem Handled.answered {s1 : State} {q : Nat} (h : s1.enqueue_io_ccmd q req = some s')
    (hq : req.cqid = q) (hs : s1.driver = s.driver) (hask : IoAsk s0.driver env req)
    (hat : completesAtOnce c env s0 = true) : Handled c env s0 s s' := by
  subst hq
  exact Or.inr ⟨req, hask, hat, hs ▸ driver_of_enqueue_io h⟩

theorem Handled.add_callback {f : Callback} (h : Handled c env s0 s s') :
    Handled c env s0 s (s'.sys_add_callback_ftn f) := h

@[simp] theorem process_read_ios_step_2_driver : (process_read_ios_step_2 s).driver = s.driver := by
  unfold process_read_ios_step_2
  generalize s.buf.r_buf_q = l
  induction l generalizing s with
  | nil => rfl
  | cons req l ih =>
    unfold read_ios_step_2
    split
    · rfl
    · rw [ih]
      rfl

@[simp] theorem process_write_ios_step_2_driver :
    (process_write_ios_step_2 c s).driver = s.driver := by
  unfold process_write_ios_step_2
  split
  · rfl
  · split
    · rfl
    · rfl

section Handlers

variable {obj : Req}

/-- The request of the entry keeps its number and its queue in the handler. -/
theorem IoAsk.congr {req' : Req} (h : IoAsk d env req) (huid : req'.uid = req.uid)
    (hcqid : req'.cqid = req.cqid) (hstatus : req'.status = req.status)
    (hcid : req'.scmd.cid = req.scmd.cid) (hsqid : req'.sqid = req.sqid) : IoAsk d env req' :=
  ⟨huid.trans h.uid, hcqid.trans h.cqid, hcid.trans h.cid, hstatus.trans h.status, h.qindex,
    hsqid.trans h.sqid⟩

theorem process_read_io_handled (hreq : ioRequest s0.driver env.Qindex obj = some req)
    (hq : env.Qindex ≠ 0) (hop : env.scmd.opcode.toNat = 0x02)
    (hs : process_read_io c env req s = some s') : Handled c env s0 s s' := by
  unfold process_read_io at hs
  simp only at hs
  split at hs
  · obtain ⟨req1, -, rfl⟩ := Option.map_eq_some_iff.mp hs
    left
    simp
  · rename_i hbad
    exact .answered hs rfl rfl (ioAsk_of hreq hq rfl rfl rfl rfl rfl)
      (by simp [completesAtOnce, hop, hbad])

theorem process_write_io_handled (hreq : ioRequest s0.driver env.Qindex obj = some req)
    (hq : env.Qindex ≠ 0) (hop : env.scmd.opcode.toNat = 0x01)
    (hs : process_write_io c env req s = some s') : Handled c env s0 s s' := by
  unfold process_write_io at hs
  simp only at hs
  split at hs
  · obtain ⟨req1, -, rfl⟩ := Option.map_eq_some_iff.mp hs
    left
    simp
  · rename_i hbad
    exact .answered hs rfl rfl (ioAsk_of hreq hq rfl rfl rfl rfl rfl)
      (by simp [completesAtOnce, hop, hbad])

theorem process_flush_io_handled (hreq : ioRequest s0.driver env.Qindex obj = some req)
    (hq : env.Qindex ≠ 0) (hop : env.scmd.opcode.toNat = 0x00)
    (hs : process_flush_io env req s = some s') : Handled c env s0 s s' := by
  obtain ⟨s1, hs1, rfl⟩ := Option.map_eq_some_iff.mp hs
  refine Handled.add_callback (.answered hs1 rfl rfl ?_ (by simp [completesAtOnce, hop]))
  exact ioAsk_of hreq hq rfl rfl rfl rfl rfl

theorem execute_command_handled (hask : IoAsk s0.driver env req)
    (hop : env.scmd.opcode.toNat = 0x80) (hs : execute_command c env req s = some s') :
    Handled c env s0 s s' := by
  obtain ⟨dma, hs1⟩ := execute_command_cases hs
  exact .answered hs1 rfl rfl (hask.congr rfl rfl rfl rfl rfl) (by simp [completesAtOnce, hop])

theorem control_command_handled (hask : IoAsk s0.driver env req) (hisp : s.isp = s0.isp)
    (hop : env.scmd.opcode.toNat = 0x81) (hs : control_command req s = some s') :
    Handled c env s0 s s' := by
  unfold control_command at hs
  split at hs
  · rename_i hexit
    exact .answered hs rfl rfl (hask.congr rfl rfl rfl rfl rfl)
      (by simp [completesAtOnce, hop, ← hisp, hexit])
  · split at hs
    · rename_i dma_req rest hpend
      exact .answered hs rfl rfl (hask.congr rfl rfl rfl rfl rfl)
        (by simp [completesAtOnce, hop, ← hisp, hpend])
    · cases hs
      exact Or.inl rfl

theorem data_transfer_command_handled (hask : IoAsk s0.driver env req)
    (hop : env.scmd.opcode.toNat = 0x82) (hs : data_transfer_command c env req s = some s') :
    Handled c env s0 s s' := by
  obtain ⟨-, -, hs1⟩ := Option.bind_eq_some_iff.mp hs
  obtain ⟨req1, hreq1, henq1⟩ := Option.bind_eq_some_iff.mp hs1
  obtain ⟨dma, rfl⟩ := do_sync_dma_cases hreq1
  exact .answered henq1 rfl rfl (hask.congr rfl rfl rfl rfl rfl) (by simp [completesAtOnce, hop])

theorem process_isp_io_handled (hreq : ioRequest s0.driver env.Qindex obj = some req)
    (hq : env.Qindex ≠ 0) (hisp : s.isp = s0.isp)
    (hop : env.scmd.opcode.toNat = 0x80 ∨ env.scmd.opcode.toNat = 0x81 ∨
      env.scmd.opcode.toNat = 0x82)
    (hs : process_isp_io c env req s = some s') : Handled c env s0 s s' := by
  have hask : IoAsk s0.driver env { req with scmd := { req.scmd with
      cid := env.scmd.cid, nsid := env.scmd.nsid, prp1 := env.scmd.prp1,
      prp2 := env.scmd.prp2 } } := ioAsk_of hreq hq rfl rfl rfl rfl rfl
  obtain ⟨s1, hs1, rfl⟩ := Option.map_eq_some_iff.mp hs
  rcases hop with hop | hop | hop
  · simp only [hop] at hs1
    exact (execute_command_handled hask hop hs1).add_callback
  · simp only [hop] at hs1
    exact (control_command_handled hask hisp hop hs1).add_callback
  · simp only [hop] at hs1
    exact (data_transfer_command_handled hask hop hs1).add_callback

/-- An I/O entry is read, and its handler has completed it or left the driver. -/
theorem process_io_cmd_handled {s1 : State} (hs : process_io_cmd c env env.Qindex s1 = some s')
    (hsame : SameFetch env s0.driver d) (hs1 : s1.driver = d) (hisp : s1.isp = s0.isp)
    (hq : env.Qindex ≠ 0) :
    ∃ d1, d.read_scmd env.Qindex env.scmd env.mem = some d1 ∧
      Handled c env s0 { s1 with driver := d1 } s' := by
  subst hs1
  obtain ⟨d1, hd1, hs⟩ := Option.bind_eq_some_iff.mp hs
  refine ⟨d1, hd1, ?_⟩
  simp only at hs
  split at hs
  · rename_i hop
    obtain ⟨req, obj, hr, hs⟩ := hsame.request hs
    exact process_read_io_handled hr hq hop hs
  · rename_i hop
    obtain ⟨req, obj, hr, hs⟩ := hsame.request hs
    exact process_write_io_handled hr hq hop hs
  · rename_i hop
    obtain ⟨req, obj, hr, hs⟩ := hsame.request hs
    exact process_flush_io_handled hr hq hop hs
  · rename_i hop
    obtain ⟨req, obj, hr, hs⟩ := hsame.request hs
    exact process_isp_io_handled hr hq hisp (Or.inl hop) hs
  · rename_i hop
    obtain ⟨req, obj, hr, hs⟩ := hsame.request hs
    exact process_isp_io_handled hr hq hisp (Or.inr (Or.inl hop)) hs
  · rename_i hop
    obtain ⟨req, obj, hr, hs⟩ := hsame.request hs
    exact process_isp_io_handled hr hq hisp (Or.inr (Or.inr hop)) hs
  · cases hs
    exact Or.inl rfl

end Handlers

/-! ## Every step is a move -/

theorem polled_move (hpoll : aboutToPoll s = true) {callbacks : List Callback} {todo : List Task}
    (hs : check_door_bell c env { s with callbacks, todo } = some s')
    (hto : ∀ q, env.DoorBell = 1 → env.Qindex ≠ 0 → completesAtOnce c env s = true →
      q = ioCqid s.driver env → completesTo c env s = some q) :
    DriverMove c env s s'.driver := by
  unfold check_door_bell at hs
  split at hs
  · rename_i hbell
    have hf : fetches env s = true := by simp [fetches, hpoll, hbell]
    obtain ⟨d, hd, hs⟩ := Option.bind_eq_some_iff.mp hs
    have hsame := sq_door_bell_cases hd
    split at hs
    · rename_i hq
      obtain ⟨d1, hd1, h⟩ := process_io_cmd_handled hs hsame rfl rfl hq
      rcases h with h | ⟨req, hask, hat, h⟩
      · rw [h]
        exact .fetched hf hq hd hd1
      · exact .answered hf hq hd hd1 hask (hto _ hbell hq hat hask.cqid) h
    · rename_i hq
      obtain ⟨d', hd', rfl⟩ := Option.map_eq_some_iff.mp hs
      exact .admin hf (not_not.mp hq) hd hd'
  · rename_i hbell
    split at hs
    · rename_i hbell
      obtain ⟨d', hd', rfl⟩ := Option.map_eq_some_iff.mp hs
      exact .released hpoll hbell hd'
    · unfold idle_poll at hs
      simp only at hs
      split at hs
      · obtain ⟨d', hd', rfl⟩ := Option.map_eq_some_iff.mp hs
        have hmove : DriverMove c env s d' := .retried hpoll hbell hd'
        split
        · split
          · exact .same
          · exact hmove
        · exact hmove
      · cases hs
        exact .same

theorem mem_inFlight_of_ctrl (h : s.isp.ctrl_cmd_req = some req) : req ∈ inFlight s := by
  simp [inFlight, h]

theorem mem_inFlight_of_task {task : Task} {rest : List Task} (htodo : s.todo = task :: rest)
    (h : task.dmaReq = some req) : req ∈ inFlight s := by
  simp [inFlight, htodo, h]

theorem finished_move {s1 : State} {req' : Req} {q : Nat} (hin : req ∈ inFlight s)
    (hs : s1.enqueue_io_ccmd q req' = some s') (hq : q = req.cqid) (hs1 : s1.driver = s.driver)
    (hsqid : req'.sqid = req.sqid) (hto : completesTo c env s = some req.cqid) :
    DriverMove c env s s'.driver := by
  subst hq
  exact .finished hin hto hsqid (hs1 ▸ driver_of_enqueue_io hs)

theorem recycled_driver_move {rest : List Callback} {todo : List Task}
    (hs : recycle_control_command { s with callbacks := rest, todo } = some s')
    (hto : ∀ req, s.isp.ctrl_cmd_req = some req → completesTo c env s = some req.cqid) :
    DriverMove c env s s'.driver := by
  unfold recycle_control_command at hs
  split at hs
  · cases hs
    exact .same
  · rename_i req hreq
    have hreq : s.isp.ctrl_cmd_req = some req := hreq
    have hin := mem_inFlight_of_ctrl hreq
    simp only at hs
    split at hs
    · unfold post_dma_msg at hs
      exact finished_move hin hs rfl rfl rfl (hto req hreq)
    · split at hs
      · exact finished_move hin hs rfl rfl rfl (hto req hreq)
      · exact finished_move hin hs rfl rfl rfl (hto req hreq)

theorem msg_driver_move {msg : IspMsg} {msgs : List IspMsg} {rest : List Task}
    (htodo : s.todo = .msg_out :: rest) (hq : s.isp.msg_out_q = msg :: msgs)
    (hs : msg_cbk { s with todo := rest, isp := { s.isp with msg_out_q := msgs } } msg = some s') :
    DriverMove c env s s'.driver := by
  unfold msg_cbk at hs
  split at hs
  · split at hs
    · cases hs
      exact .same
    · rename_i req hreq
      have hreq : s.isp.ctrl_cmd_req = some req := hreq
      unfold post_dma_msg at hs
      exact finished_move (mem_inFlight_of_ctrl hreq) hs rfl rfl rfl
        (by simp [completesTo, htodo, hq, hreq])
  · cases hs
    exact .same
  · split at hs
    · cases hs
      exact .same
    · rename_i req hreq
      have hreq : s.isp.ctrl_cmd_req = some req := hreq
      exact finished_move (mem_inFlight_of_ctrl hreq) hs rfl rfl rfl
        (by simp [completesTo, htodo, hq, hreq])

/-- Every step of the NVMe thread is a move of the driver. -/
theorem nvmeStep_driver (hs : nvmeStep c env s = some s') : DriverMove c env s s'.driver := by
  unfold nvmeStep at hs
  split at hs
  · cases hs
    exact .same
  · rename_i task rest htodo
    cases task with
    | callback =>
      simp only [runTask] at hs
      split at hs
      · cases hs
        exact .same
      · rename_i rest' hcb
        have hcb : s.callbacks = .check_door_bell :: rest' := hcb
        refine polled_move (by simp [aboutToPoll, htodo, hcb]) hs ?_
        rintro q hbell hq hat rfl
        simp [completesTo, htodo, hcb, hbell, hq, hat]
      · rename_i rest' hcb
        have hcb : s.callbacks = .recycle_control_command :: rest' := hcb
        refine recycled_driver_move hs fun req hreq => ?_
        simp [completesTo, htodo, hcb, hreq]
    | msg_out =>
      simp only [runTask] at hs
      split at hs
      · cases hs
        exact .same
      · rename_i msg msgs hq
        exact msg_driver_move htodo hq hs
    | ftl_out =>
      simp only [runTask] at hs
      split at hs
      · cases hs
        exact .same
      · rename_i job rest' hout
        cases hs
        cases job <;> exact .same
    | read_ios_step_2 =>
      cases hs
      rw [process_read_ios_step_2_driver]
      exact .same
    | write_ios_step_2 =>
      cases hs
      rw [process_write_ios_step_2_driver]
      exact .same
    | read_dma req =>
      simp only [runTask] at hs
      split at hs
      · cases hs
        exact .same
      · rename_i hdma
        exact finished_move (mem_inFlight_of_task htodo rfl) hs rfl rfl rfl
          (by simp [completesTo, htodo, Option.not_isSome_iff_eq_none.mp hdma])
    | write_dma req =>
      simp only [runTask] at hs
      split at hs
      · cases hs
        exact .same
      · rename_i hdma
        exact finished_move (mem_inFlight_of_task htodo rfl) hs rfl rfl rfl
          (by simp [completesTo, htodo, Option.not_isSome_iff_eq_none.mp hdma])
    | add_check_door_bell =>
      cases hs
      exact .same

/-- The queues of the driver are those of the state before, or a step of the NVMe thread
has moved them. -/
theorem fwStep_driver {a : Action} (h : fwStep c s a = some s') :
    (∃ env, a = .nvme env ∧ DriverMove c env s s'.driver) ∨
      ∃ transfers, s'.driver = { s.driver with transfers } := by
  cases a with
  | nvme env => exact Or.inl ⟨env, rfl, nvmeStep_driver h⟩
  | dma mem =>
    cases h
    right
    unfold dmaThreadStep
    split
    · exact ⟨_, rfl⟩
    · simp only
      split <;> exact ⟨_, rfl⟩
  | ftl pick applet =>
    right
    rw [(ftlThreadStep_frame h).state]
    exact ⟨_, rfl⟩
  | isp_exit =>
    cases h
    exact Or.inr ⟨_, rfl⟩
  | isp_host_dma dma_req =>
    cases h
    exact Or.inr ⟨_, rfl⟩
  | isp_nand_op program start_lpn num_of_lpn =>
    cases h
    exact Or.inr ⟨_, rfl⟩
  | isp_function_exited =>
    cases h
    exact Or.inr ⟨_, rfl⟩
  | isp_pending_dma dma_req =>
    cases h
    exact Or.inr ⟨_, rfl⟩
  | isp_msg_out msg =>
    cases h
    exact Or.inr ⟨_, rfl⟩

end S4Sim
