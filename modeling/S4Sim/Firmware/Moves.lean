-- The threads follow the stages: each step of the NVMe thread is an `NvmeMove`, and
-- the steps of the other threads keep the stage.
import S4Sim.Firmware.Handlers

namespace S4Sim

variable {c : Config} {env : Env} {s s' s0 : State} {d' : Driver} {req : Req} {st : Stage}

/-! ## The other tasks of the NVMe thread -/

theorem post_dma_msg_cases {dma_req : IspDma} (h : post_dma_msg dma_req req s = some s') :
    ∃ d', s' = { s with driver := d', isp := { s.isp with active_dma_req := some dma_req } } ∧
      Enqueued s.driver d' (s.driver.enqueuedAfter req.cqid
        { req with ccmd_dw0 := dma_req.request_code }) := by
  obtain ⟨d', rfl, henq⟩ := enqueue_io_cases h
  exact ⟨d', rfl, henq⟩

/-- A stored control command is completed, and nothing is stored after it. -/
theorem recycled_move {isp : Isp} {callbacks : List Callback} {todo : List Task} {dw0 : Nat}
    (hat : At s0 .polling) (hreq : s0.isp.ctrl_cmd_req = some req)
    (hto : completesTo c env s0 = some req.cqid)
    (hctrl : isp.ctrl_cmd_req = none) (hcontrol : Control .polling callbacks todo none)
    (henq : Enqueued s0.driver d' (s0.driver.enqueuedAfter req.cqid { req with ccmd_dw0 := dw0 }))
    (hs : s' = { s0 with driver := d', isp, callbacks, todo }) :
    At s' .polling ∧ NvmeMove c env s0 .polling .polling s'.books := by
  subst hs
  refine ⟨⟨?_, hat.r_buf_q, hat.w_buf_q, hat.inuse, hat.jobs, hat.outq, hat.dma⟩, ?_⟩
  · simp only [hctrl]
    exact hcontrol
  · obtain ⟨hf, ht, he⟩ := henq
    simp only [State.books, hf, ht, he, hctrl]
    exact .recycled hreq hto

theorem recycle_control_command_move (hat : At s0 .polling)
    (hcb : s0.callbacks = [.recycle_control_command, .check_door_bell])
    (htodo : s0.todo = [.callback, .msg_out, .ftl_out])
    (hs : recycle_control_command { s0 with
      callbacks := [.check_door_bell], todo := [.msg_out, .ftl_out] } = some s') :
    At s' .polling ∧ NvmeMove c env s0 .polling .polling s'.books := by
  have hcontrol : Control .polling [.check_door_bell] [.msg_out, .ftl_out] none :=
    .polling (by simp [rounds])
  unfold recycle_control_command at hs
  split at hs
  · rename_i hnone
    cases hs
    refine ⟨⟨?_, hat.r_buf_q, hat.w_buf_q, hat.inuse, hat.jobs, hat.outq, hat.dma⟩, .quiet⟩
    have hnone : s0.isp.ctrl_cmd_req = none := hnone
    simp only [hnone]
    exact hcontrol
  · rename_i req hreq
    have hreq : s0.isp.ctrl_cmd_req = some req := hreq
    have hto : completesTo c env s0 = some req.cqid := by
      simp [completesTo, htodo, hcb, hreq]
    simp only at hs
    split at hs
    · obtain ⟨d', rfl, henq⟩ := post_dma_msg_cases hs
      exact recycled_move hat hreq hto rfl hcontrol henq rfl
    · split at hs
      · obtain ⟨d', rfl, henq⟩ := enqueue_io_cases hs
        exact recycled_move hat hreq hto rfl hcontrol henq rfl
      · obtain ⟨d', rfl, henq⟩ := enqueue_io_cases hs
        exact recycled_move hat hreq hto rfl hcontrol henq rfl

section Tasks

variable {callbacks : List Callback} {rest : List Task} {ctrl : Option Req}

theorem rounds_tail {task : Task} (h : task :: rest ∈ rounds) : rest ∈ rounds := by
  simp only [rounds, List.mem_cons, List.not_mem_nil, reduceCtorEq, List.cons.injEq,
    or_false] at h ⊢
  tauto

theorem rounds_callback (h : .callback :: rest ∈ rounds) : rest = [.msg_out, .ftl_out] := by
  simpa [rounds] using h

theorem rounds_ftl_out (h : .ftl_out :: rest ∈ rounds) : rest = [] := by
  simpa [rounds] using h

theorem resumptions_tail {task : Task} (h : task :: rest ∈ resumptions)
    (hne : task ≠ .add_check_door_bell) : rest ∈ resumptions := by
  simp only [resumptions, List.mem_cons, List.not_mem_nil, List.cons.injEq, or_false] at h ⊢
  tauto

theorem Control.msg_out (h : Control st callbacks (.msg_out :: rest) ctrl) :
    Control st callbacks rest ctrl ∧
      (ctrl ≠ none → st = .polling ∧ Control .polling callbacks rest none) := by
  cases h with
  | polling h => exact ⟨.polling (rounds_tail h), fun h => absurd rfl h⟩
  | recycling h => exact ⟨.recycling (rounds_tail h), fun _ => ⟨rfl, .recycling (rounds_tail h)⟩⟩
  | programming h => exact ⟨.programming (rounds_tail h), fun h => absurd rfl h⟩
  | loading h => exact ⟨.loading (rounds_tail h), fun h => absurd rfl h⟩
  | resuming h => simp [resumptions] at h
  | stopped h => exact ⟨.stopped (rounds_tail h), fun h => absurd rfl h⟩

theorem At.of_control (h : At s0 st) {todo : List Task} {callbacks : List Callback}
    (hc : Control st callbacks todo s0.isp.ctrl_cmd_req) :
    At { s0 with callbacks, todo } st :=
  ⟨hc, h.r_buf_q, h.w_buf_q, h.inuse, h.jobs, h.outq, h.dma⟩

theorem msg_out_move (hat : At s0 st) (htodo : s0.todo = .msg_out :: rest)
    (hs : runTask c env { s0 with todo := rest } .msg_out = some s') :
    At s' st ∧ NvmeMove c env s0 st st s'.books := by
  obtain ⟨hcontrol, hstored⟩ := (htodo ▸ hat.control).msg_out
  unfold runTask at hs
  simp only at hs
  split at hs
  · cases hs
    exact ⟨hat.of_control hcontrol, .quiet⟩
  · rename_i msg msgs hq
    unfold msg_cbk at hs
    simp only at hs
    split at hs
    · split at hs
      · cases hs
        exact ⟨⟨hcontrol, hat.r_buf_q, hat.w_buf_q, hat.inuse, hat.jobs, hat.outq, hat.dma⟩, .quiet⟩
      · rename_i dma_req req hreq
        have hreq : s0.isp.ctrl_cmd_req = some req := hreq
        obtain ⟨rfl, hnone⟩ := hstored (by simp [hreq])
        obtain ⟨d', rfl, henq⟩ := post_dma_msg_cases hs
        refine recycled_move hat hreq ?_ rfl hnone henq rfl
        simp [completesTo, htodo, hq, hreq]
    · rename_i program start_lpn num_of_lpn
      cases hs
      refine ⟨⟨hcontrol, hat.r_buf_q, hat.w_buf_q, hat.inuse, ?_, hat.outq, hat.dma⟩, ?_⟩
      · show FtlThread.rwJobs { s0.ftl with inq := s0.ftl.inq ++ [_] } = _
        rw [rwJobs_push, hat.jobs]
        simp [FtlJob.isRw]
      · exact .isp_job (by simp [hq])
    · split at hs
      · cases hs
        exact ⟨⟨hcontrol, hat.r_buf_q, hat.w_buf_q, hat.inuse, hat.jobs, hat.outq, hat.dma⟩, .quiet⟩
      · rename_i req hreq
        have hreq : s0.isp.ctrl_cmd_req = some req := hreq
        obtain ⟨rfl, hnone⟩ := hstored (by simp [hreq])
        obtain ⟨d', rfl, henq⟩ := enqueue_io_cases hs
        refine recycled_move hat hreq ?_ rfl hnone henq rfl
        simp [completesTo, htodo, hq, hreq]

/-- The first job of `outq` is the one job of the stage. -/
theorem At.outq_cons (h : At s0 st) {job : FtlJob} {jobs : List FtlJob}
    (hq : s0.ftl.outq = job :: jobs) :
    ((∃ req, st = .programming req ∧ job = .flush) ∨ ∃ req, st = .loading req ∧ job = .read req) ∧
      FtlThread.rwJobs { s0.ftl with outq := jobs } = [] := by
  have hrw : job.isRw = true := h.outq job (by simp [hq])
  have hjobs := h.jobs
  simp only [FtlThread.rwJobs, FtlThread.jobs, hq, List.cons_append, List.filter_cons, hrw,
    if_true] at hjobs
  cases st with
  | programming req =>
    simp only [Stage.jobs, List.cons.injEq] at hjobs
    exact ⟨Or.inl ⟨req, rfl, hjobs.1⟩, hjobs.2⟩
  | loading req =>
    simp only [Stage.jobs, List.cons.injEq] at hjobs
    exact ⟨Or.inr ⟨req, rfl, hjobs.1⟩, hjobs.2⟩
  | polling => simp [Stage.jobs] at hjobs
  | receiving req => simp [Stage.jobs] at hjobs
  | sending req => simp [Stage.jobs] at hjobs
  | resuming => simp [Stage.jobs] at hjobs
  | stopped => simp [Stage.jobs] at hjobs

theorem Control.ftl_out (h : Control st callbacks (.ftl_out :: rest) ctrl) :
    rest = [] ∧ Control st callbacks [] ctrl := by
  have hnil : [] ∈ rounds := by simp [rounds]
  cases h with
  | polling h => exact ⟨rounds_ftl_out h, .polling hnil⟩
  | recycling h => exact ⟨rounds_ftl_out h, .recycling hnil⟩
  | programming h => exact ⟨rounds_ftl_out h, .programming hnil⟩
  | loading h => exact ⟨rounds_ftl_out h, .loading hnil⟩
  | resuming h => simp [resumptions] at h
  | stopped h => exact ⟨rounds_ftl_out h, .stopped hnil⟩

theorem Control.in_ftl {req : Req} {todo : List Task}
    (h : Control st callbacks todo ctrl) (hst : st = .programming req ∨ st = .loading req) :
    callbacks = [] ∧ ctrl = none := by
  rcases hst with rfl | rfl
  · cases h <;> exact ⟨rfl, rfl⟩
  · cases h
    exact ⟨rfl, rfl⟩

theorem ftl_out_move (hat : At s0 st) (htodo : s0.todo = .ftl_out :: rest)
    (hs : runTask c env { s0 with todo := rest } .ftl_out = some s') :
    ∃ st', At s' st' ∧ NvmeMove c env s0 st st' s'.books := by
  obtain ⟨rfl, hcontrol⟩ := (htodo ▸ hat.control).ftl_out
  unfold runTask at hs
  simp only at hs
  split at hs
  · cases hs
    exact ⟨st, hat.of_control hcontrol, .quiet⟩
  · rename_i job jobs hq
    have hq : s0.ftl.outq = job :: jobs := hq
    have hout : ∀ job ∈ jobs, job.isRw = true := fun job hj => hat.outq job (by simp [hq, hj])
    obtain ⟨⟨req, rfl, rfl⟩ | ⟨req, rfl, rfl⟩, hjobs⟩ := hat.outq_cons hq
    · obtain ⟨hcb, hctrl⟩ := hcontrol.in_ftl (Or.inl rfl)
      cases hs
      refine ⟨.resuming, ⟨?_, hat.r_buf_q, hat.w_buf_q, rfl, hjobs, hout, ?_⟩, .programmed hq⟩
      · simp only [hcb, hctrl, completed_req_cbk, State.free_wbc_buffer]
        exact .resuming (by simp [resumptions])
      · intro job hdma
        exact absurd (hat.dma job hdma) (by simp [Stage.transfer])
    · obtain ⟨hcb, hctrl⟩ := hcontrol.in_ftl (Or.inr rfl)
      cases hs
      refine ⟨.sending req, ⟨?_, hat.r_buf_q, hat.w_buf_q, hat.inuse, hjobs, hout, ?_⟩, .loaded hq⟩
      · simp only [hcb, hctrl, completed_req_cbk]
        exact .sending
      · rintro job ⟨⟩
        rfl

/-- With no request that waits, the two loops do nothing. -/
theorem process_read_ios_step_2_nil (h : s.buf.r_buf_q = []) : process_read_ios_step_2 s = s := by
  unfold process_read_ios_step_2
  rw [h, read_ios_step_2, ← h]

theorem process_write_ios_step_2_nil (h : s.buf.w_buf_q = []) :
    process_write_ios_step_2 c s = s := by
  unfold process_write_ios_step_2
  rw [h]

theorem Control.step_2 {task : Task} (h : Control st callbacks (task :: rest) ctrl)
    (htask : task = .read_ios_step_2 ∨ task = .write_ios_step_2) :
    Control st callbacks rest ctrl := by
  cases h with
  | polling h => rcases htask with rfl | rfl <;> simp [rounds] at h
  | recycling h => rcases htask with rfl | rfl <;> simp [rounds] at h
  | receiving => simp at htask
  | received => exact .programming (by simp [rounds])
  | programming h => rcases htask with rfl | rfl <;> simp [rounds] at h
  | loading h => rcases htask with rfl | rfl <;> simp [rounds] at h
  | sending => simp at htask
  | resuming h =>
    refine .resuming (resumptions_tail h ?_)
    rcases htask with rfl | rfl <;> simp
  | stopped h => rcases htask with rfl | rfl <;> simp [rounds] at h

theorem Control.read_dma (h : Control st callbacks (.read_dma req :: rest) ctrl) :
    st = .sending req ∧ callbacks = [] ∧ ctrl = none ∧
      rest = [.read_ios_step_2, .write_ios_step_2, .add_check_door_bell] := by
  cases h with
  | sending => exact ⟨rfl, rfl, rfl, rfl⟩
  | polling h => simp [rounds] at h
  | recycling h => simp [rounds] at h
  | programming h => simp [rounds] at h
  | loading h => simp [rounds] at h
  | resuming h => simp [resumptions] at h
  | stopped h => simp [rounds] at h

theorem Control.write_dma (h : Control st callbacks (.write_dma req :: rest) ctrl) :
    st = .receiving req ∧ callbacks = [] ∧ ctrl = none ∧ rest = [.msg_out, .ftl_out] := by
  cases h with
  | receiving => exact ⟨rfl, rfl, rfl, rfl⟩
  | polling h => simp [rounds] at h
  | recycling h => simp [rounds] at h
  | programming h => simp [rounds] at h
  | loading h => simp [rounds] at h
  | resuming h => simp [resumptions] at h
  | stopped h => simp [rounds] at h

theorem Control.add_check_door_bell (h : Control st callbacks (.add_check_door_bell :: rest) ctrl) :
    st = .resuming ∧ callbacks = [] ∧ ctrl = none ∧ rest = [] := by
  cases h with
  | polling h => simp [rounds] at h
  | recycling h => simp [rounds] at h
  | programming h => simp [rounds] at h
  | loading h => simp [rounds] at h
  | resuming h => exact ⟨rfl, rfl, rfl, by simpa [resumptions] using h⟩
  | stopped h => simp [rounds] at h

theorem read_dma_move (hat : At s0 st) (htodo : s0.todo = .read_dma req :: rest)
    (hs : runTask c env { s0 with todo := rest } (.read_dma req) = some s') :
    ∃ st', At s' st' ∧ NvmeMove c env s0 st st' s'.books := by
  have hcontrol := htodo ▸ hat.control
  obtain ⟨rfl, hcb, hctrl, rfl⟩ := hcontrol.read_dma
  unfold runTask at hs
  simp only at hs
  split at hs
  · cases hs
    exact ⟨_, hat.of_control hcontrol, .quiet⟩
  · rename_i hdma
    have hdma : s0.dma = none := Option.not_isSome_iff_eq_none.mp hdma
    obtain ⟨d', rfl, hf, ht, he⟩ := enqueue_io_cases hs
    refine ⟨.resuming, ⟨?_, hat.r_buf_q, hat.w_buf_q, rfl, hat.jobs, hat.outq, ?_⟩, ?_⟩
    · simp only [State.free_read_io_buffer, hcb, hctrl]
      exact .resuming (by simp [resumptions])
    · intro job hjob
      rw [show s0.dma = some job from hjob] at hdma
      cases hdma
    · have hto : completesTo c env s0 = some req.cqid := by simp [completesTo, htodo, hdma]
      simp only [State.books, State.free_read_io_buffer, hf, ht, he]
      exact .sent hdma hto

theorem write_dma_move (hat : At s0 st) (htodo : s0.todo = .write_dma req :: rest)
    (hs : runTask c env { s0 with todo := rest } (.write_dma req) = some s') :
    ∃ st', At s' st' ∧ NvmeMove c env s0 st st' s'.books := by
  have hcontrol := htodo ▸ hat.control
  obtain ⟨rfl, hcb, hctrl, rfl⟩ := hcontrol.write_dma
  unfold runTask at hs
  simp only at hs
  split at hs
  · cases hs
    exact ⟨_, hat.of_control hcontrol, .quiet⟩
  · rename_i hdma
    have hdma : s0.dma = none := Option.not_isSome_iff_eq_none.mp hdma
    obtain ⟨d', rfl, hf, ht, he⟩ := enqueue_io_cases hs
    refine ⟨.programming req, ⟨?_, hat.r_buf_q, hat.w_buf_q, hat.inuse, ?_, hat.outq, ?_⟩, ?_⟩
    · simp only [State.free_write_io_buffer, State.sys_push_to_ftl, hcb, hctrl]
      exact .received
    · show FtlThread.rwJobs { s0.ftl with inq := s0.ftl.inq ++ [.flush] } = _
      rw [rwJobs_push, hat.jobs]
      rfl
    · intro job hjob
      rw [show s0.dma = some job from hjob] at hdma
      cases hdma
    · have hto : completesTo c env s0 = some req.cqid := by simp [completesTo, htodo, hdma]
      simp only [State.books, State.free_write_io_buffer, State.sys_push_to_ftl, hf, ht, he]
      exact .received hdma hto

/-- With a callback before the round, the stage is `polling`. -/
theorem Control.callback (h : Control st callbacks (.callback :: rest) ctrl) :
    rest = [.msg_out, .ftl_out] ∧ (callbacks = [] ∧ Control st [] rest ctrl ∨
      st = .polling ∧ (callbacks = [.check_door_bell] ∨
        callbacks = [.recycle_control_command, .check_door_bell])) := by
  cases h with
  | polling h => exact ⟨rounds_callback h, Or.inr ⟨rfl, Or.inl rfl⟩⟩
  | recycling h => exact ⟨rounds_callback h, Or.inr ⟨rfl, Or.inr rfl⟩⟩
  | programming h => exact ⟨rounds_callback h, Or.inl ⟨rfl, .programming (rounds_tail h)⟩⟩
  | loading h => exact ⟨rounds_callback h, Or.inl ⟨rfl, .loading (rounds_tail h)⟩⟩
  | resuming h => simp [resumptions] at h
  | stopped h => exact ⟨rounds_callback h, Or.inl ⟨rfl, .stopped (rounds_tail h)⟩⟩

theorem callback_move (hat : At s0 st) (htodo : s0.todo = .callback :: rest)
    (hs : runTask c env { s0 with todo := rest } .callback = some s') :
    ∃ st', At s' st' ∧ NvmeMove c env s0 st st' s'.books := by
  obtain ⟨rfl, ⟨hcb, hcontrol⟩ | ⟨rfl, hcb | hcb⟩⟩ := (htodo ▸ hat.control).callback
  · simp only [runTask, hcb, Option.some.injEq] at hs
    subst hs
    refine ⟨st, ?_, .quiet⟩
    rw [← hcb]
    exact hat.of_control (hcb ▸ hcontrol)
  · simp only [runTask, hcb] at hs
    exact check_door_bell_move hat hcb htodo hs
  · simp only [runTask, hcb] at hs
    exact ⟨.polling, recycle_control_command_move hat hcb htodo hs⟩

/-- Every step of the NVMe thread is a move. -/
theorem nvmeStep_move (hat : At s0 st) (hs : nvmeStep c env s0 = some s') :
    ∃ st', At s' st' ∧ NvmeMove c env s0 st st' s'.books := by
  unfold nvmeStep at hs
  split at hs
  · rename_i htodo
    cases hs
    have hround : Control st s0.callbacks [.callback, .msg_out, .ftl_out] s0.isp.ctrl_cmd_req := by
      have hcontrol := hat.control
      rw [htodo] at hcontrol
      have hmem : [Task.callback, .msg_out, .ftl_out] ∈ rounds := by simp [rounds]
      generalize s0.callbacks = callbacks at hcontrol ⊢
      generalize s0.isp.ctrl_cmd_req = ctrl at hcontrol ⊢
      cases hcontrol with
      | polling => exact .polling hmem
      | recycling => exact .recycling hmem
      | programming => exact .programming hmem
      | loading => exact .loading hmem
      | resuming h => simp [resumptions] at h
      | stopped => exact .stopped hmem
    exact ⟨st, hat.of_control hround, .quiet⟩
  · rename_i task rest htodo
    cases task with
    | callback => exact callback_move hat htodo hs
    | msg_out => exact ⟨st, msg_out_move hat htodo hs⟩
    | ftl_out => exact ftl_out_move hat htodo hs
    | read_ios_step_2 =>
      cases hs
      rw [process_read_ios_step_2_nil (s := { s0 with todo := rest }) hat.r_buf_q]
      exact ⟨st, hat.of_control ((htodo ▸ hat.control).step_2 (Or.inl rfl)), .quiet⟩
    | write_ios_step_2 =>
      cases hs
      rw [process_write_ios_step_2_nil (s := { s0 with todo := rest }) hat.w_buf_q]
      exact ⟨st, hat.of_control ((htodo ▸ hat.control).step_2 (Or.inr rfl)), .quiet⟩
    | read_dma req => exact read_dma_move hat htodo hs
    | write_dma req => exact write_dma_move hat htodo hs
    | add_check_door_bell =>
      cases hs
      obtain ⟨rfl, hcb, hctrl, rfl⟩ := (htodo ▸ hat.control).add_check_door_bell
      refine ⟨.polling, ⟨?_, hat.r_buf_q, hat.w_buf_q, hat.inuse, hat.jobs, hat.outq, hat.dma⟩,
        .resumed⟩
      simp only [State.sys_add_callback_ftn, hcb, hctrl, List.nil_append]
      exact .polling (by simp [rounds])

end Tasks

/-! ## The other threads -/

/-- A step of the FTL thread changes its own memory and the page buffer. -/
structure FtlFrame (s s' : State) : Prop where
  state : s' = { s with
    ftl := s'.ftl, buf := { s.buf with page_buffer := s'.buf.page_buffer } }
  jobs : s'.ftl.rwJobs = s.ftl.rwJobs
  outq : (∀ job ∈ s.ftl.outq, job.isRw = true) → ∀ job ∈ s'.ftl.outq, job.isRw = true

theorem ftlFrame_pc {pc : FtlPc} (h : pc.job = s.ftl.pc.job) : FtlFrame s (s.setPc pc) :=
  ⟨rfl, by simp [FtlThread.rwJobs, FtlThread.jobs, State.setPc, h], fun h => h⟩

theorem mapPage_frame {lpn i : Nat} {job : FtlJob} {ops : Ppa → List NandOp}
    (hpc : s.ftl.pc.job = [job])
    (h : mapPage c s lpn (fun x => .looping job i (ops x)) = some s') : FtlFrame s s' := by
  unfold mapPage at h
  split at h
  · split at h
    · cases h
      exact ⟨rfl, rfl, fun h => h⟩
    · cases h
      refine ⟨rfl, ?_, fun h => h⟩
      simp [FtlThread.rwJobs, FtlThread.jobs, hpc]
  · cases h

theorem ftlThreadStep_frame {pick : Nat} {applet : Nat → UInt8}
    (h : ftlThreadStep c pick applet s = some s') : FtlFrame s s' := by
  unfold ftlThreadStep at h
  split at h
  · rename_i hpc
    split at h
    · cases h
      exact ⟨rfl, rfl, fun h => h⟩
    · rename_i job rest hinq
      cases h
      refine ⟨rfl, ?_, fun h => h⟩
      simp [FtlThread.rwJobs, FtlThread.jobs, hpc, hinq]
  · rename_i req i ops hpc
    unfold ftl_process_read_io at h
    simp only at h
    split at h
    · split at h
      · split at h
        · cases h
          exact ⟨rfl, by simp [FtlThread.rwJobs, FtlThread.jobs, hpc, State.setPc,
            State.setPageBuffer], fun h => h⟩
        · cases h
          exact ftlFrame_pc (by simp [hpc])
      · cases h
    · cases h
      exact ftlFrame_pc (by simp [hpc])
  · rename_i i ops hpc
    unfold process_wbc at h
    simp only at h
    split at h
    · split at h
      · exact mapPage_frame (by simp [hpc]) h
      · cases h
        exact ftlFrame_pc (by simp [hpc])
    · cases h
      exact ftlFrame_pc (by simp [hpc])
  · rename_i program start_lpn num_of_lpn i ops hpc
    unfold sync_isp_pages at h
    simp only at h
    split at h
    · split at h
      · exact mapPage_frame (by simp [hpc]) h
      · split at h
        · split at h
          · cases h
            exact ftlFrame_pc (by simp [hpc])
          · cases h
            exact ftlFrame_pc (by simp [hpc])
        · cases h
    · cases h
      exact ftlFrame_pc (by simp [hpc])
  · rename_i job hpc
    cases h
    cases job with
    | isp program start_lpn num_of_lpn =>
      refine ⟨rfl, ?_, fun h => h⟩
      simp [FtlThread.rwJobs, FtlThread.jobs, hpc, endJob, State.setPc, FtlJob.isRw]
    | read req =>
      refine ⟨rfl, ?_, fun h job hjob => ?_⟩
      · simp [FtlThread.rwJobs, FtlThread.jobs, hpc, endJob]
      · simp only [endJob, List.mem_append, List.mem_singleton] at hjob
        rcases hjob with hjob | rfl
        · exact h job hjob
        · rfl
    | flush =>
      refine ⟨rfl, ?_, fun h job hjob => ?_⟩
      · simp [FtlThread.rwJobs, FtlThread.jobs, hpc, endJob]
      · simp only [endJob, List.mem_append, List.mem_singleton] at hjob
        rcases hjob with hjob | rfl
        · exact h job hjob
        · rfl
  · rename_i job op ops hpc
    cases h
    unfold nandOp
    split
    · exact ⟨rfl, by simp [FtlThread.rwJobs, FtlThread.jobs, hpc, State.setPc],
        fun h => h⟩
    · split
      · exact ⟨rfl, by simp [FtlThread.rwJobs, FtlThread.jobs, hpc, State.setPc,
          State.setPageBuffer], fun h => h⟩
      · exact ftlFrame_pc (by simp [hpc])

theorem FtlFrame.at (h : FtlFrame s s') (hat : At s st) : At s' st := by
  obtain ⟨hs, hjobs, hout⟩ := h
  rw [hs]
  exact ⟨hat.control, hat.r_buf_q, hat.w_buf_q, hat.inuse, hjobs.trans hat.jobs, hout hat.outq,
    hat.dma⟩

/-- A step of the DMA thread leaves its job or ends it. -/
theorem dmaThreadStep_at {mem : Mem} (hat : At s st) : At (dmaThreadStep mem s) st := by
  unfold dmaThreadStep
  split
  · exact hat
  · rename_i job hdma
    simp only
    split
    · refine ⟨hat.control, hat.r_buf_q, hat.w_buf_q, hat.inuse, hat.jobs, hat.outq, ?_⟩
      rintro job' ⟨⟩
      exact hat.dma job hdma
    · exact ⟨hat.control, hat.r_buf_q, hat.w_buf_q, hat.inuse, hat.jobs, hat.outq, by simp⟩

/-! ## Every step follows the stages -/

/-- The steps of the other threads leave the logs of commands and the stored control
command alone. -/
structure SameCommands (s s' : State) : Prop where
  fetched : s'.driver.fetched = s.driver.fetched
  enqueued : s'.driver.enqueued = s.driver.enqueued
  ctrl : s'.isp.ctrl_cmd_req = s.isp.ctrl_cmd_req

theorem ftlThreadStep_same {pick : Nat} {applet : Nat → UInt8}
    (h : ftlThreadStep c pick applet s = some s') : SameCommands s s' := by
  rw [(ftlThreadStep_frame h).state]
  exact ⟨rfl, rfl, rfl⟩

theorem dmaThreadStep_same (mem : Mem) : SameCommands s (dmaThreadStep mem s) := by
  unfold dmaThreadStep
  split
  · exact ⟨rfl, rfl, rfl⟩
  · simp only
    split <;> exact ⟨rfl, rfl, rfl⟩

theorem fwStep_at {a : Action} (hat : At s st) (h : fwStep c s a = some s') :
    (∃ env st', a = .nvme env ∧ At s' st' ∧ NvmeMove c env s st st' s'.books) ∨
      At s' st ∧ SameCommands s s' := by
  cases a with
  | nvme env =>
    obtain ⟨st', hat', hmove⟩ := nvmeStep_move hat h
    exact Or.inl ⟨env, st', rfl, hat', hmove⟩
  | dma mem =>
    cases h
    exact Or.inr ⟨dmaThreadStep_at hat, dmaThreadStep_same mem⟩
  | ftl pick applet => exact Or.inr ⟨(ftlThreadStep_frame h).at hat, ftlThreadStep_same h⟩
  | isp_exit =>
    cases h
    exact Or.inr ⟨⟨hat.1, hat.2, hat.3, hat.4, hat.5, hat.6, hat.7⟩, rfl, rfl, rfl⟩
  | isp_host_dma dma_req =>
    cases h
    exact Or.inr ⟨⟨hat.1, hat.2, hat.3, hat.4, hat.5, hat.6, hat.7⟩, rfl, rfl, rfl⟩
  | isp_nand_op program start_lpn num_of_lpn =>
    cases h
    exact Or.inr ⟨⟨hat.1, hat.2, hat.3, hat.4, hat.5, hat.6, hat.7⟩, rfl, rfl, rfl⟩
  | isp_function_exited =>
    cases h
    exact Or.inr ⟨⟨hat.1, hat.2, hat.3, hat.4, hat.5, hat.6, hat.7⟩, rfl, rfl, rfl⟩
  | isp_pending_dma dma_req =>
    cases h
    exact Or.inr ⟨⟨hat.1, hat.2, hat.3, hat.4, hat.5, hat.6, hat.7⟩, rfl, rfl, rfl⟩
  | isp_msg_out msg =>
    cases h
    exact Or.inr ⟨⟨hat.1, hat.2, hat.3, hat.4, hat.5, hat.6, hat.7⟩, rfl, rfl, rfl⟩

theorem at_initialState (c : Config) (asqs acqs asq acq : Nat) (flash : Ppa → Nat → UInt8) :
    At (initialState c asqs acqs asq acq flash) .polling := by
  refine ⟨.polling (by simp [initialState, rounds]), rfl, rfl, rfl, rfl, ?_, ?_⟩
  · simp [initialState]
  · simp [initialState]

end S4Sim
