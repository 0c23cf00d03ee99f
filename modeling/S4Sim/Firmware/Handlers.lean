-- The command handlers as moves: what `check_door_bell` does at a door bell, for an
-- I/O entry with each of its handlers, for an admin entry, and when it is idle.
import S4Sim.Firmware.Stages

namespace S4Sim

variable {c : Config} {env : Env} {s s' s0 : State} {d d' d0 : Driver} {req : Req} {st : Stage}

/-! ## The logs of the driver -/

/-- `d'` differs from `d` in queues and postings only, and in the enqueued requests. -/
structure Enqueued (d d' : Driver) (enqueued : List (Nat × Req)) : Prop where
  fetched : d'.fetched = d.fetched
  transfers : d'.transfers = d.transfers
  enqueued : d'.enqueued = enqueued

theorem enqueue_io_cases {q : Nat} (h : s.enqueue_io_ccmd q req = some s') :
    ∃ d', s' = { s with driver := d' } ∧
      Enqueued s.driver d' (s.driver.enqueuedAfter q req) := by
  obtain ⟨d', hd, rfl⟩ := Option.map_eq_some_iff.mp h
  refine ⟨d', rfl, ?_⟩
  unfold Driver.enqueue_io_ccmd at hd
  split at hd
  · cases hd
  · obtain ⟨⟨cq, ps⟩, -, rfl⟩ := Option.map_eq_some_iff.mp hd
    exact ⟨rfl, rfl, rfl⟩

theorem enqueue_admin_cases (h : d.enqueue_admin_ccmd req = some d') :
    Enqueued d d' (d.enqueued ++ [(0, req)]) := by
  obtain ⟨⟨cq, ps⟩, -, rfl⟩ := Option.map_eq_some_iff.mp h
  exact ⟨rfl, rfl, rfl⟩

theorem post_io_cases {q : Nat} (h : d.post_io_ccmds q = some d') :
    Enqueued d d' d.enqueued := by
  unfold Driver.post_io_ccmds at h
  split at h
  · cases h
  · obtain ⟨⟨cq, ps⟩, -, rfl⟩ := Option.map_eq_some_iff.mp h
    exact ⟨rfl, rfl, rfl⟩

theorem retry_cases {L : List Nat}
    (h : L.foldlM (fun d q => d.post_io_ccmds q) d = some d') : Enqueued d d' d.enqueued := by
  induction L generalizing d with
  | nil =>
    cases h
    exact ⟨rfl, rfl, rfl⟩
  | cons q L ih =>
    rw [List.foldlM_cons] at h
    obtain ⟨d1, hd1, hrest⟩ := Option.bind_eq_some_iff.mp h
    obtain ⟨hf, ht, he⟩ := post_io_cases hd1
    obtain ⟨hf', ht', he'⟩ := ih hrest
    exact ⟨hf'.trans hf, ht'.trans ht, he'.trans he⟩

theorem cq_door_bell_cases {q head : Nat} (h : d.cq_door_bell q head = some d') :
    Enqueued d d' d.enqueued := by
  unfold Driver.cq_door_bell at h
  split at h
  · cases h
  · obtain ⟨hf, ht, he⟩ := retry_cases h
    exact ⟨hf, ht, he⟩

/-- The tail of a submission queue is new; the fields that a fetch reads are not. -/
structure SameFetch (env : Env) (d d' : Driver) : Prop where
  fetched : d'.fetched = d.fetched
  transfers : d'.transfers = d.transfers
  enqueued : d'.enqueued = d.enqueued
  cqs : d'.cqs = d.cqs
  fetchOf : fetchOf d' env = fetchOf d env
  ioCqid : ioCqid d' env = ioCqid d env

theorem SameFetch.cqid (h : SameFetch env d d') :
    (d'.sqs env.Qindex).cqid = (d.sqs env.Qindex).cqid := congrArg Fetch.cqid h.fetchOf

theorem SameFetch.head (h : SameFetch env d d') :
    (d'.sqs env.Qindex).head = (d.sqs env.Qindex).head := congrArg Fetch.sqe h.fetchOf

/-- The request of the handlers is that of the driver before the door bell. -/
theorem SameFetch.request (h : SameFetch env d d') {f : Req → Option State}
    (hf : (env.obj.bind (ioRequest d' env.Qindex)).bind f = some s') :
    ∃ req obj, ioRequest d env.Qindex obj = some req ∧ f req = some s' := by
  obtain ⟨req, hreq, hf⟩ := Option.bind_eq_some_iff.mp hf
  obtain ⟨obj, -, hreq⟩ := Option.bind_eq_some_iff.mp hreq
  refine ⟨req, obj, ?_, hf⟩
  rw [← hreq]
  simp only [ioRequest, h.cqid, h.head, h.cqs, h.fetched]

theorem sq_door_bell_cases (h : d.sq_door_bell env.Qindex env.db_value = some d') :
    SameFetch env d d' := by
  unfold Driver.sq_door_bell at h
  split at h
  · cases h
  · cases h
    refine ⟨rfl, rfl, rfl, rfl, ?_, ?_⟩
    · simp [S4Sim.fetchOf]
    · simp [S4Sim.ioCqid]

theorem read_scmd_cases (h : d.read_scmd env.Qindex env.scmd env.mem = some d') :
    d'.fetched = d.fetched ++ [fetchOf d env] ∧ d'.transfers = d.transfers ∧
      d'.enqueued = d.enqueued ∧ d'.cqs = d.cqs := by
  obtain ⟨sq, -, rfl⟩ := Option.map_eq_some_iff.mp h
  exact ⟨rfl, rfl, rfl, rfl⟩

/-! ## A submission entry of an I/O queue -/

/-- `s` is the state `s0` in `check_door_bell`, after the entry is read. -/
structure Polled (c : Config) (env : Env) (s0 s : State) : Prop where
  at_stopped : At s .stopped
  callbacks : s.callbacks = []
  todo : s.todo = [.msg_out, .ftl_out]
  books : s.books = { s0.books with fetched := s0.driver.fetched ++ [fetchOf s0.driver env] }
  cqs : s.driver.cqs = s0.driver.cqs
  isp : s.isp = s0.isp
  ctrl : s0.isp.ctrl_cmd_req = none
  qindex : env.Qindex ≠ 0
  fetches : fetches env s0 = true
  completes : completesAtOnce c env s0 = true →
    completesTo c env s0 = some (ioCqid s0.driver env)

theorem Polled.enqueuedAfter (h : Polled c env s0 s) (q : Nat) (req : Req) :
    s.driver.enqueuedAfter q req = s0.driver.enqueuedAfter q req := by
  have henq : s.driver.enqueued = s0.driver.enqueued := congrArg Books.enqueued h.books
  unfold Driver.enqueuedAfter
  rw [h.cqs, henq]

/-- The books after a request was enqueued and the stored control command is `ctrl`. -/
theorem Polled.books_enqueued (h : Polled c env s0 s) {d' : Driver} {isp : Isp}
    {callbacks : List Callback} {q : Nat}
    (henq : Enqueued s.driver d' (s.driver.enqueuedAfter q req)) (hctrl : isp.ctrl_cmd_req = none) :
    State.books { s with driver := d', isp, callbacks } =
      { s0.books with
        fetched := s0.driver.fetched ++ [fetchOf s0.driver env]
        enqueued := s0.driver.enqueuedAfter q req } := by
  have hb := h.books
  obtain ⟨hf, ht, he⟩ := henq
  rw [h.enqueuedAfter] at he
  simp only [State.books, Books.mk.injEq] at hb ⊢
  obtain ⟨b1, -, b3, -, b5, b6, b7, b8⟩ := hb
  exact ⟨hf.trans b1, he, ht.trans b3, hctrl.trans h.ctrl.symm, b5, b6, b7, b8⟩

theorem at_polling (h : At s .stopped) (htodo : s.todo ∈ rounds) {d' : Driver} (isp : Isp)
    (hctrl : isp.ctrl_cmd_req = none) :
    At { s with driver := d', isp, callbacks := [.check_door_bell] } .polling := by
  refine ⟨?_, h.r_buf_q, h.w_buf_q, h.inuse, h.jobs, h.outq, h.dma⟩
  show Control _ _ _ isp.ctrl_cmd_req
  rw [hctrl]
  exact .polling htodo

theorem Polled.todo_mem (h : Polled c env s0 s) : s.todo ∈ rounds := by
  simp [h.todo, rounds]

theorem Polled.ctrl_none (h : Polled c env s0 s) : s.isp.ctrl_cmd_req = none := by
  rw [h.isp, h.ctrl]

/-- The handler has completed the request and queues the poll again. -/
theorem Polled.answered (h : Polled c env s0 s) (req : Req) (isp : Isp)
    (hat : completesAtOnce c env s0 = true) {d' : Driver}
    (henq : Enqueued s.driver d' (s.driver.enqueuedAfter req.cqid req))
    (hask : IoAsk s0.driver env req) (hctrl : isp.ctrl_cmd_req = none)
    (hs : s' = { s with driver := d', isp, callbacks := [.check_door_bell] }) :
    ∃ st, At s' st ∧ NvmeMove c env s0 .polling st s'.books := by
  subst hs
  refine ⟨.polling, at_polling h.at_stopped h.todo_mem isp hctrl, ?_⟩
  rw [h.books_enqueued henq hctrl]
  exact .answered h.fetches (hask.cqid ▸ h.completes hat) hask

/-- The handler has completed the request and does not queue the poll. -/
theorem Polled.rejected (h : Polled c env s0 s) (req : Req)
    (hat : completesAtOnce c env s0 = true) (hask : IoAsk s0.driver env req)
    (hs : s.enqueue_io_ccmd req.cqid req = some s')
    (hrw : (fetchOf s0.driver env).isRead || (fetchOf s0.driver env).isWrite)
    (hbad : verify_rw_param c env.scmd = false) :
    ∃ st, At s' st ∧ NvmeMove c env s0 .polling st s'.books := by
  obtain ⟨d', rfl, henq⟩ := enqueue_io_cases hs
  have hst := h.at_stopped
  refine ⟨.stopped, ⟨hst.control, hst.r_buf_q, hst.w_buf_q, hst.inuse, hst.jobs, hst.outq, hst.dma⟩,
    ?_⟩
  rw [show State.books { s with driver := d' } = _ from h.books_enqueued henq h.ctrl_none]
  exact .rejected h.fetches (hask.cqid ▸ h.completes hat) hask hrw hbad

theorem ioRequest_cases {sqid : Nat} {obj : Req} (h : ioRequest d sqid obj = some req) :
    req.uid = d.fetched.length ∧ req.sqid = sqid ∧ req.cqid = (d.cqs (d.sqs sqid).cqid).cqid ∧
      req.status = 0 := by
  unfold ioRequest at h
  dsimp only at h
  split at h
  · cases h
  · cases h
    exact ⟨rfl, rfl, rfl, rfl⟩

theorem ioAsk_of {obj req' : Req} (h : ioRequest d env.Qindex obj = some req)
    (hq : env.Qindex ≠ 0) (huid : req'.uid = req.uid) (hcqid : req'.cqid = req.cqid)
    (hstatus : req'.status = req.status) (hcid : req'.scmd.cid = env.scmd.cid)
    (hsqid : req'.sqid = req.sqid) : IoAsk d env req' := by
  obtain ⟨hu, hs, hc, hst⟩ := ioRequest_cases h
  exact ⟨huid.trans hu, hcqid.trans hc, hcid, hstatus.trans hst, hq, hsqid.trans hs⟩

theorem process_flush_io_move (h : Polled c env s0 s) {obj : Req}
    (hreq : ioRequest s0.driver env.Qindex obj = some req) (hop : env.scmd.opcode.toNat = 0x00)
    (hs : process_flush_io env req s = some s') :
    ∃ st, At s' st ∧ NvmeMove c env s0 .polling st s'.books := by
  obtain ⟨s1, hs1, rfl⟩ := Option.map_eq_some_iff.mp hs
  obtain ⟨d', rfl, henq⟩ := enqueue_io_cases hs1
  refine h.answered _ s.isp (by simp [completesAtOnce, hop]) henq
    (ioAsk_of hreq h.qindex rfl rfl rfl rfl rfl)
    h.ctrl_none ?_
  simp [State.sys_add_callback_ftn, h.callbacks]

theorem do_sync_dma_cases {bits n : Nat} {req' : Req} (h : do_sync_dma bits env n req = some req') :
    ∃ dma, req' = { req with dma } := by
  obtain ⟨⟨dma, ok⟩, -, rfl⟩ := Option.map_eq_some_iff.mp h
  exact ⟨dma, rfl⟩

theorem execute_command_cases (h : execute_command c env req s = some s') :
    ∃ dma, State.enqueue_io_ccmd
      { s with isp := { s.isp with function_exited := false, ctrl_cmd_req := none } } req.cqid
      { req with dma, ccmd_dw0 := 1 } = some s' := by
  obtain ⟨req1, hreq1, henq⟩ := Option.bind_eq_some_iff.mp h
  obtain ⟨dma, rfl⟩ : ∃ dma, req1 = { req with dma } := by
    split at hreq1
    · exact do_sync_dma_cases hreq1
    · cases hreq1
      exact ⟨_, rfl⟩
  exact ⟨dma, henq⟩

theorem execute_command_move (h : Polled c env s0 s) (hask : IoAsk s0.driver env req)
    (hop : env.scmd.opcode.toNat = 0x80) {s1 : State}
    (hs1 : execute_command c env req s = some s1) :
    ∃ st, At (s1.sys_add_callback_ftn .check_door_bell) st ∧
      NvmeMove c env s0 .polling st (s1.sys_add_callback_ftn .check_door_bell).books := by
  obtain ⟨dma, henq1⟩ := execute_command_cases hs1
  obtain ⟨d', rfl, henq⟩ := enqueue_io_cases henq1
  refine h.answered { req with dma, ccmd_dw0 := 1 }
    { s.isp with function_exited := false, ctrl_cmd_req := none }
    (by simp [completesAtOnce, hop]) henq
    ⟨hask.uid, hask.cqid, hask.cid, hask.status, hask.qindex, hask.sqid⟩ rfl ?_
  simp [State.sys_add_callback_ftn, h.callbacks]

theorem control_command_move (h : Polled c env s0 s) (hask : IoAsk s0.driver env req)
    (hop : env.scmd.opcode.toNat = 0x81) {s1 : State} (hs1 : control_command req s = some s1) :
    ∃ st, At (s1.sys_add_callback_ftn .check_door_bell) st ∧
      NvmeMove c env s0 .polling st (s1.sys_add_callback_ftn .check_door_bell).books := by
  unfold control_command at hs1
  split at hs1
  · rename_i hexit
    obtain ⟨d', rfl, henq⟩ := enqueue_io_cases hs1
    refine h.answered { req with ccmd_dw0 := 0 } s.isp ?_ henq
      ⟨hask.uid, hask.cqid, hask.cid, hask.status, hask.qindex, hask.sqid⟩ h.ctrl_none ?_
    · simp [completesAtOnce, hop, ← h.isp, hexit]
    · simp [State.sys_add_callback_ftn, h.callbacks]
  · split at hs1
    · rename_i dma_req rest hpend
      obtain ⟨d', rfl, henq⟩ := enqueue_io_cases hs1
      refine h.answered { req with ccmd_dw0 := dma_req.request_code }
        { s.isp with pending_dma := rest, active_dma_req := some dma_req } ?_ henq
        ⟨hask.uid, hask.cqid, hask.cid, hask.status, hask.qindex, hask.sqid⟩ h.ctrl_none ?_
      · simp [completesAtOnce, hop, ← h.isp, hpend]
      · simp [State.sys_add_callback_ftn, h.callbacks]
    · -- The command is stored, and its recycling is queued before the poll.
      cases hs1
      have hst := h.at_stopped
      refine ⟨.polling, ⟨?_, hst.r_buf_q, hst.w_buf_q, hst.inuse, hst.jobs, hst.outq, hst.dma⟩, ?_⟩
      · simp only [State.sys_add_callback_ftn, h.callbacks, List.nil_append]
        exact .recycling h.todo_mem
      · have hb := h.books
        simp only [State.books, Books.mk.injEq] at hb
        obtain ⟨b1, b2, b3, -, b5, b6, b7, b8⟩ := hb
        simp only [State.sys_add_callback_ftn, State.books, b1, b2, b3, b5, b6, b7, b8]
        exact .stored h.fetches hask h.ctrl

theorem data_transfer_command_move (h : Polled c env s0 s) (hask : IoAsk s0.driver env req)
    (hop : env.scmd.opcode.toNat = 0x82) {s1 : State}
    (hs1 : data_transfer_command c env req s = some s1) :
    ∃ st, At (s1.sys_add_callback_ftn .check_door_bell) st ∧
      NvmeMove c env s0 .polling st (s1.sys_add_callback_ftn .check_door_bell).books := by
  obtain ⟨-, -, hs1⟩ := Option.bind_eq_some_iff.mp hs1
  obtain ⟨req1, hreq1, henq1⟩ := Option.bind_eq_some_iff.mp hs1
  obtain ⟨dma, rfl⟩ := do_sync_dma_cases hreq1
  obtain ⟨d', rfl, henq⟩ := enqueue_io_cases henq1
  refine h.answered { req with dma } s.isp (by simp [completesAtOnce, hop]) henq
    ⟨hask.uid, hask.cqid, hask.cid, hask.status, hask.qindex, hask.sqid⟩ h.ctrl_none ?_
  simp [State.sys_add_callback_ftn, h.callbacks]

theorem process_isp_io_move (h : Polled c env s0 s) {obj : Req}
    (hreq : ioRequest s0.driver env.Qindex obj = some req)
    (hop : env.scmd.opcode.toNat = 0x80 ∨ env.scmd.opcode.toNat = 0x81 ∨
      env.scmd.opcode.toNat = 0x82)
    (hs : process_isp_io c env req s = some s') :
    ∃ st, At s' st ∧ NvmeMove c env s0 .polling st s'.books := by
  have hask : IoAsk s0.driver env { req with scmd := { req.scmd with
      cid := env.scmd.cid, nsid := env.scmd.nsid, prp1 := env.scmd.prp1,
      prp2 := env.scmd.prp2 } } := ioAsk_of hreq h.qindex rfl rfl rfl rfl rfl
  obtain ⟨s1, hs1, rfl⟩ := Option.map_eq_some_iff.mp hs
  rcases hop with hop | hop | hop
  · simp only [hop] at hs1
    exact execute_command_move h hask hop hs1
  · simp only [hop] at hs1
    exact control_command_move h hask hop hs1
  · simp only [hop] at hs1
    exact data_transfer_command_move h hask hop hs1

/-! ### READ and WRITE -/

theorem rwJobs_push (t : FtlThread) (job : FtlJob) :
    FtlThread.rwJobs { t with inq := t.inq ++ [job] } =
      t.rwJobs ++ [job].filter FtlJob.isRw := by
  simp [FtlThread.rwJobs, FtlThread.jobs, List.filter_append]

theorem rwAsk_of {obj req' : Req} (h : ioRequest d env.Qindex obj = some req)
    (hq : env.Qindex ≠ 0) (hok : verify_rw_param c env.scmd = true)
    (hdec : decodeRw c env (copyScmd env.scmd req) = some req') : RwAsk c d env req' := by
  obtain ⟨⟨dma, ok⟩, hdma, rfl⟩ := Option.map_eq_some_iff.mp hdec
  exact ⟨ioAsk_of h hq rfl rfl rfl rfl rfl, hok, rfl, rfl, _, ok, rfl, hdma⟩

theorem process_read_io_move (h : Polled c env s0 s) {obj : Req}
    (hreq : ioRequest s0.driver env.Qindex obj = some req) (hop : env.scmd.opcode.toNat = 0x02)
    (hs : process_read_io c env req s = some s') :
    ∃ st, At s' st ∧ NvmeMove c env s0 .polling st s'.books := by
  have hread : (fetchOf s0.driver env).isRead = true := by
    simp [Fetch.isRead, fetchOf, h.qindex, hop]
  have hst := h.at_stopped
  unfold process_read_io at hs
  simp only at hs
  split at hs
  · rename_i hok
    obtain ⟨req1, hdec, rfl⟩ := Option.map_eq_some_iff.mp hs
    have hnew : process_read_ios_step_2 { s with buf := { s.buf with
        r_buf_q := s.buf.r_buf_q ++ [req1] } } =
        { s with
          buf := { s.buf with r_buf_q := [], page_buffer_inuse := true }
          ftl := { s.ftl with inq := s.ftl.inq ++ [.read req1] } } := by
      simp [process_read_ios_step_2, read_ios_step_2, hst.r_buf_q, hst.inuse, Stage.inuse,
        State.get_read_io_buffer, State.sys_push_to_ftl]
    rw [hnew]
    refine ⟨.loading req1, ⟨?_, rfl, hst.w_buf_q, rfl, ?_, hst.outq, hst.dma⟩, ?_⟩
    · simp only [h.callbacks, h.ctrl_none]
      exact .loading h.todo_mem
    · rw [rwJobs_push, hst.jobs]
      rfl
    · have hb := h.books
      simp only [State.books, Books.mk.injEq] at hb
      obtain ⟨b1, b2, b3, b4, b5, b6, b7, b8⟩ := hb
      simp only [State.books, b1, b2, b3, b4, b5, b6, b7, b8]
      exact .read h.fetches (rwAsk_of hreq h.qindex hok hdec) hread
  · rename_i hbad
    have hbad := Bool.eq_false_of_not_eq_true hbad
    exact h.rejected (copyScmd env.scmd req) (by simp [completesAtOnce, hop, hbad])
      (ioAsk_of hreq h.qindex rfl rfl rfl rfl rfl) hs (by simp [hread]) hbad

theorem process_write_io_move (h : Polled c env s0 s) {obj : Req}
    (hreq : ioRequest s0.driver env.Qindex obj = some req) (hop : env.scmd.opcode.toNat = 0x01)
    (hs : process_write_io c env req s = some s') :
    ∃ st, At s' st ∧ NvmeMove c env s0 .polling st s'.books := by
  have hwrite : (fetchOf s0.driver env).isWrite = true := by
    simp [Fetch.isWrite, fetchOf, h.qindex, hop]
  have hst := h.at_stopped
  unfold process_write_io at hs
  simp only at hs
  split at hs
  · rename_i hok
    obtain ⟨req1, hdec, rfl⟩ := Option.map_eq_some_iff.mp hs
    have hnew : process_write_ios_step_2 c { s with buf := { s.buf with
        w_buf_q := s.buf.w_buf_q ++ [req1] } } =
        { s with
          todo := .write_dma req1 :: s.todo
          dma := some ⟨req1, false, 0, 0⟩
          buf := { s.buf with
            w_buf_q := []
            page_buffer_inuse := true
            wbc := ⟨req1.scmd.nlbs + 1, State.wbcPages c req1 s.buf.wbc.pages⟩ } } := by
      simp [process_write_ios_step_2, hst.w_buf_q, hst.inuse, Stage.inuse,
        State.get_write_io_buffer]
    rw [hnew]
    refine ⟨.receiving req1, ⟨?_, hst.r_buf_q, rfl, rfl, hst.jobs, hst.outq, ?_⟩, ?_⟩
    · simp only [h.callbacks, h.ctrl_none, h.todo]
      exact .receiving
    · rintro job ⟨⟩
      rfl
    · have hb := h.books
      simp only [State.books, Books.mk.injEq] at hb
      obtain ⟨b1, b2, b3, b4, b5, b6, b7, b8⟩ := hb
      simp only [State.books, b1, b2, b3, b4, b5, b6, b8]
      exact .write h.fetches (rwAsk_of hreq h.qindex hok hdec) hwrite
  · rename_i hbad
    have hbad := Bool.eq_false_of_not_eq_true hbad
    exact h.rejected (copyScmd env.scmd req) (by simp [completesAtOnce, hop, hbad])
      (ioAsk_of hreq h.qindex rfl rfl rfl rfl rfl) hs (by simp [hwrite]) hbad

/-! ### The door bells -/

theorem Control.ctrl_none {todo : List Task} {ctrl : Option Req}
    (h : Control st [.check_door_bell] todo ctrl) : ctrl = none := by
  cases h
  rfl

theorem process_io_cmd_move (hat : At s0 .polling) (hcb : s0.callbacks = [.check_door_bell])
    (htodo : s0.todo = [.callback, .msg_out, .ftl_out]) (hbell : env.DoorBell = 1)
    (hq : env.Qindex ≠ 0) (hd : s0.driver.sq_door_bell env.Qindex env.db_value = some d)
    (hs : process_io_cmd c env env.Qindex { s0 with
      callbacks := [], todo := [.msg_out, .ftl_out], driver := d } = some s') :
    ∃ st, At s' st ∧ NvmeMove c env s0 .polling st s'.books := by
  have hctrl : s0.isp.ctrl_cmd_req = none := (hcb ▸ hat.control).ctrl_none
  have hsame := sq_door_bell_cases hd
  obtain ⟨d1, hd1, hs⟩ := Option.bind_eq_some_iff.mp hs
  obtain ⟨hf, ht, he, hc⟩ := read_scmd_cases hd1
  have hp : Polled c env s0 { s0 with
      callbacks := [], todo := [.msg_out, .ftl_out], driver := d1 } := by
    refine ⟨⟨?_, hat.r_buf_q, hat.w_buf_q, hat.inuse, hat.jobs, hat.outq, hat.dma⟩, rfl, rfl, ?_,
      hc.trans hsame.cqs, rfl, hctrl, hq, by simp [fetches, aboutToPoll, htodo, hcb, hbell], ?_⟩
    · simp only [hctrl]
      exact .stopped (by simp [rounds])
    · simp only [State.books, hf, ht, he, hsame.fetched, hsame.transfers, hsame.enqueued,
        hsame.fetchOf]
    · intro hat
      simp [completesTo, htodo, hcb, hbell, hq, hat]
  simp only at hs
  split at hs
  · rename_i hop
    obtain ⟨req, obj, hr, hs⟩ := hsame.request hs
    exact process_read_io_move hp hr hop hs
  · rename_i hop
    obtain ⟨req, obj, hr, hs⟩ := hsame.request hs
    exact process_write_io_move hp hr hop hs
  · rename_i hop
    obtain ⟨req, obj, hr, hs⟩ := hsame.request hs
    exact process_flush_io_move hp hr hop hs
  · rename_i hop
    obtain ⟨req, obj, hr, hs⟩ := hsame.request hs
    exact process_isp_io_move hp hr (Or.inl hop) hs
  · rename_i hop
    obtain ⟨req, obj, hr, hs⟩ := hsame.request hs
    exact process_isp_io_move hp hr (Or.inr (Or.inl hop)) hs
  · rename_i hop
    obtain ⟨req, obj, hr, hs⟩ := hsame.request hs
    exact process_isp_io_move hp hr (Or.inr (Or.inr hop)) hs
  · rename_i h2 h1 h0 h80 h81 h82
    cases hs
    have hall : unanswered env = true := by simp_all [unanswered]
    refine ⟨.polling, at_polling hp.at_stopped hp.todo_mem s0.isp hctrl, ?_⟩
    have hb := hp.books
    simp only [State.books, Books.mk.injEq] at hb
    obtain ⟨b1, b2, b3, -⟩ := hb
    simp only [unknown_io_cmd, State.sys_add_callback_ftn, State.books, b1, b2, b3]
    exact .unanswered hp.fetches hall

/-- An admin handler has enqueued a completion for the command. -/
def AdminAnswer (d : Driver) (req : Req) (d' : Driver) : Prop :=
  ∃ req' : Req, Enqueued d d' (d.enqueued ++ [(0, req')]) ∧ req'.uid = req.uid ∧
    req'.scmd.cid = req.scmd.cid ∧ req'.cqid = req.cqid

theorem adminAnswer_of {d1 : Driver} {req' : Req} (h : d1.enqueue_admin_ccmd req' = some d')
    (hf : d1.fetched = d.fetched) (ht : d1.transfers = d.transfers)
    (he : d1.enqueued = d.enqueued) (huid : req'.uid = req.uid)
    (hcid : req'.scmd.cid = req.scmd.cid) (hcqid : req'.cqid = req.cqid) :
    AdminAnswer d req d' := by
  obtain ⟨hf', ht', he'⟩ := enqueue_admin_cases h
  exact ⟨req', ⟨hf'.trans hf, ht'.trans ht, by rw [he', he]⟩, huid, hcid, hcqid⟩

theorem nvme_identify_cases {bits : Nat} (h : nvme_identify bits env req d = some d') :
    (req.scmd.cns = 3 ∧ d' = d) ∨ AdminAnswer d req d' := by
  have hanswer : (do_sync_dma bits env IdDataSize req).bind d.enqueue_admin_ccmd = some d' →
      AdminAnswer d req d' := by
    intro h
    obtain ⟨req', hreq, h⟩ := Option.bind_eq_some_iff.mp h
    obtain ⟨dma, rfl⟩ := do_sync_dma_cases hreq
    exact adminAnswer_of h rfl rfl rfl rfl rfl rfl
  unfold nvme_identify at h
  split at h
  · exact Or.inr (hanswer h)
  · exact Or.inr (hanswer h)
  · exact Or.inr (hanswer h)
  · rename_i h1 h0 h2
    cases h
    refine Or.inl ⟨?_, rfl⟩
    have hlt : req.scmd.cns < 4 := Nat.mod_lt _ (by decide)
    have h1 : req.scmd.cns ≠ 1 := h1
    have h0 : req.scmd.cns ≠ 0 := h0
    have h2 : req.scmd.cns ≠ 2 := h2
    omega

/-- Every admin handler but that of an unknown Identify enqueues a completion. -/
theorem admin_cmd_cases {bits : Nat} (h : admin_cmd bits env req d = some d') :
    (req.scmd.opcode.toNat = 0x06 ∧ req.scmd.cns = 3 ∧ d' = d) ∨ AdminAnswer d req d' := by
  unfold admin_cmd at h
  split at h
  · rename_i hop
    rcases nvme_identify_cases h with ⟨hcns, hd⟩ | hans
    · exact Or.inl ⟨hop, hcns, hd⟩
    · exact Or.inr hans
  · unfold nvme_set_feature at h
    right
    split at h <;> exact adminAnswer_of h rfl rfl rfl rfl rfl rfl
  · unfold nvme_get_feature at h
    right
    split at h <;> exact adminAnswer_of h rfl rfl rfl rfl rfl rfl
  · unfold nvme_create_sq at h
    simp only at h
    split at h
    · cases h
    · exact Or.inr (adminAnswer_of h rfl rfl rfl rfl rfl rfl)
  · unfold nvme_create_cq at h
    simp only at h
    split at h
    · cases h
    · exact Or.inr (adminAnswer_of h rfl rfl rfl rfl rfl rfl)
  · unfold nvme_delete_sq at h
    simp only at h
    split at h
    · cases h
    · exact Or.inr (adminAnswer_of h rfl rfl rfl rfl rfl rfl)
  · unfold nvme_delete_cq at h
    simp only at h
    split at h
    · cases h
    · exact Or.inr (adminAnswer_of h rfl rfl rfl rfl rfl rfl)
  · unfold nvme_fw_download at h
    simp only at h
    split at h
    · obtain ⟨req', hreq, h⟩ := Option.bind_eq_some_iff.mp h
      obtain ⟨dma, rfl⟩ := do_sync_dma_cases hreq
      exact Or.inr (adminAnswer_of h rfl rfl rfl rfl rfl rfl)
    · cases h
  · exact Or.inr (adminAnswer_of h rfl rfl rfl rfl rfl rfl)
  · unfold nvme_adort_cmd at h
    split at h
    · exact Or.inr (adminAnswer_of h rfl rfl rfl rfl rfl rfl)
    · cases h
  · exact Or.inr (adminAnswer_of h rfl rfl rfl rfl rfl rfl)

theorem process_admin_cmd_cases {bits : Nat} (hq : env.Qindex = 0)
    (h : process_admin_cmd bits env d = some d') :
    d'.fetched = d.fetched ++ [fetchOf d env] ∧ d'.transfers = d.transfers ∧
      ((unanswered env = true ∧ d'.enqueued = d.enqueued) ∨
        ∃ req : Req, d'.enqueued = d.enqueued ++ [(0, req)] ∧ req.uid = d.fetched.length ∧
          req.scmd.cid = env.scmd.cid ∧ req.cqid = 0) := by
  obtain ⟨obj, -, h⟩ := Option.bind_eq_some_iff.mp h
  obtain ⟨d1, hd1, h⟩ := Option.bind_eq_some_iff.mp h
  rw [← hq] at hd1
  obtain ⟨hf, ht, he, -⟩ := read_scmd_cases hd1
  rcases admin_cmd_cases h with ⟨hop, hcns, rfl⟩ | ⟨req', ⟨hf', ht', he'⟩, huid, hcid, hcqid⟩
  · refine ⟨hf, ht, Or.inl ⟨?_, he⟩⟩
    have hop : env.scmd.opcode.toNat = 0x06 := hop
    have hcns : env.scmd.cns = 3 := hcns
    simp [unanswered, hq, hop, hcns]
  · exact ⟨hf'.trans hf, ht'.trans ht, Or.inr ⟨req', by rw [he', he], huid, hcid, hcqid⟩⟩

theorem idle_poll_move (hat : At s0 .polling) (hcb : s0.callbacks = [.check_door_bell])
    (hs : idle_poll c env { s0 with callbacks := [], todo := [.msg_out, .ftl_out] } = some s') :
    At s' .polling ∧ NvmeMove c env s0 .polling .polling s'.books := by
  have hctrl : s0.isp.ctrl_cmd_req = none := (hcb ▸ hat.control).ctrl_none
  have hpoll : ∀ todo ∈ rounds, Control .polling [.check_door_bell] todo s0.isp.ctrl_cmd_req := by
    intro todo htodo
    rw [hctrl]
    exact .polling htodo
  have hrest : [Task.msg_out, .ftl_out] ∈ rounds := by simp [rounds]
  unfold idle_poll at hs
  simp only at hs
  split at hs
  · obtain ⟨d', hd', rfl⟩ := Option.map_eq_some_iff.mp hs
    obtain ⟨hf, ht, he⟩ := retry_cases hd'
    split
    · rename_i hshn
      split
      · -- The store spins: the poll is being run again.
        refine ⟨⟨hpoll _ (by simp [rounds]), hat.r_buf_q, hat.w_buf_q, hat.inuse, hat.jobs,
          hat.outq, hat.dma⟩, .quiet⟩
      · refine ⟨⟨hpoll _ hrest, hat.r_buf_q, hat.w_buf_q, hat.inuse, hat.jobs, hat.outq, hat.dma⟩,
          ?_⟩
        simp only [State.books, hf, ht, he]
        exact .shutdown hshn
    · refine ⟨⟨hpoll _ hrest, hat.r_buf_q, hat.w_buf_q, hat.inuse, hat.jobs, hat.outq, hat.dma⟩, ?_⟩
      simp only [State.books, hf, ht, he]
      exact .quiet
  · cases hs
    exact ⟨⟨hpoll _ hrest, hat.r_buf_q, hat.w_buf_q, hat.inuse, hat.jobs, hat.outq, hat.dma⟩,
      .quiet⟩

theorem check_door_bell_move (hat : At s0 .polling) (hcb : s0.callbacks = [.check_door_bell])
    (htodo : s0.todo = [.callback, .msg_out, .ftl_out])
    (hs : check_door_bell c env { s0 with callbacks := [], todo := [.msg_out, .ftl_out] } =
      some s') :
    ∃ st, At s' st ∧ NvmeMove c env s0 .polling st s'.books := by
  have hctrl : s0.isp.ctrl_cmd_req = none := (hcb ▸ hat.control).ctrl_none
  have hat' : ∀ d, At ({ s0 with callbacks := [], todo := [.msg_out, .ftl_out], driver := d
      }.sys_add_callback_ftn .check_door_bell) .polling := by
    intro d
    refine ⟨?_, hat.r_buf_q, hat.w_buf_q, hat.inuse, hat.jobs, hat.outq, hat.dma⟩
    simp only [State.sys_add_callback_ftn, List.nil_append, hctrl]
    exact .polling (by simp [rounds])
  unfold check_door_bell at hs
  split at hs
  · rename_i hbell
    obtain ⟨d, hd, hs⟩ := Option.bind_eq_some_iff.mp hs
    split at hs
    · rename_i hq
      exact process_io_cmd_move hat hcb htodo hbell hq hd hs
    · rename_i hq
      have hq : env.Qindex = 0 := not_not.mp hq
      have hfetch : fetches env s0 = true := by simp [fetches, aboutToPoll, htodo, hcb, hbell]
      obtain ⟨d', hd', rfl⟩ := Option.map_eq_some_iff.mp hs
      have hsame := sq_door_bell_cases hd
      obtain ⟨hf, ht, hcases⟩ := process_admin_cmd_cases hq hd'
      rw [hsame.fetched, hsame.fetchOf] at hf
      rw [hsame.transfers] at ht
      refine ⟨.polling, hat' d', ?_⟩
      rcases hcases with ⟨hun, he⟩ | ⟨req, he, huid, hcid, hcqid⟩
      · rw [hsame.enqueued] at he
        simp only [State.sys_add_callback_ftn, State.books, hf, ht, he]
        exact .unanswered hfetch hun
      · rw [hsame.enqueued] at he
        rw [hsame.fetched] at huid
        simp only [State.sys_add_callback_ftn, State.books, hf, ht, he]
        exact .admin hfetch hq huid hcid hcqid
  · split at hs
    · obtain ⟨d', hd', rfl⟩ := Option.map_eq_some_iff.mp hs
      obtain ⟨hf, ht, he⟩ := cq_door_bell_cases hd'
      refine ⟨.polling, hat' d', ?_⟩
      simp only [State.sys_add_callback_ftn, State.books, hf, ht, he]
      exact .quiet
    · exact ⟨.polling, idle_poll_move hat hcb hs⟩

end S4Sim
