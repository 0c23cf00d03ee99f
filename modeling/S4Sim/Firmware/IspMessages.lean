-- What the NVMe thread does to the ISP driver. READ, WRITE and FLUSH leave it, and a step
-- takes at most the first message of `msg_out_q`.
import S4Sim.Firmware.MissingQueues

namespace S4Sim

variable {c : Config} {env : Env} {s s' : State} {req : Req}

/-! ## READ, WRITE and FLUSH -/

theorem isp_enqueue {q : Nat} (h : s.enqueue_io_ccmd q req = some s') : s'.isp = s.isp := by
  obtain ⟨d, -, rfl⟩ := Option.map_eq_some_iff.mp h
  rfl

@[simp] theorem process_read_ios_step_2_isp : (process_read_ios_step_2 s).isp = s.isp := by
  unfold process_read_ios_step_2
  generalize s.buf.r_buf_q = l
  induction l generalizing s with
  | nil => rfl
  | cons req l ih =>
    unfold read_ios_step_2
    split
    · rfl
    · rw [ih]
      rfl

@[simp] theorem process_write_ios_step_2_isp : (process_write_ios_step_2 c s).isp = s.isp := by
  unfold process_write_ios_step_2
  split
  · rfl
  · split <;> rfl

theorem isp_read_io (h : process_read_io c env req s = some s') : s'.isp = s.isp := by
  unfold process_read_io at h
  simp only at h
  split at h
  · obtain ⟨req1, -, rfl⟩ := Option.map_eq_some_iff.mp h
    simp
  · exact isp_enqueue h

theorem isp_write_io (h : process_write_io c env req s = some s') : s'.isp = s.isp := by
  unfold process_write_io at h
  simp only at h
  split at h
  · obtain ⟨req1, -, rfl⟩ := Option.map_eq_some_iff.mp h
    simp
  · exact isp_enqueue h

theorem isp_flush_io (h : process_flush_io env req s = some s') : s'.isp = s.isp := by
  obtain ⟨s1, hs1, rfl⟩ := Option.map_eq_some_iff.mp h
  have hisp : s1.isp = s.isp := isp_enqueue hs1
  exact hisp

/-- A step that fetches a READ or WRITE leaves the ISP driver. -/
theorem isp_of_rw (h : nvmeStep c env s = some s') (hf : fetches env s = true)
    (hrw : ((fetchOf s.driver env).isRead || (fetchOf s.driver env).isWrite) = true) :
    s'.isp = s.isp := by
  simp only [fetches, Bool.and_eq_true, beq_iff_eq] at hf
  obtain ⟨hpoll, hbell⟩ := hf
  simp only [Fetch.isRead, Fetch.isWrite, fetchOf, bne_iff_ne, ne_eq, Bool.and_eq_true,
    Bool.or_eq_true, beq_iff_eq, ← and_or_left] at hrw
  obtain ⟨hq, hop⟩ := hrw
  obtain ⟨callbacks, todo, hstep⟩ := nvmeStep_poll c env hpoll
  rw [hstep, check_door_bell, if_pos hbell] at h
  obtain ⟨d, -, h⟩ := Option.bind_eq_some_iff.mp h
  rw [if_pos hq] at h
  obtain ⟨d1, -, h⟩ := Option.bind_eq_some_iff.mp h
  rcases hop with hop | hop
  · simp only [hop] at h
    obtain ⟨req, -, h⟩ := Option.bind_eq_some_iff.mp h
    rw [isp_read_io h]
  · simp only [hop] at h
    obtain ⟨req, -, h⟩ := Option.bind_eq_some_iff.mp h
    rw [isp_write_io h]

/-! ## The messages -/

theorem messages_post_dma_msg {dma_req : IspDma} (h : post_dma_msg dma_req req s = some s') :
    s'.isp.msg_out_q = s.isp.msg_out_q := by
  rw [isp_enqueue h]

theorem messages_execute (h : execute_command c env req s = some s') :
    s'.isp.msg_out_q = s.isp.msg_out_q := by
  obtain ⟨req1, -, hs1⟩ := Option.bind_eq_some_iff.mp h
  rw [isp_enqueue hs1]

theorem messages_control (h : control_command req s = some s') :
    s'.isp.msg_out_q = s.isp.msg_out_q := by
  unfold control_command at h
  split at h
  · rw [isp_enqueue h]
  · split at h
    · rw [messages_post_dma_msg h]
    · cases h
      rfl

theorem messages_data_transfer (h : data_transfer_command c env req s = some s') :
    s'.isp.msg_out_q = s.isp.msg_out_q := by
  obtain ⟨-, -, hs1⟩ := Option.bind_eq_some_iff.mp h
  obtain ⟨req1, -, henq⟩ := Option.bind_eq_some_iff.mp hs1
  rw [isp_enqueue henq]

theorem messages_isp_io (h : process_isp_io c env req s = some s') :
    s'.isp.msg_out_q = s.isp.msg_out_q := by
  obtain ⟨s1, hs1, rfl⟩ := Option.map_eq_some_iff.mp h
  have hmsg : s1.isp.msg_out_q = s.isp.msg_out_q := by
    simp only at hs1
    split at hs1
    · exact messages_execute hs1
    · exact messages_control hs1
    · exact messages_data_transfer hs1
  exact hmsg

theorem messages_recycle (h : recycle_control_command s = some s') :
    s'.isp.msg_out_q = s.isp.msg_out_q := by
  unfold recycle_control_command at h
  split at h
  · cases h
    rfl
  · simp only at h
    split at h
    · rw [messages_post_dma_msg h]
    · split at h <;> rw [isp_enqueue h]

theorem messages_msg_cbk {msg : IspMsg} (h : msg_cbk s msg = some s') :
    s'.isp.msg_out_q = s.isp.msg_out_q := by
  unfold msg_cbk at h
  split at h
  · split at h
    · cases h
      rfl
    · rw [messages_post_dma_msg h]
  · cases h
    rfl
  · split at h
    · cases h
      rfl
    · rw [isp_enqueue h]

theorem messages_io_cmd {sqid : Nat} (h : process_io_cmd c env sqid s = some s') :
    s'.isp.msg_out_q = s.isp.msg_out_q := by
  obtain ⟨d, -, hs⟩ := Option.bind_eq_some_iff.mp h
  simp only at hs
  split at hs
  · obtain ⟨req, -, hs⟩ := Option.bind_eq_some_iff.mp hs
    rw [isp_read_io hs]
  · obtain ⟨req, -, hs⟩ := Option.bind_eq_some_iff.mp hs
    rw [isp_write_io hs]
  · obtain ⟨req, -, hs⟩ := Option.bind_eq_some_iff.mp hs
    rw [isp_flush_io hs]
  · obtain ⟨req, -, hs⟩ := Option.bind_eq_some_iff.mp hs
    rw [messages_isp_io hs]
  · obtain ⟨req, -, hs⟩ := Option.bind_eq_some_iff.mp hs
    rw [messages_isp_io hs]
  · obtain ⟨req, -, hs⟩ := Option.bind_eq_some_iff.mp hs
    rw [messages_isp_io hs]
  · cases hs
    rfl

theorem messages_check_door_bell (h : check_door_bell c env s = some s') :
    s'.isp.msg_out_q = s.isp.msg_out_q := by
  unfold check_door_bell at h
  split at h
  · obtain ⟨d, -, hs⟩ := Option.bind_eq_some_iff.mp h
    split at hs
    · rw [messages_io_cmd hs]
    · obtain ⟨d', -, rfl⟩ := Option.map_eq_some_iff.mp hs
      rfl
  · split at h
    · obtain ⟨d', -, rfl⟩ := Option.map_eq_some_iff.mp h
      rfl
    · unfold idle_poll at h
      simp only at h
      split at h
      · obtain ⟨d', -, rfl⟩ := Option.map_eq_some_iff.mp h
        split
        · split <;> rfl
        · rfl
      · cases h
        rfl

/-- A step of the NVMe thread takes at most the first message. -/
theorem nvmeStep_messages (h : nvmeStep c env s = some s') :
    s'.isp.msg_out_q <:+ s.isp.msg_out_q := by
  unfold nvmeStep at h
  split at h
  · cases h
    exact List.suffix_rfl
  · rename_i task rest htodo
    cases task with
    | callback =>
      simp only [runTask] at h
      split at h
      · cases h
        exact List.suffix_rfl
      · simp only [messages_check_door_bell h, List.suffix_rfl]
      · simp only [messages_recycle h, List.suffix_rfl]
    | msg_out =>
      simp only [runTask] at h
      split at h
      · cases h
        exact List.suffix_rfl
      · rename_i msg msgs hq
        have hq : s.isp.msg_out_q = msg :: msgs := hq
        rw [messages_msg_cbk h, hq]
        exact List.suffix_cons msg msgs
    | ftl_out =>
      simp only [runTask] at h
      split at h
      · cases h
        exact List.suffix_rfl
      · rename_i job jobs hq
        cases h
        cases job <;> exact List.suffix_rfl
    | read_ios_step_2 =>
      cases h
      simp only [process_read_ios_step_2_isp, List.suffix_rfl]
    | write_ios_step_2 =>
      cases h
      simp only [process_write_ios_step_2_isp, List.suffix_rfl]
    | read_dma req =>
      simp only [runTask] at h
      split at h
      · cases h
        exact List.suffix_rfl
      · rw [isp_enqueue h]
        exact List.suffix_rfl
    | write_dma req =>
      simp only [runTask] at h
      split at h
      · cases h
        exact List.suffix_rfl
      · rw [isp_enqueue h]
        exact List.suffix_rfl
    | add_check_door_bell =>
      cases h
      exact List.suffix_rfl

end S4Sim
