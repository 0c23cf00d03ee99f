-- Rules for invariants of single queues. An invariant of a completion queue, or of a
-- submission queue with the log of fetched entries, that the writes of nvme_driver.c keep
-- is kept by every step.
import S4Sim.Firmware.DriverMoves

namespace S4Sim

variable {c : Config} {env : Env} {s s' s0 : State} {d d' d1 : Driver} {req : Req} {q n : Nat}
  {cq cq' : NvmeCQueue}

/-! ## The admin commands on queues -/

/-- The submission queue that `nvme_create_sq` sets up. -/
def createdSq (scmd : NvmeSCmd) : NvmeSQueue where
  sqid := scmd.qid
  cqid := scmd.cdw11High
  head := 0
  tail := 0
  size := scmd.qsize + 1
  hostAddr := scmd.prp1.toNat

/-- The completion queue that `nvme_create_cq` sets up. -/
def createdCq (scmd : NvmeSCmd) (cq : NvmeCQueue) : NvmeCQueue :=
  cq.setUp scmd.qid (scmd.qsize + 1) scmd.prp1.toNat scmd.ien scmd.cdw11High

/-- A submission queue after `nvme_delete_sq`. -/
def deletedSq (sq : NvmeSQueue) : NvmeSQueue :=
  { sq with sqid := 0, size := 0, hostAddr := 0, head := 0 }

/-- A completion queue after `nvme_delete_cq`. -/
def deletedCq (cq : NvmeCQueue) : NvmeCQueue :=
  { cq with
    cqid := 0, phase := false, size := 0, hostAddr := 0, irq_enabled := 0, vector := 0, head := 0 }

/-- What an admin command does to the queues before it is completed. -/
inductive QueueCommand (scmd : NvmeSCmd) (d : Driver) : Driver → Prop
  | other (hop : scmd.opcode.toNat ∉ [0x00, 0x01, 0x04, 0x05]) : QueueCommand scmd d d
  | create_sq (hop : scmd.opcode.toNat = 0x01) (hq : scmd.qid ≤ MAX_IO_SQCQ_PAIRS) :
    QueueCommand scmd d { d with
      sqs := Function.update d.sqs scmd.qid (createdSq scmd)
      iosqCount := (d.iosqCount + 1) % 2 ^ 32 }
  | create_cq (hop : scmd.opcode.toNat = 0x05) (hq : scmd.qid ≤ MAX_IO_SQCQ_PAIRS) :
    QueueCommand scmd d { d with
      cqs := Function.update d.cqs scmd.qid (createdCq scmd (d.cqs scmd.qid))
      iocqCount := (d.iocqCount + 1) % 2 ^ 32 }
  | delete_sq (hop : scmd.opcode.toNat = 0x00) (hq : scmd.qid ≤ MAX_IO_SQCQ_PAIRS) :
    QueueCommand scmd d { d with
      sqs := Function.update d.sqs scmd.qid (deletedSq (d.sqs scmd.qid))
      iosqCount := (d.iosqCount + (2 ^ 32 - 1)) % 2 ^ 32 }
  | delete_cq (hop : scmd.opcode.toNat = 0x04) (hq : scmd.qid ≤ MAX_IO_SQCQ_PAIRS) :
    QueueCommand scmd d { d with
      cqs := Function.update d.cqs scmd.qid (deletedCq (d.cqs scmd.qid))
      iocqCount := (d.iocqCount + (2 ^ 32 - 1)) % 2 ^ 32 }

/-- An admin command changes the queues that it names and enqueues its completion; an
Identify of an unknown structure does neither. -/
def AdminMove (scmd : NvmeSCmd) (d d' : Driver) : Prop :=
  ∃ d1, QueueCommand scmd d d1 ∧
    (d' = d1 ∨ ∃ req, req.sqid = 0 ∧ d1.enqueue_admin_ccmd req = some d')

theorem adminMove_of {scmd : NvmeSCmd} (h : d1.enqueue_admin_ccmd req = some d')
    (hcmd : QueueCommand scmd d d1) (hsqid : req.sqid = 0) : AdminMove scmd d d' :=
  ⟨d1, hcmd, Or.inr ⟨req, hsqid, h⟩⟩

/-- The commands without a queue: their handlers end in `enqueue_admin_ccmd`. -/
theorem adminMove_plain {scmd : NvmeSCmd} (h : d.enqueue_admin_ccmd req = some d')
    (hop : scmd.opcode.toNat ∉ [0x00, 0x01, 0x04, 0x05]) (hsqid : req.sqid = 0) :
    AdminMove scmd d d' := adminMove_of h (.other hop) hsqid

theorem admin_cmd_move {bits : Nat} (hsqid : req.sqid = 0)
    (h : admin_cmd bits env req d = some d') : AdminMove req.scmd d d' := by
  unfold admin_cmd at h
  split at h
  · rename_i hop
    unfold nvme_identify at h
    split at h
    · obtain ⟨req', hreq, h⟩ := Option.bind_eq_some_iff.mp h
      obtain ⟨dma, rfl⟩ := do_sync_dma_cases hreq
      exact adminMove_plain h (by simp [hop]) hsqid
    · obtain ⟨req', hreq, h⟩ := Option.bind_eq_some_iff.mp h
      obtain ⟨dma, rfl⟩ := do_sync_dma_cases hreq
      exact adminMove_plain h (by simp [hop]) hsqid
    · obtain ⟨req', hreq, h⟩ := Option.bind_eq_some_iff.mp h
      obtain ⟨dma, rfl⟩ := do_sync_dma_cases hreq
      exact adminMove_plain h (by simp [hop]) hsqid
    · cases h
      exact ⟨d, .other (by simp [hop]), Or.inl rfl⟩
  · rename_i hop
    unfold nvme_set_feature at h
    split at h <;> exact adminMove_plain h (by simp [hop]) hsqid
  · rename_i hop
    unfold nvme_get_feature at h
    split at h <;> exact adminMove_plain h (by simp [hop]) hsqid
  · rename_i hop
    unfold nvme_create_sq at h
    simp only at h
    split at h
    · cases h
    · rename_i hq
      exact adminMove_of h (.create_sq hop (not_lt.mp hq)) hsqid
  · rename_i hop
    unfold nvme_create_cq at h
    simp only at h
    split at h
    · cases h
    · rename_i hq
      exact adminMove_of h (.create_cq hop (not_lt.mp hq)) hsqid
  · rename_i hop
    unfold nvme_delete_sq at h
    simp only at h
    split at h
    · cases h
    · rename_i hq
      exact adminMove_of h (.delete_sq hop (not_lt.mp hq)) hsqid
  · rename_i hop
    unfold nvme_delete_cq at h
    simp only at h
    split at h
    · cases h
    · rename_i hq
      exact adminMove_of h (.delete_cq hop (not_lt.mp hq)) hsqid
  · rename_i hop
    unfold nvme_fw_download at h
    simp only at h
    split at h
    · obtain ⟨req', hreq, h⟩ := Option.bind_eq_some_iff.mp h
      obtain ⟨dma, rfl⟩ := do_sync_dma_cases hreq
      exact adminMove_plain h (by simp [hop]) hsqid
    · cases h
  · rename_i hop
    exact adminMove_plain h (by simp [hop]) hsqid
  · rename_i hop
    unfold nvme_adort_cmd at h
    split at h
    · exact adminMove_plain h (by simp [hop]) hsqid
    · cases h
  · rename_i h6 h9 ha h1 h5 h0 h4 h11 h10 h8
    refine adminMove_plain h ?_ hsqid
    simp only [List.mem_cons, List.not_mem_nil, or_false]
    rintro (hop | hop | hop | hop)
    · exact h0 hop
    · exact h1 hop
    · exact h4 hop
    · exact h5 hop

/-- The request has copies of the fields of the entry that name a queue. -/
theorem queueCommand_of_request {obj : Req}
    (h : QueueCommand (adminRequest d env.scmd obj).scmd d1 d') : QueueCommand env.scmd d1 d' := by
  cases h with
  | other hop => exact .other hop
  | create_sq hop hq => exact .create_sq hop hq
  | create_cq hop hq => exact .create_cq hop hq
  | delete_sq hop hq => exact .delete_sq hop hq
  | delete_cq hop hq => exact .delete_cq hop hq

/-- `process_admin_cmd` reads the entry at the head of queue 0 and runs its command. -/
theorem process_admin_cmd_move {bits : Nat} (h : process_admin_cmd bits env d = some d') :
    ∃ d1, d.read_scmd 0 env.scmd env.mem = some d1 ∧ AdminMove env.scmd d1 d' := by
  obtain ⟨obj, -, h⟩ := Option.bind_eq_some_iff.mp h
  obtain ⟨d1, hd1, h⟩ := Option.bind_eq_some_iff.mp h
  refine ⟨d1, hd1, ?_⟩
  obtain ⟨d2, hcmd, hend⟩ := admin_cmd_move rfl h
  exact ⟨d2, queueCommand_of_request hcmd, hend⟩

/-! ## The rule for completion queues -/

@[simp] theorem takePending_pending : cq.takePending.pending = cq.pending.pop := by
  unfold NvmeCQueue.takePending NvmeCQueue.inc_cq_tail
  split <;> rfl

/-- An invariant of the posting loop is one of its turns. -/
theorem post_ccmds_rule {P : NvmeCQueue → Prop} {sqhd : Req → Nat} {ps : List Posting}
    (take : ∀ cq, P cq → cq.pending.head ≠ cq.pending.tail → P cq.takePending) (hP : P cq)
    (h : post_ccmds sqhd cq n = some (cq', ps)) : P cq' := by
  induction n generalizing cq ps with
  | zero =>
    cases h
    exact hP
  | succ n ih =>
    unfold post_ccmds at h
    split at h
    · cases h
      exact hP
    · rename_i hne
      split at h
      · cases h
      · split at h
        · cases h
          exact hP
        · obtain ⟨⟨cq1, ps1⟩, hpost, heq⟩ := Option.map_eq_some_iff.mp h
          cases heq
          exact ih (take cq hP hne) hpost

/-- A request that a step of the NVMe thread may push to a ring: of an admin command, in
flight, or of the entry that it fetches. -/
inductive Pushes (env : Env) (s : State) (req : Req) : Prop
  | admin (hf : fetches env s = true) (hsqid : req.sqid = 0)
  | inFlight {req' : Req} (hin : req' ∈ inFlight s) (hsqid : req.sqid = req'.sqid)
  | asked (hf : fetches env s = true) (hask : IoAsk s.driver env req)

/-- The step fetches an admin entry with this opcode. -/
def FetchesAdmin (env : Env) (s : State) (opcode : Nat) : Prop :=
  fetches env s = true ∧ env.Qindex = 0 ∧ env.scmd.opcode.toNat = opcode

/-- What keeps an invariant of completion queue `q` that has had `n` requests enqueued. -/
structure CqRule (env : Env) (s : State) (P : Nat → Nat → NvmeCQueue → Prop) : Prop where
  take : ∀ {q n cq}, P q n cq → cq.pending.head ≠ cq.pending.tail → P q n cq.takePending
  push : ∀ {q n cq cq' req}, P q n cq → Pushes env s req → cq.pushPending req = some cq' →
    P q (n + 1) cq'
  release : ∀ {q n cq} (head : Nat), P q n cq → P q n { cq with head }
  create : ∀ {n cq}, FetchesAdmin env s 0x05 → P env.scmd.qid n cq →
    P env.scmd.qid n (createdCq env.scmd cq)
  delete : ∀ {n cq}, FetchesAdmin env s 0x04 → P env.scmd.qid n cq →
    P env.scmd.qid n (deletedCq cq)

/-- The invariant holds of every completion queue. -/
def EachCq (P : Nat → Nat → NvmeCQueue → Prop) (d : Driver) : Prop :=
  ∀ q, P q (d.enqueuedTo q).length (d.cqs q)

section CqRules

variable {P : Nat → Nat → NvmeCQueue → Prop} {ps : List Posting}

theorem EachCq.store (hP : EachCq P d) (h : P q (d.enqueuedTo q).length cq) :
    EachCq P (d.store q cq ps) := by
  intro i
  by_cases hi : i = q
  · subst hi
    rw [store_cqs_self]
    exact h
  · rw [store_cqs_of_ne cq ps hi]
    exact hP i

/-- The queue, with one more request in the log. -/
theorem EachCq.enqueued (hP : EachCq P d) (h : P q ((d.enqueuedTo q).length + 1) cq) :
    EachCq P { d.store q cq ps with enqueued := d.enqueued ++ [(q, req)] } := by
  intro i
  by_cases hi : i = q
  · subst hi
    have hcq : (d.store i cq ps).cqs i = cq := store_cqs_self cq ps
    simp only [hcq]
    simpa [Driver.enqueuedTo] using h
  · have hne : q ≠ i := fun he => hi he.symm
    have hcq : (d.store q cq ps).cqs i = d.cqs i := store_cqs_of_ne cq ps hi
    simp only [hcq]
    simpa [Driver.enqueuedTo, hne] using hP i

theorem EachCq.congr (hP : EachCq P d) (hcqs : d'.cqs = d.cqs) (henq : d'.enqueued = d.enqueued) :
    EachCq P d' := by
  intro i
  unfold Driver.enqueuedTo
  rw [hcqs, henq]
  exact hP i

variable (rule : CqRule env s P)

include rule

theorem CqRule.pushed {sqhd : Req → Nat} (h : P q n cq) (hreq : Pushes env s req)
    (hpush : (cq.pushPending req).bind (postAll sqhd) = some (cq', ps)) : P q (n + 1) cq' := by
  obtain ⟨cq1, hcq1, hpost⟩ := Option.bind_eq_some_iff.mp hpush
  exact post_ccmds_rule (fun _ h hne => rule.take h hne) (rule.push h hreq hcq1) hpost

theorem CqRule.enqueue_io (hP : EachCq P d) (hreq : Pushes env s req)
    (h : d.enqueue_io_ccmd q req = some d') : EachCq P d' := by
  unfold Driver.enqueue_io_ccmd at h
  split at h
  · cases h
  · obtain ⟨⟨cq, ps⟩, hcq, rfl⟩ := Option.map_eq_some_iff.mp h
    unfold NvmeCQueue.enqueueIo at hcq
    split at hcq
    · cases hcq
    · split at hcq
      · rename_i hfull
        cases hcq
        simp only [hfull, if_true]
        exact hP.store (hP q)
      · rename_i hfull
        simp only [hfull]
        exact hP.enqueued (rule.pushed (hP q) hreq hcq)

theorem CqRule.enqueue_admin (hP : EachCq P d) (hreq : Pushes env s req)
    (h : d.enqueue_admin_ccmd req = some d') : EachCq P d' := by
  obtain ⟨⟨cq, ps⟩, hcq, rfl⟩ := Option.map_eq_some_iff.mp h
  exact hP.enqueued (rule.pushed (hP 0) hreq hcq)

theorem CqRule.post_io (hP : EachCq P d) (h : d.post_io_ccmds q = some d') : EachCq P d' := by
  unfold Driver.post_io_ccmds at h
  split at h
  · cases h
  · obtain ⟨⟨cq, ps⟩, hcq, rfl⟩ := Option.map_eq_some_iff.mp h
    exact hP.store (post_ccmds_rule (fun _ h hne => rule.take h hne) (hP q) hcq)

theorem CqRule.retry {L : List Nat} (hP : EachCq P d)
    (h : L.foldlM (fun d q => d.post_io_ccmds q) d = some d') : EachCq P d' := by
  induction L generalizing d with
  | nil =>
    cases h
    exact hP
  | cons q L ih =>
    rw [List.foldlM_cons] at h
    obtain ⟨d1, hd1, hrest⟩ := Option.bind_eq_some_iff.mp h
    exact ih (rule.post_io hP hd1) hrest

theorem CqRule.setCqHead (hP : EachCq P d) (q head : Nat) : EachCq P (d.setCqHead q head) := by
  intro i
  by_cases hi : i = q
  · subst hi
    simp only [Driver.setCqHead, Function.update_self]
    exact rule.release head (hP i)
  · simp only [Driver.setCqHead, Function.update_of_ne hi]
    exact hP i

theorem CqRule.queueCommand (hP : EachCq P d) (hf : fetches env s = true) (hq : env.Qindex = 0)
    (h : QueueCommand env.scmd d d') : EachCq P d' := by
  cases h with
  | other => exact hP
  | create_sq => exact hP
  | delete_sq => exact hP
  | create_cq hop =>
    intro i
    by_cases hi : i = env.scmd.qid
    · subst hi
      simp only [Function.update_self]
      exact rule.create ⟨hf, hq, hop⟩ (hP _)
    · simp only [Function.update_of_ne hi]
      exact hP i
  | delete_cq hop =>
    intro i
    by_cases hi : i = env.scmd.qid
    · subst hi
      simp only [Function.update_self]
      exact rule.delete ⟨hf, hq, hop⟩ (hP _)
    · simp only [Function.update_of_ne hi]
      exact hP i

/-- A step keeps the invariant of every completion queue. -/
theorem CqRule.move (hP : EachCq P s.driver) (h : DriverMove c env s d') : EachCq P d' := by
  cases h with
  | same => exact hP
  | finished hreq hto hsqid h => exact rule.enqueue_io hP (.inFlight hreq hsqid) h
  | retried hpoll hbell h => exact rule.retry hP h
  | released hpoll hbell h =>
    unfold Driver.cq_door_bell at h
    split at h
    · cases h
    · exact rule.retry (rule.setCqHead hP _ _) h
  | fetched hf hq hd h =>
    have hsame := sq_door_bell_cases hd
    obtain ⟨-, -, he, hcqs⟩ := read_scmd_cases h
    exact hP.congr (hcqs.trans hsame.cqs) (he.trans hsame.enqueued)
  | answered hf hq hd hd1 hask hto h =>
    have hsame := sq_door_bell_cases hd
    obtain ⟨-, -, he, hcqs⟩ := read_scmd_cases hd1
    exact rule.enqueue_io (hP.congr (hcqs.trans hsame.cqs) (he.trans hsame.enqueued))
      (.asked hf hask) h
  | admin hf hq hd h =>
    have hsame := sq_door_bell_cases hd
    obtain ⟨d1, hd1, hmove⟩ := process_admin_cmd_move h
    rw [← hq] at hd1
    obtain ⟨-, -, he, hcqs⟩ := read_scmd_cases hd1
    have hP1 := hP.congr (hcqs.trans hsame.cqs) (he.trans hsame.enqueued)
    obtain ⟨d2, hcmd, hend⟩ := hmove
    have hP2 := rule.queueCommand hP1 hf hq hcmd
    rcases hend with rfl | ⟨req, hsqid, h⟩
    · exact hP2
    · exact rule.enqueue_admin hP2 (.admin hf hsqid) h

end CqRules

/-! ## The submission queues -/

/-- The posting functions leave the submission queues, the log of fetched entries and the
number of completion queues. -/
structure SameSqs (d d' : Driver) : Prop where
  sqs : d'.sqs = d.sqs
  fetched : d'.fetched = d.fetched
  iocqCount : d'.iocqCount = d.iocqCount

theorem SameSqs.trans {d2 : Driver} (h : SameSqs d d1) (h' : SameSqs d1 d2) : SameSqs d d2 :=
  ⟨h'.sqs.trans h.sqs, h'.fetched.trans h.fetched, h'.iocqCount.trans h.iocqCount⟩

theorem enqueue_io_sameSqs (h : d.enqueue_io_ccmd q req = some d') : SameSqs d d' := by
  unfold Driver.enqueue_io_ccmd at h
  split at h
  · cases h
  · obtain ⟨⟨cq, ps⟩, -, rfl⟩ := Option.map_eq_some_iff.mp h
    exact ⟨rfl, rfl, rfl⟩

theorem enqueue_admin_sameSqs (h : d.enqueue_admin_ccmd req = some d') : SameSqs d d' := by
  obtain ⟨⟨cq, ps⟩, -, rfl⟩ := Option.map_eq_some_iff.mp h
  exact ⟨rfl, rfl, rfl⟩

theorem retry_sameSqs {L : List Nat}
    (h : L.foldlM (fun d q => d.post_io_ccmds q) d = some d') : SameSqs d d' := by
  induction L generalizing d with
  | nil =>
    cases h
    exact ⟨rfl, rfl, rfl⟩
  | cons q L ih =>
    rw [List.foldlM_cons] at h
    obtain ⟨d1, hd1, hrest⟩ := Option.bind_eq_some_iff.mp h
    refine SameSqs.trans ?_ (ih hrest)
    unfold Driver.post_io_ccmds at hd1
    split at hd1
    · cases hd1
    · obtain ⟨⟨cq, ps⟩, -, rfl⟩ := Option.map_eq_some_iff.mp hd1
      exact ⟨rfl, rfl, rfl⟩

/-- The submission queues after the door bell in `env` and the read of its entry. -/
def sqsRead (env : Env) (d : Driver) : Nat → NvmeSQueue :=
  let sq := d.sqs env.Qindex
  Function.update d.sqs env.Qindex
    { sq with tail := env.db_value, head := (sq.head + 1) % sq.size }

/-- An entry of the submission queue `env.Qindex` is read, and if it is an admin command it
is carried out. -/
structure Fetched (env : Env) (d d' : Driver) : Prop where
  index : env.Qindex ≤ MAX_IO_SQCQ_PAIRS
  size : (d.sqs env.Qindex).size ≠ 0
  fetched : d'.fetched = d.fetched ++ [fetchOf d env]
  io : env.Qindex ≠ 0 → d'.sqs = sqsRead env d ∧ d'.iocqCount = d.iocqCount
  admin : env.Qindex = 0 → ∃ d1 d2 : Driver, d1.sqs = sqsRead env d ∧
    d1.iocqCount = d.iocqCount ∧ QueueCommand env.scmd d1 d2 ∧ d'.sqs = d2.sqs ∧
      d'.iocqCount = d2.iocqCount

/-- The door bell and the read of the entry. -/
theorem read_after_door_bell (hd : d.sq_door_bell env.Qindex env.db_value = some d1)
    (h : d1.read_scmd env.Qindex env.scmd env.mem = some d') :
    env.Qindex ≤ MAX_IO_SQCQ_PAIRS ∧ (d.sqs env.Qindex).size ≠ 0 ∧
      d'.fetched = d.fetched ++ [fetchOf d env] ∧ d'.sqs = sqsRead env d ∧
      d'.iocqCount = d.iocqCount := by
  have hsame := sq_door_bell_cases hd
  have hf := (read_scmd_cases h).1
  rw [hsame.fetched, hsame.fetchOf] at hf
  unfold Driver.sq_door_bell at hd
  split at hd
  · cases hd
  · rename_i hq
    cases hd
    obtain ⟨sq, hsq, rfl⟩ := Option.map_eq_some_iff.mp h
    simp only [inc_sq_head, Function.update_self] at hsq
    split at hsq
    · cases hsq
    · rename_i hsize
      cases hsq
      refine ⟨not_lt.mp hq, hsize, hf, ?_, rfl⟩
      simp [sqsRead]

theorem QueueCommand.enqueued {scmd : NvmeSCmd} (h : QueueCommand scmd d d') :
    d'.enqueued = d.enqueued := by
  cases h <;> rfl

theorem QueueCommand.fetched {scmd : NvmeSCmd} (h : QueueCommand scmd d d') :
    d'.fetched = d.fetched := by
  cases h <;> rfl

/-- A step leaves the submission queues, or it fetches an entry of one. -/
theorem DriverMove.sqs (h : DriverMove c env s d') :
    SameSqs s.driver d' ∨ fetches env s = true ∧ Fetched env s.driver d' := by
  cases h with
  | same => exact Or.inl ⟨rfl, rfl, rfl⟩
  | finished hreq hto hsqid h => exact Or.inl (enqueue_io_sameSqs h)
  | retried hpoll hbell h => exact Or.inl (retry_sameSqs h)
  | released hpoll hbell h =>
    unfold Driver.cq_door_bell at h
    split at h
    · cases h
    · obtain ⟨hsqs, hf, hcount⟩ := retry_sameSqs h
      exact Or.inl ⟨hsqs, hf, hcount⟩
  | fetched hf hq hd h =>
    obtain ⟨hindex, hsize, hfetched, hsqs, hcount⟩ := read_after_door_bell hd h
    exact Or.inr ⟨hf, hindex, hsize, hfetched, fun _ => ⟨hsqs, hcount⟩, fun h => absurd h hq⟩
  | answered hf hq hd hd1 hask hto h =>
    obtain ⟨hindex, hsize, hfetched, hsqs, hcount⟩ := read_after_door_bell hd hd1
    obtain ⟨hsqs', hf', hcount'⟩ := enqueue_io_sameSqs h
    exact Or.inr ⟨hf, hindex, hsize, hf'.trans hfetched,
      fun _ => ⟨hsqs'.trans hsqs, hcount'.trans hcount⟩, fun h => absurd h hq⟩
  | admin hf hq hd h =>
    obtain ⟨d1, hd1, d2, hcmd, hend⟩ := process_admin_cmd_move h
    rw [← hq] at hd1
    obtain ⟨hindex, hsize, hfetched, hsqs, hcount⟩ := read_after_door_bell hd hd1
    obtain ⟨hsqs', hf', hcount'⟩ : SameSqs d2 d' := by
      rcases hend with rfl | ⟨req, -, h⟩
      · exact ⟨rfl, rfl, rfl⟩
      · exact enqueue_admin_sameSqs h
    exact Or.inr ⟨hf, hindex, hsize, (hf'.trans hcmd.fetched).trans hfetched,
      fun h => absurd hq h, fun _ => ⟨d1, d2, hsqs, hcount, hcmd, hsqs', hcount'⟩⟩

end S4Sim
