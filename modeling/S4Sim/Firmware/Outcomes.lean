-- When a step of the firmware has an outcome. The conditions are on the state before the step
-- and on what the step reads: no index is outside its array, no pointer is null, and no
-- modulus is 0.
import S4Sim.Firmware.DoorBellPolling

namespace S4Sim

/-! ## The completion queues -/

/-- The posting loop does not come to the size of a deleted queue, which is a modulus. -/
def NvmeCQueue.Postable (cq : NvmeCQueue) : Prop :=
  cq.size = 0 → cq.pending.head = cq.pending.tail

/-- A request can be written to the ring and posted. -/
def NvmeCQueue.Usable (cq : NvmeCQueue) : Prop :=
  cq.size ≠ 0 ∧ 0 < cq.pending.size ∧ cq.pending.tail < INTERNAL_IO_REQ_QUEUE

namespace Driver

variable (d : Driver)

def HasUsable (q : Nat) : Prop := q ≤ MAX_IO_SQCQ_PAIRS ∧ (d.cqs q).Usable

/-- What the loop over some completion queues needs. -/
def Retryable (L : List Nat) : Prop := ∀ q ∈ L, q ≤ MAX_IO_SQCQ_PAIRS ∧ (d.cqs q).Postable

end Driver

/-! ## The handlers -/

variable (c : Config)

/-- The PRPs of the entry decode into no more segments than the descriptor of the request
object has. -/
def Decodes (env : Env) (data_size : Nat) (obj : Req) : Prop :=
  (decode_prp c.hostPageBits env.mem env.scmd.prp1.toNat env.scmd.prp2.toNat
    { obj.dma with data_size }).isSome = true

/-- What an admin command needs: the queue that it names is in the arrays, its transfer has
room, an Abort finds a request, and the admin completion queue is there to take the answer. -/
def AdminReturns (env : Env) (d : Driver) (obj : Req) : Prop :=
  match env.scmd.opcode.toNat with
  | 0x06 => env.scmd.cns = 3 ∨ Decodes c env IdDataSize obj ∧ (d.cqs 0).Usable
  | 0x01 | 0x00 => env.scmd.qid ≤ MAX_IO_SQCQ_PAIRS ∧ (d.cqs 0).Usable
  | 0x05 => env.scmd.qid ≤ MAX_IO_SQCQ_PAIRS ∧ (env.scmd.qid = 0 ∨ (d.cqs 0).Usable)
  | 0x04 => env.scmd.qid ≤ MAX_IO_SQCQ_PAIRS ∧ env.scmd.qid ≠ 0 ∧ (d.cqs 0).Usable
  | 0x11 =>
    env.scmd.dword_off * 4 % 2 ^ 32 + (env.scmd.num_dwords + 1) * 4 % 2 ^ 32 ≤
      ISP_MAX_APPLET_BIN_SIZE ∧
    Decodes c env ((env.scmd.num_dwords + 1) * 4 % 2 ^ 32) obj ∧ (d.cqs 0).Usable
  | 0x08 => env.found = true ∧ (d.cqs 0).Usable
  | _ => (d.cqs 0).Usable

/-- What an I/O command needs, but for its completion queue. -/
def IoReturns (env : Env) (s : State) (obj : Req) : Prop :=
  match env.scmd.opcode.toNat with
  | 0x01 | 0x02 => verify_rw_param c env.scmd = true →
      Decodes c env ((env.scmd.nlbs + 1) * c.pageBytes % 2 ^ 32) obj
  | 0x80 => env.scmd.agument_size > 24 → Decodes c env env.scmd.agument_size obj
  | 0x82 => s.isp.active_dma_req.isSome = true ∧ Decodes c env env.scmd.cdw11.toNat obj
  | _ => True

/-- The queue of the door bell has a size, and there is a request object for the entry. An
opcode without a handler takes none. -/
def FetchReturns (env : Env) (s : State) : Prop :=
  env.Qindex ≤ MAX_IO_SQCQ_PAIRS ∧ (s.driver.sqs env.Qindex).size ≠ 0 ∧
    if env.Qindex = 0 then ∃ obj ∈ env.obj, AdminReturns c env s.driver obj
    else unanswered env = true ∨ (s.driver.sqs env.Qindex).cqid ≤ MAX_IO_SQCQ_PAIRS ∧
      ∃ obj ∈ env.obj, IoReturns c env s obj

def PollReturns (env : Env) (s : State) : Prop :=
  if env.DoorBell = 1 then FetchReturns c env s
  else if env.DoorBell = 2 then
    env.Qindex ≤ MAX_IO_SQCQ_PAIRS ∧ s.driver.Retryable (List.range' 1 s.driver.iocqCount)
  else
    s.idleTimeCounter + 1 ≥ 10000 → s.driver.Retryable (List.range' 1 s.driver.iocqCount)

/-- The page that the loop of the FTL thread looks up next is in `lpa_table`. -/
def LooksInTable (s : State) : Prop :=
  match s.ftl.pc with
  | .looping (.read req) i _ =>
    i ≤ req.scmd.nlbs → (req.scmd.slba + i) % 2 ^ 32 < c.g.total_num_of_pages
  | .looping .flush i _ =>
    i < WBC_PAGES ∧ 0 < s.buf.wbc.num_program_pgs → (s.buf.wbc.pages i).valid = true →
      (s.buf.wbc.pages i).lpn < c.g.total_num_of_pages
  | .looping (.isp _ start_lpn num_of_lpn) i _ =>
    i < num_of_lpn → (start_lpn + i) % 2 ^ 32 < c.g.total_num_of_pages
  | _ => True

/-- The condition on a step. -/
def HasOutcome (s : State) : Action → Prop
  | .nvme env => (aboutToPoll s = true → PollReturns c env s) ∧
      ∀ q ∈ completesTo c env s, s.driver.HasUsable q
  | .ftl .. => LooksInTable c s
  | _ => True

instance (cq : NvmeCQueue) : Decidable cq.Postable := by
  unfold NvmeCQueue.Postable
  infer_instance

instance (cq : NvmeCQueue) : Decidable cq.Usable := by
  unfold NvmeCQueue.Usable
  infer_instance

instance (d : Driver) (q : Nat) : Decidable (d.HasUsable q) := by
  unfold Driver.HasUsable
  infer_instance

instance (d : Driver) (L : List Nat) : Decidable (d.Retryable L) := by
  unfold Driver.Retryable
  infer_instance

instance (env : Env) (data_size : Nat) (obj : Req) : Decidable (Decodes c env data_size obj) := by
  unfold Decodes
  infer_instance

instance (env : Env) (d : Driver) (obj : Req) : Decidable (AdminReturns c env d obj) := by
  unfold AdminReturns
  split <;> infer_instance

instance (env : Env) (s : State) (obj : Req) : Decidable (IoReturns c env s obj) := by
  unfold IoReturns
  split <;> infer_instance

instance (env : Env) (s : State) : Decidable (FetchReturns c env s) := by
  unfold FetchReturns
  infer_instance

instance (env : Env) (s : State) : Decidable (PollReturns c env s) := by
  unfold PollReturns
  infer_instance

instance (s : State) : Decidable (LooksInTable c s) := by
  unfold LooksInTable
  split <;> infer_instance

instance (s : State) : (a : Action) → Decidable (HasOutcome c s a)
  | .nvme env => inferInstanceAs (Decidable ((aboutToPoll s = true → PollReturns c env s) ∧
      ∀ q ∈ completesTo c env s, s.driver.HasUsable q))
  | .ftl .. => inferInstanceAs (Decidable (LooksInTable c s))
  | .dma _ | .isp_exit | .isp_host_dma _ | .isp_nand_op .. | .isp_function_exited
  | .isp_pending_dma _ | .isp_msg_out _ => inferInstanceAs (Decidable True)

section Returns

variable {c : Config} {env : Env} {s : State} {d d' : Driver} {cq : NvmeCQueue} {obj req : Req}
  {q : Nat} {L : List Nat} {d0 : Driver}

theorem NvmeCQueue.Postable.of_size (h : cq.size ≠ 0) : cq.Postable := fun hzero => absurd hzero h

/-- The loop returns, and leaves a queue that can be posted again. -/
theorem NvmeCQueue.Postable.post_ccmds (h : cq.Postable) (sqhd : Req → Nat) (n : Nat) :
    ∃ cq' ps, post_ccmds sqhd cq n = some (cq', ps) ∧ cq'.Postable := by
  induction n generalizing cq with
  | zero => exact ⟨cq, [], rfl, h⟩
  | succ n ih =>
    rw [S4Sim.post_ccmds]
    by_cases hempty : cq.pending.head = cq.pending.tail
    · exact ⟨cq, [], if_pos hempty, h⟩
    · have hsize : cq.size ≠ 0 := fun hzero => hempty (h hzero)
      rw [if_neg hempty, if_neg hsize]
      by_cases hfull : cq.nvme_cq_full = true
      · exact ⟨cq, [], if_pos hfull, h⟩
      · have hnext : cq.takePending.Postable := by
          apply NvmeCQueue.Postable.of_size
          rwa [(sameQueue_takePending cq).size]
        obtain ⟨cq', ps, hpost, hagain⟩ := ih hnext
        rw [if_neg hfull, hpost]
        exact ⟨cq', _, rfl, hagain⟩

theorem NvmeCQueue.Usable.push (h : cq.Usable) (sqhd : Req → Nat) (req : Req) :
    ∃ r, (cq.pushPending req).bind (postAll sqhd) = some r := by
  obtain ⟨hsize, hpos, htail⟩ := h
  have hpush : cq.pushPending req = some { cq with pending := cq.pending.push req } :=
    if_pos ⟨htail, hpos⟩
  have hpostable : ({ cq with pending := cq.pending.push req } : NvmeCQueue).Postable :=
    .of_size hsize
  obtain ⟨cq', ps, hpost, -⟩ := hpostable.post_ccmds sqhd cq.pending.size
  rw [hpush]
  exact ⟨(cq', ps), hpost⟩

/-- The loop posts each queue, and what can be posted before can be posted after. -/
theorem Driver.Retryable.retry (h : d.Retryable L) :
    ∃ d', L.foldlM (fun d q => d.post_io_ccmds q) d = some d' := by
  induction L generalizing d with
  | nil => exact ⟨d, rfl⟩
  | cons q L ih =>
    obtain ⟨⟨hq, hpostable⟩, hrest⟩ := List.forall_mem_cons.mp h
    obtain ⟨cq', ps, hpost, hagain⟩ := hpostable.post_ccmds d.sqhd (d.cqs q).pending.size
    have hstep : d.post_io_ccmds q = some (d.store q cq' ps) := by
      unfold Driver.post_io_ccmds
      rw [if_neg (not_lt.mpr hq), postAll, hpost]
      rfl
    have hnext : (d.store q cq' ps).Retryable L := by
      intro i hi
      obtain ⟨hle, hold⟩ := hrest i hi
      refine ⟨hle, ?_⟩
      by_cases hiq : i = q
      · subst hiq
        rwa [store_cqs_self]
      · rwa [store_cqs_of_ne cq' ps hiq]
    obtain ⟨d', hd'⟩ := ih hnext
    refine ⟨d', ?_⟩
    rw [List.foldlM_cons, hstep]
    exact hd'

end Returns

end S4Sim
