-- The law of completions: every entry that is fetched gets one completion in the
-- completion queue of its submission queue, or its request is still in one place of the
-- firmware. Four kinds of steps break it: a handler that posts nothing (`unknown_io_cmd`,
-- and `nvme_identify` without a default), a full ring of pending completions, an entry of a
-- submission queue whose completion queue does not have the id of its index, and an entry
-- whose handler has no outcome, as an Abort of identifiers that no request object has.
import S4Sim.Firmware.Outcomes
import S4Sim.Lib.Custody

open Custody Runs

namespace S4Sim

/-! ## The places of a request -/

def FtlJob.readReq : FtlJob → Option Req
  | .read req => some req
  | _ => none

def Task.dmaReq : Task → Option Req
  | .read_dma req | .write_dma req => some req
  | _ => none

/-- The requests that the firmware still has to complete. -/
def inFlight (s : State) : List Req :=
  s.buf.r_buf_q ++ s.buf.w_buf_q ++ s.ftl.jobs.filterMap FtlJob.readReq ++
    s.todo.filterMap Task.dmaReq ++ s.isp.ctrl_cmd_req.toList

def completionsOf (s : State) (f : Fetch) : List (Nat × Req) :=
  s.driver.enqueued.filter fun e => e.2.uid == f.uid

/-- The queue that the completion of the entry goes to. -/
def completionQueue (d : Driver) (env : Env) : Nat :=
  if env.Qindex = 0 then 0 else ioCqid d env

variable (c : Config)

/-- The entry has a handler that answers it, and its completion queue has the id of its
index. A request that `enqueue_admin_ccmd` pushes to a full ring is lost with the ring. -/
def Answerable (s : State) (env : Env) : Prop :=
  unanswered env = false ∧ completionQueue s.driver env = (s.driver.sqs env.Qindex).cqid ∧
    (env.Qindex = 0 → (s.driver.cqs 0).pendingFull = false)

/-- The step has an outcome, a fetched entry is answerable, and the ring of a completion has
room. -/
def Answers (s : State) : Action → Prop
  | .nvme env => HasOutcome c s (.nvme env) ∧ (fetches env s = true → Answerable s env) ∧
      ∀ q ∈ completesTo c env s, (s.driver.cqs q).pendingFull = false
  | a => HasOutcome c s a

instance (s : State) (env : Env) : Decidable (Answerable s env) := by
  unfold Answerable
  infer_instance

instance (s : State) : (a : Action) → Decidable (Answers c s a)
  | .nvme env => inferInstanceAs (Decidable (HasOutcome c s (.nvme env) ∧
      (fetches env s = true → Answerable s env) ∧
      ∀ q ∈ completesTo c env s, (s.driver.cqs q).pendingFull = false))
  | .ftl pick applet => inferInstanceAs (Decidable (HasOutcome c s (.ftl pick applet)))
  | .dma _ | .isp_exit | .isp_host_dma _ | .isp_nand_op .. | .isp_function_exited
  | .isp_pending_dma _ | .isp_msg_out _ => inferInstanceAs (Decidable True)

/-! ## The invariant -/

/-- What identifies a command: its number, its cid and its completion queue. -/
abbrev CommandKey := Nat × UInt16 × Nat

def Fetch.key (f : Fetch) : CommandKey := (f.uid, f.scmd.cid, f.cqid)

def Req.key (req : Req) : CommandKey := (req.uid, req.scmd.cid, req.cqid)

def doneKey (e : Nat × Req) : CommandKey := (e.2.uid, e.2.scmd.cid, e.1)

/-- The fetched commands are those with a completion and those in hand. -/
structure Books.Balanced (b : Books) (st : Stage) : Prop where
  balanced : Custody.Balanced (b.fetched.map Fetch.key) (b.enqueued.map doneKey)
    ((st.held ++ b.ctrl_cmd_req.toList).map Req.key)
  uids : b.fetched.map Fetch.uid = List.range b.fetched.length

section Steps

variable {c : Config} {s s' : State} {st st' : Stage} {env : Env} {req : Req} {f : Fetch}

theorem filterMap_readReq (l : List FtlJob) :
    l.filterMap FtlJob.readReq = (l.filter FtlJob.isRw).filterMap FtlJob.readReq := by
  induction l with
  | nil => rfl
  | cons job l ih =>
    cases job <;> simp [List.filterMap_cons, List.filter_cons, FtlJob.readReq, FtlJob.isRw, ih]

/-- At a stage, the requests in flight are those that the stage has. -/
theorem At.inFlight_eq (h : At s st) : inFlight s = st.held ++ s.isp.ctrl_cmd_req.toList := by
  have hcontrol := h.control
  unfold inFlight
  rw [h.r_buf_q, h.w_buf_q, filterMap_readReq, show s.ftl.jobs.filter _ = _ from h.jobs]
  generalize s.callbacks = callbacks at hcontrol
  generalize s.todo = todo at hcontrol ⊢
  generalize s.isp.ctrl_cmd_req = ctrl at hcontrol ⊢
  cases hcontrol with
  | polling hr | recycling hr | programming hr | loading hr | stopped hr =>
    simp only [rounds, List.mem_cons, List.not_mem_nil, or_false] at hr
    rcases hr with rfl | rfl | rfl | rfl <;>
      simp [Stage.jobs, Stage.held, FtlJob.readReq, Task.dmaReq]
  | resuming hr =>
    simp only [resumptions, List.mem_cons, List.not_mem_nil, or_false] at hr
    rcases hr with rfl | rfl | rfl | rfl | rfl <;>
      simp [Stage.jobs, Stage.held, Task.dmaReq]
  | receiving | received | sending =>
    simp [Stage.jobs, Stage.held, FtlJob.readReq, Task.dmaReq]

theorem uids_snoc {fetched : List Fetch} (h : fetched.map Fetch.uid = List.range fetched.length)
    (hf : f.uid = fetched.length) :
    (fetched ++ [f]).map Fetch.uid = List.range (fetched ++ [f]).length := by
  simp [List.range_succ, h, hf]

theorem IoAsk.key (h : IoAsk s.driver env req)
    (hcq : completionQueue s.driver env = (s.driver.sqs env.Qindex).cqid) :
    req.key = (fetchOf s.driver env).key := by
  simp only [completionQueue, if_neg h.qindex] at hcq
  simp [Req.key, Fetch.key, fetchOf, h.uid, h.cid, h.cqid, hcq]

theorem enqueuedAfter_room {d : Driver} {q : Nat} (h : (d.cqs q).pendingFull = false) :
    d.enqueuedAfter q req = d.enqueued ++ [(q, req)] := by
  simp [Driver.enqueuedAfter, h]

theorem Books.Balanced.congr {b b' : Books} (h : b.Balanced st) (hf : b'.fetched = b.fetched)
    (he : b'.enqueued = b.enqueued) (hc : b'.ctrl_cmd_req = b.ctrl_cmd_req)
    (hst : st'.held = st.held) : b'.Balanced st' := by
  obtain ⟨hbal, huids⟩ := h
  exact ⟨by rwa [hf, he, hc, hst], by rwa [hf]⟩

/-- A fetched entry that is completed at once. -/
theorem Books.Balanced.answered {b b' : Books} {e : Nat × Req} (h : b.Balanced .polling)
    (hf : b'.fetched = b.fetched ++ [f]) (huid : f.uid = b.fetched.length)
    (he : b'.enqueued = b.enqueued ++ [e]) (hkey : doneKey e = f.key)
    (hc : b'.ctrl_cmd_req = b.ctrl_cmd_req) (hst : st'.held = []) : b'.Balanced st' := by
  obtain ⟨hbal, huids⟩ := h
  refine ⟨?_, by rw [hf]; exact uids_snoc huids huid⟩
  rw [hf, he, hc, hst, List.map_append, List.map_append, List.map_singleton, List.map_singleton,
    hkey]
  exact hbal.answer f.key

/-- A fetched entry whose request the firmware keeps. -/
theorem Books.Balanced.taken {b b' : Books} (h : b.Balanced .polling)
    (hf : b'.fetched = b.fetched ++ [f]) (huid : f.uid = b.fetched.length)
    (he : b'.enqueued = b.enqueued) (hkey : req.key = f.key)
    (hheld : (st'.held ++ b'.ctrl_cmd_req.toList).Perm (req :: b.ctrl_cmd_req.toList)) :
    b'.Balanced st' := by
  obtain ⟨hbal, huids⟩ := h
  refine ⟨?_, by rw [hf]; exact uids_snoc huids huid⟩
  rw [hf, he, List.map_append, List.map_singleton, ← hkey]
  exact (hbal.take req.key).reorder (hheld.map Req.key)

/-- A request in hand that is completed. -/
theorem Books.Balanced.finished {b b' : Books} {e : Nat × Req} (h : b.Balanced st) (req : Req)
    (hf : b'.fetched = b.fetched) (he : b'.enqueued = b.enqueued ++ [e])
    (hkey : doneKey e = req.key)
    (hheld : st.held ++ b.ctrl_cmd_req.toList = req :: (st'.held ++ b'.ctrl_cmd_req.toList)) :
    b'.Balanced st' := by
  obtain ⟨hbal, huids⟩ := h
  refine ⟨?_, by rwa [hf]⟩
  rw [hf, he, List.map_append, List.map_singleton, hkey]
  rw [hheld, List.map_cons] at hbal
  exact hbal.finish

/-- A move whose step meets the condition keeps the balance. -/
theorem NvmeMove.balanced {b : Books} (hmove : NvmeMove c env s st st' b)
    (hctrl : st ≠ .polling → s.isp.ctrl_cmd_req = none) (hok : Answers c s (.nvme env))
    (h : s.books.Balanced st) : b.Balanced st' := by
  obtain ⟨-, hfetch, hroom⟩ := hok
  cases hmove with
  | quiet => exact h
  | shutdown => exact h.congr rfl rfl rfl rfl
  | isp_job => exact h.congr rfl rfl rfl rfl
  | unanswered hf hun =>
    have := (hfetch hf).1
    rw [hun] at this
    cases this
  | @admin req hf hq huid hcid hcq =>
    obtain ⟨-, hcq, -⟩ := hfetch hf
    refine h.answered rfl rfl rfl ?_ rfl rfl
    simp only [completionQueue, if_pos hq] at hcq
    simp [doneKey, Fetch.key, fetchOf, huid, hcid, ← hcq]
  | @answered req hf hto hask =>
    refine h.answered rfl rfl (enqueuedAfter_room (hroom _ hto)) ?_ rfl rfl
    exact hask.key (hfetch hf).2.1
  | @rejected req hf hto hask hrw hbad =>
    refine h.answered rfl rfl (enqueuedAfter_room (hroom _ hto)) ?_ rfl rfl
    exact hask.key (hfetch hf).2.1
  | @stored req hf hask hnone =>
    refine h.taken rfl rfl rfl (hask.key (hfetch hf).2.1) ?_
    simp [Stage.held, State.books, hnone]
  | @recycled req dw0 hreq hto =>
    refine h.finished req rfl (enqueuedAfter_room (hroom _ hto)) rfl ?_
    simp [Stage.held, State.books, hreq]
  | @write req hf hask hop =>
    refine h.taken rfl rfl rfl (hask.toIoAsk.key (hfetch hf).2.1) ?_
    simp [Stage.held, State.books]
  | @read req hf hask hop =>
    refine h.taken rfl rfl rfl (hask.toIoAsk.key (hfetch hf).2.1) ?_
    simp [Stage.held, State.books]
  | @received req hdma hto =>
    refine h.finished req rfl (enqueuedAfter_room (hroom _ hto)) rfl ?_
    simp [Stage.held, State.books]
  | programmed => exact h.congr rfl rfl rfl rfl
  | loaded => exact h.congr rfl rfl rfl rfl
  | @sent req hdma hto =>
    refine h.finished req rfl (enqueuedAfter_room (hroom _ hto)) rfl ?_
    simp [Stage.held, State.books]
  | resumed => exact h.congr rfl rfl rfl rfl

/-- When the next entry is looked for, nothing is in flight. -/
theorem At.inFlight_nil (h : At s st) (hpoll : aboutToPoll s = true) : inFlight s = [] := by
  have hcontrol := h.control
  rw [h.inFlight_eq]
  unfold aboutToPoll at hpoll
  generalize s.callbacks = callbacks at hcontrol hpoll
  generalize s.todo = todo at hcontrol hpoll
  generalize s.isp.ctrl_cmd_req = ctrl at hcontrol ⊢
  split at hpoll
  · cases hcontrol
    rfl
  · cases hpoll

end Steps

/-! ## The law -/

/-- A step in which the host rings no door bell. -/
def noRing : Env := { ringFor 0 0 (readBlock 0) with DoorBell := 0 }

/-- The READ of a block that was never written, from its door bell to the next poll. -/
def readOnce : List Action :=
  roundFor (ringFor 1 1 (readBlock 1)) ++ List.replicate 4 (.ftl 0 fun _ => 0) ++
    roundFor noRing ++ List.replicate 2 (.dma fun _ => 0) ++ List.replicate 5 (.nvme noRing)

end S4Sim
