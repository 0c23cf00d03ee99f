-- Progress of the firmware: a run in which the three threads keep taking steps comes to the
-- next poll. `Stage.work` counts the steps that are left, and `Stage.turn` is the thread that
-- has to take the next of them. Only a device without a free page keeps the FTL thread.
import S4Sim.Firmware.OneCompletion
import S4Sim.Firmware.TableSteps
import S4Sim.Ftl.Capacity
import S4Sim.Lib.Fairness

open Fairness Relation Runs

namespace S4Sim

/-! ## The threads -/

/-- The threads that the NVMe thread waits for, and itself. It does not wait for an applet. -/
inductive Thread
  | nvme
  | dma
  | ftl

def Action.thread : Action → Option Thread
  | .nvme _ => some .nvme
  | .dma _ => some .dma
  | .ftl .. => some .ftl
  | _ => none

/-! ## The work that is left -/

/-- The turns of the loop that builds the flash operation. -/
def FtlJob.turns : FtlJob → Nat
  | .read req => req.scmd.nlbs + 1
  | .flush => WBC_PAGES
  | .isp _ _ num_of_lpn => num_of_lpn

/-- A turn adds at most one page, and each page of the operation ends in one step. -/
def FtlPc.work : FtlPc → Nat
  | .idle => 0
  | .looping job i ops => 2 * (job.turns - i) + ops.length + 2
  | .waiting _ ops => ops.length + 1

/-- The work up to the end of the first READ or write back. -/
def jobsWork : List FtlJob → Nat
  | [] => 0
  | job :: rest => 2 * job.turns + 3 + if job.isRw then 0 else jobsWork rest

namespace FtlThread

/-- The work up to the end of the READ or write back in hand, with `more` jobs behind `inq`. -/
def work (t : FtlThread) (more : List FtlJob) : Nat :=
  t.pc.work + if t.pc.job.any FtlJob.isRw then 0 else jobsWork (t.inq ++ more)

end FtlThread

/-- The segments that are left, and the step that ends the transfer. -/
def dmaWork (s : State) : Nat :=
  match s.dma with
  | none => 0
  | some job => job.req.dma.n_ops - job.ix + 1

namespace Stage

/-- The steps up to `ftl_out`, or the work of the FTL thread before it. -/
def ftlWait (s : State) : Nat :=
  if s.ftl.outq.isEmpty then s.ftl.work [] + 4 else (s.todo.length + 3) % 4 + 1

/-- The work up to the next poll. A round has four steps, and a stored control command one
more round. -/
def work (s : State) : Stage → Nat
  | polling => 4 * (s.callbacks.length - 1) + (s.todo.length + 1) % 4
  | resuming => s.todo.length + 1
  | sending _ => dmaWork s + 5
  | loading req => ftlWait s + req.dma.n_ops + 6
  | programming _ => ftlWait s + 4
  | receiving _ => dmaWork s + s.ftl.work [.flush] + 9
  | stopped => 0

/-- The thread that has to move. -/
def turn (s : State) : Stage → Thread
  | loading _ | programming _ => if s.ftl.outq.isEmpty then .ftl else .nvme
  | sending _ | receiving _ => if s.dma.isSome then .dma else .nvme
  | _ => .nvme

end Stage

/-- The stage that the memory shows. Nothing is left of the request of a WRITE that the FTL has. -/
def stageOf (s : State) : Stage :=
  match s.todo with
  | .write_dma req :: _ => .receiving req
  | .read_dma req :: _ => .sending req
  | todo =>
    if todo.any Task.isAdd then .resuming
    else
      match s.ftl.rwJobs with
      | .read req :: _ => .loading req
      | _ :: _ => .programming zeroReq
      | [] => if s.callbacks.isEmpty then .stopped else .polling

/-- The steps that are left up to the next poll, those of a thread that waits apart. -/
def workLeft (s : State) : Nat := (stageOf s).work s

/-! ## The condition on a step -/

/-- The job maps pages. -/
def FtlJob.programs : FtlJob → Bool
  | .read _ => false
  | .flush => true
  | .isp program _ _ => program

/-- A step of the loop of a job that maps pages finds a free page on the device. -/
def FindsPage (c : Config) (s : State) : Action → Prop
  | .ftl .. =>
    (match s.ftl.pc with
      | .looping job _ _ => job.programs
      | _ => false) = true → 0 < s.ftl.ftl.devicePagesWith c.g isFree
  | _ => True

instance (c : Config) (s : State) : (a : Action) → Decidable (FindsPage c s a)
  | .ftl .. => inferInstanceAs (Decidable ((match s.ftl.pc with
      | .looping job _ _ => job.programs
      | _ => false) = true → 0 < s.ftl.ftl.devicePagesWith c.g isFree))
  | .nvme _ | .dma _ | .isp_exit | .isp_host_dma _ | .isp_nand_op .. | .isp_function_exited
  | .isp_pending_dma _ | .isp_msg_out _ =>
    inferInstanceAs (Decidable True)

section Ftl

variable {c : Config} {s s' : State} {st : Stage} {a pick : Nat} {applet : Nat → UInt8}
  {l more : List FtlJob}

theorem jobsWork_append (h : l.any FtlJob.isRw = true) : jobsWork (l ++ more) = jobsWork l := by
  induction l with
  | nil => simp at h
  | cons job l ih =>
    simp only [List.cons_append, jobsWork]
    by_cases hjob : job.isRw = true
    · simp [hjob]
    · rw [ih (by simpa [hjob] using h)]

/-! ## The FTL thread -/

/-- A step of the FTL thread has no job, does a part of its work, or ends the READ or the
write back in hand. -/
inductive FtlTurn (more : List FtlJob) (t t' : FtlThread) : Prop
  | idle (hpc : t.pc = .idle) (hinq : t.inq = []) (heq : t' = t)
  | worked (hout : t'.outq = t.outq) (hlt : t'.work more < t.work more)
  | ended {job : FtlJob} (hpos : 0 < t.work more) (hout : t'.outq = t.outq ++ [job])

/-- The loop goes on with the same job. -/
theorem ftlTurn_pc {t t' : FtlThread} (hjob : t'.pc.job = t.pc.job) (hinq : t'.inq = t.inq)
    (hout : t'.outq = t.outq) (hlt : t'.pc.work < t.pc.work) : FtlTurn more t t' := by
  apply FtlTurn.worked hout
  unfold FtlThread.work
  rw [hjob, hinq]
  exact Nat.add_lt_add_right hlt _

theorem mapPage_turn {lpn i : Nat} {job : FtlJob} {ops : List NandOp} {op : Ppa → NandOp}
    (hgood : Good c.g s.ftl.ftl a) (ha : a < c.g.total_num_of_pages)
    (hpc : s.ftl.pc = .looping job i ops) (hi : i < job.turns)
    (h : mapPage c s lpn (fun x => .looping job (i + 1) (ops ++ [op x])) = some s') :
    FtlTurn more s.ftl s'.ftl := by
  unfold mapPage at h
  split at h
  · rename_i hlpn
    obtain ⟨ftl, hftl⟩ := ftlStep_returns (.make_new_mapping ⟨lpn, hlpn⟩) hgood ha
    obtain ⟨⟨x, t⟩, hmap, -⟩ := Option.map_eq_some_iff.mp hftl
    have hmap : make_new_mapping c.g s.ftl.ftl lpn = some (x, t) := hmap
    rw [hmap] at h
    cases h
    apply ftlTurn_pc
    · simp [hpc]
    · rfl
    · rfl
    · simp only [hpc, FtlPc.work, List.length_append, List.length_singleton]
      omega
  · cases h

/-- The thread takes the next job. -/
theorem take_turn {job : FtlJob} {rest : List FtlJob} (hpc : s.ftl.pc = .idle)
    (hinq : s.ftl.inq = job :: rest) :
    FtlTurn more s.ftl { s.ftl with inq := rest, pc := .looping job 0 [] } := by
  refine .worked rfl ?_
  simp only [FtlThread.work, hpc, hinq, FtlPc.work, FtlPc.job_idle, FtlPc.job_looping,
    List.cons_append, jobsWork, List.any_cons, List.any_nil, Bool.or_false, List.length_nil,
    Nat.sub_zero, Bool.false_eq_true, if_false]
  omega

/-- The loop goes on to the next page, with one more operation or without. -/
theorem loop_turn {job : FtlJob} {i : Nat} {ops ops' : List NandOp} {t : State}
    (ht : t.ftl = s.ftl) (hpc : s.ftl.pc = .looping job i ops) (hi : i < job.turns)
    (hlen : ops'.length ≤ ops.length + 1) :
    FtlTurn more s.ftl (t.setPc (.looping job (i + 1) ops')).ftl := by
  refine ftlTurn_pc (by simp [State.setPc, hpc]) (by simp [State.setPc, ht])
    (by simp [State.setPc, ht]) ?_
  simp only [State.setPc, hpc, FtlPc.work]
  omega

/-- The loop ends. -/
theorem wait_turn {job : FtlJob} {i : Nat} {ops : List NandOp}
    (hpc : s.ftl.pc = .looping job i ops) :
    FtlTurn more s.ftl (s.setPc (.waiting job ops)).ftl := by
  refine ftlTurn_pc (by simp [State.setPc, hpc]) rfl rfl ?_
  simp only [State.setPc, hpc, FtlPc.work]
  omega

theorem read_turn {req : Req} {i : Nat} {ops : List NandOp}
    (hpc : s.ftl.pc = .looping (.read req) i ops)
    (h : ftl_process_read_io c req i ops s = some s') : FtlTurn more s.ftl s'.ftl := by
  unfold ftl_process_read_io at h
  simp only at h
  split at h
  · rename_i hi
    have hturns : i < FtlJob.turns (.read req) := Nat.lt_succ_of_le hi
    split at h
    · split at h
      · cases h
        exact loop_turn rfl hpc hturns (Nat.le_succ _)
      · cases h
        exact loop_turn rfl hpc hturns (by simp)
    · cases h
  · cases h
    exact wait_turn hpc

theorem flush_turn {i : Nat} {ops : List NandOp} (hgood : Good c.g s.ftl.ftl a)
    (hfree : a < c.g.total_num_of_pages) (hpc : s.ftl.pc = .looping .flush i ops)
    (h : process_wbc c i ops s = some s') : FtlTurn more s.ftl s'.ftl := by
  unfold process_wbc at h
  simp only at h
  split at h
  · rename_i hi
    split at h
    · exact mapPage_turn hgood hfree hpc hi.1 h
    · cases h
      exact loop_turn rfl hpc hi.1 (Nat.le_succ _)
  · cases h
    exact wait_turn hpc

theorem isp_turn {program : Bool} {start_lpn num_of_lpn i : Nat} {ops : List NandOp}
    (hgood : Good c.g s.ftl.ftl a) (hfree : program = true → a < c.g.total_num_of_pages)
    (hpc : s.ftl.pc = .looping (.isp program start_lpn num_of_lpn) i ops)
    (h : sync_isp_pages c program start_lpn num_of_lpn i ops s = some s') :
    FtlTurn more s.ftl s'.ftl := by
  unfold sync_isp_pages at h
  simp only at h
  split at h
  · rename_i hi
    split at h
    · rename_i hprogram
      exact mapPage_turn hgood (hfree hprogram) hpc hi h
    · split at h
      · split at h
        · cases h
          exact loop_turn rfl hpc hi (Nat.le_succ _)
        · cases h
          exact loop_turn rfl hpc hi (by simp)
      · cases h
  · cases h
    exact wait_turn hpc

theorem endJob_turn {job : FtlJob} (hpc : s.ftl.pc = .waiting job []) :
    FtlTurn more s.ftl (endJob job s).ftl := by
  cases job with
  | isp program start_lpn num_of_lpn =>
    refine .worked rfl ?_
    simp [FtlThread.work, hpc, endJob, State.setPc, FtlPc.work, FtlJob.isRw]
  | read req => exact .ended (by simp [FtlThread.work, hpc, FtlPc.work]) rfl
  | flush => exact .ended (by simp [FtlThread.work, hpc, FtlPc.work]) rfl

/-- A page of the operation ends. -/
theorem nandOp_turn {job : FtlJob} {op next : NandOp} {ops : List NandOp} {k : Nat}
    (hpc : s.ftl.pc = .waiting job (op :: ops)) (hk : k < (op :: ops).length) :
    FtlTurn more s.ftl
      ((nandOp c applet next s).setPc (.waiting job ((op :: ops).eraseIdx k))).ftl := by
  have hlen := List.length_eraseIdx_of_lt hk
  refine ftlTurn_pc (by simp [State.setPc, hpc]) ?_ ?_ ?_
  · unfold nandOp
    split
    · rfl
    · split <;> rfl
  · unfold nandOp
    split
    · rfl
    · split <;> rfl
  · simp only [State.setPc, hpc, FtlPc.work, hlen]
    simp

theorem ftlThreadStep_turn (more : List FtlJob) (hready : Ready c.g s.ftl.ftl a)
    (hok : FindsPage c s (.ftl pick applet)) (h : ftlThreadStep c pick applet s = some s') :
    FtlTurn more s.ftl s'.ftl := by
  have hfree : ∀ job i ops, s.ftl.pc = .looping job i ops → job.programs = true →
      a < c.g.total_num_of_pages := by
    intro job i ops hpc hjob
    have hpos : 0 < s.ftl.ftl.devicePagesWith c.g isFree := hok (by rw [hpc]; exact hjob)
    have := hready.free
    omega
  unfold ftlThreadStep at h
  split at h
  · rename_i hpc
    split at h
    · rename_i hinq
      cases h
      exact .idle hpc hinq rfl
    · rename_i job rest hinq
      cases h
      exact take_turn hpc hinq
  · rename_i req i ops hpc
    exact read_turn hpc h
  · rename_i i ops hpc
    exact flush_turn hready.good (hfree _ _ _ hpc rfl) hpc h
  · rename_i program start_lpn num_of_lpn i ops hpc
    exact isp_turn hready.good (fun hprogram => hfree _ _ _ hpc hprogram) hpc h
  · rename_i job hpc
    cases h
    exact endJob_turn hpc
  · rename_i job op ops hpc
    cases h
    exact nandOp_turn hpc (Nat.mod_lt _ (by simp))

end Ftl

/-! ## The NVMe thread -/

section Nvme

variable {c : Config} {env : Env} {s s' : State} {st : Stage} {rest : List Task} {req : Req}

/-- A step of a round: the FTL thread may get a job of an applet, behind its own. -/
structure RoundStep (s s' : State) (todo : List Task) : Prop where
  todo : s'.todo = todo
  callbacks : s'.callbacks = s.callbacks
  dma : s'.dma = s.dma
  outq : s'.ftl.outq = s.ftl.outq
  pc : s'.ftl.pc = s.ftl.pc
  inq : ∃ new : List FtlJob, s'.ftl.inq = s.ftl.inq ++ new

theorem roundStep_todo (todo : List Task) : RoundStep s { s with todo } todo :=
  ⟨rfl, rfl, rfl, rfl, rfl, [], by simp⟩

theorem msg_out_round (h : runTask c env { s with todo := rest } .msg_out = some s') :
    RoundStep s s' rest := by
  have hsame : ∀ {t : State} {q : Nat} {req : Req}, t.enqueue_io_ccmd q req = some s' →
      RoundStep s t rest → RoundStep s s' rest := by
    intro t q req henq ht
    obtain ⟨d, rfl, -⟩ := enqueue_io_cases henq
    exact ⟨ht.todo, ht.callbacks, ht.dma, ht.outq, ht.pc, ht.inq⟩
  unfold runTask at h
  simp only at h
  split at h
  · cases h
    exact roundStep_todo rest
  · unfold msg_cbk at h
    simp only at h
    split at h
    · split at h
      · cases h
        exact ⟨rfl, rfl, rfl, rfl, rfl, [], by simp⟩
      · exact hsame h ⟨rfl, rfl, rfl, rfl, rfl, [], by simp⟩
    · cases h
      exact ⟨rfl, rfl, rfl, rfl, rfl, _, rfl⟩
    · split at h
      · cases h
        exact ⟨rfl, rfl, rfl, rfl, rfl, [], by simp⟩
      · exact hsame h ⟨rfl, rfl, rfl, rfl, rfl, [], by simp⟩

/-- Jobs behind a READ or write back do not count. -/
theorem RoundStep.ftlWork (h : RoundStep s s' rest) (hat : At s st) (hjobs : st.jobs ≠ [])
    (hout : s.ftl.outq = []) : s'.ftl.work [] = s.ftl.work [] := by
  obtain ⟨new, hinq⟩ := h.inq
  have hrw := hat.jobs
  unfold FtlThread.work
  rw [h.pc, hinq, List.append_nil, List.append_nil]
  by_cases hpc : s.ftl.pc.job.any FtlJob.isRw = true
  · rw [if_pos hpc, if_pos hpc]
  · rw [if_neg hpc, if_neg hpc, jobsWork_append]
    have hnone : s.ftl.pc.job.filter FtlJob.isRw = [] := by
      simpa [List.filter_eq_nil_iff] using hpc
    simp only [FtlThread.rwJobs, FtlThread.jobs, hout, List.nil_append, List.filter_append,
      hnone] at hrw
    by_contra hinq
    apply hjobs
    rw [← hrw, List.filter_eq_nil_iff]
    simpa using hinq

/-- With the FTL thread at work, a step of a round leaves the work; with a job in `outq`, it
comes nearer to `ftl_out`. -/
theorem RoundStep.ftlWait (h : RoundStep s s' rest) (hat : At s st) (hjobs : st.jobs ≠ [])
    (hlt : s.ftl.outq.isEmpty = false → (rest.length + 3) % 4 < (s.todo.length + 3) % 4) :
    (s.ftl.outq.isEmpty = true → Stage.ftlWait s' = Stage.ftlWait s) ∧
      (s.ftl.outq.isEmpty = false → Stage.ftlWait s' < Stage.ftlWait s) := by
  unfold Stage.ftlWait
  rw [h.outq, h.todo]
  constructor
  · intro hout
    rw [if_pos hout, if_pos hout, h.ftlWork hat hjobs (List.isEmpty_iff.mp hout)]
  · intro hout
    have hlt := hlt hout
    simp only [hout, Bool.false_eq_true, if_false]
    omega

/-- What is left to do after a step of the NVMe thread: the next poll, or less work, or the
same work and the turn of another thread. -/
def NvmeHelps (s s' : State) (st : Stage) : Prop :=
  aboutToPoll s' = true ∨ ∃ st', At s' st' ∧ st' ≠ .stopped ∧ (st'.work s' < st.work s ∨
    st'.work s' = st.work s ∧ st'.turn s' = st.turn s ∧ st.turn s ≠ .nvme)

/-- A list of `rounds` tells that no command waits for a transfer. -/
theorem At.round_stage (h : At s st) (htodo : s.todo ∈ rounds) :
    st = .polling ∨ st = .stopped ∨ (∃ req, st = .programming req) ∨ ∃ req, st = .loading req := by
  have hcontrol := h.control
  generalize s.todo = todo at htodo hcontrol
  generalize s.callbacks = callbacks at hcontrol
  generalize s.isp.ctrl_cmd_req = ctrl at hcontrol
  cases hcontrol with
  | polling | recycling => exact Or.inl rfl
  | stopped => exact Or.inr (Or.inl rfl)
  | programming | received => exact Or.inr (Or.inr (Or.inl ⟨_, rfl⟩))
  | loading => exact Or.inr (Or.inr (Or.inr ⟨_, rfl⟩))
  | receiving | sending => simp [rounds] at htodo
  | resuming hr =>
    have hadd := (resumptions_countP hr).1
    rw [(rounds_countP htodo).1] at hadd
    cases hadd

/-- A step of a round brings the next poll nearer, or the end of the FTL's job. -/
theorem RoundStep.helps (h : RoundStep s s' rest) (hat : At s st) (hat' : At s' st)
    (hne : st ≠ .stopped) (hround : s'.todo ∈ rounds)
    (hpoll : st = .polling → (rest.length + 1) % 4 < (s.todo.length + 1) % 4)
    (hftl : s.ftl.outq.isEmpty = false → (rest.length + 3) % 4 < (s.todo.length + 3) % 4) :
    NvmeHelps s s' st := by
  refine Or.inr ⟨st, hat', hne, ?_⟩
  rcases hat'.round_stage hround with rfl | rfl | hst
  · have hlt := hpoll rfl
    left
    simp only [Stage.work, h.todo, h.callbacks]
    omega
  · exact absurd rfl hne
  · have hjobs : st.jobs ≠ [] := by
      obtain ⟨req, rfl⟩ | ⟨req, rfl⟩ := hst <;> simp [Stage.jobs]
    obtain ⟨hsame, hless⟩ := h.ftlWait hat hjobs hftl
    by_cases hout : s.ftl.outq.isEmpty = true
    · right
      have hout' : s'.ftl.outq.isEmpty = true := by rwa [h.outq]
      obtain ⟨req, rfl⟩ | ⟨req, rfl⟩ := hst <;>
        simp [Stage.work, Stage.turn, hsame hout, hout, hout']
    · left
      have hless := hless (by simpa using hout)
      obtain ⟨req, rfl⟩ | ⟨req, rfl⟩ := hst <;> simp only [Stage.work] <;> omega

theorem Control.next_round {callbacks : List Callback} {ctrl : Option Req}
    (h : Control st callbacks [] ctrl) :
    Control st callbacks [.callback, .msg_out, .ftl_out] ctrl := by
  have hmem : [Task.callback, .msg_out, .ftl_out] ∈ rounds := by simp [rounds]
  cases h with
  | polling => exact .polling hmem
  | recycling => exact .recycling hmem
  | programming => exact .programming hmem
  | loading => exact .loading hmem
  | resuming hr => simp [resumptions] at hr
  | stopped => exact .stopped hmem

/-- The first step of a round. -/
theorem round_helps (hat : At s st) (hne : st ≠ .stopped) (htodo : s.todo = [])
    (hs : s' = { s with todo := [.callback, .msg_out, .ftl_out] }) : NvmeHelps s s' st := by
  have hat' : At s' st := hs ▸ hat.of_control (htodo ▸ hat.control).next_round
  have hstep : RoundStep s s' [.callback, .msg_out, .ftl_out] := hs ▸ roundStep_todo _
  exact hstep.helps hat hat' hne (by simp [hs, rounds]) (fun _ => by simp [htodo])
    fun _ => by simp [htodo]

/-- The first task of a round, when it is no poll. -/
theorem callback_helps (hat : At s st) (hne : st ≠ .stopped) (hpoll : aboutToPoll s = false)
    (htodo : s.todo = .callback :: rest)
    (h : runTask c env { s with todo := rest } .callback = some s') : NvmeHelps s s' st := by
  obtain ⟨rfl, ⟨hcb, hcontrol⟩ | ⟨rfl, hcb | hcb⟩⟩ := (htodo ▸ hat.control).callback
  · have hs : s' = { s with todo := [.msg_out, .ftl_out] } := by
      simpa [runTask, hcb] using h.symm
    have hat' : At s' st := by
      rw [hs]
      exact hat.of_control (hcb ▸ hcontrol)
    have hstep : RoundStep s s' [.msg_out, .ftl_out] := hs ▸ roundStep_todo _
    refine hstep.helps hat hat' hne (by simp [hs, rounds]) ?_ fun _ => by simp [htodo]
    rintro rfl
    cases hcontrol
  · simp [aboutToPoll, htodo, hcb] at hpoll
  · simp only [runTask, hcb] at h
    obtain ⟨hat', -⟩ : At s' .polling ∧ NvmeMove c env s .polling .polling s'.books :=
      recycle_control_command_move hat hcb htodo h
    refine Or.inr ⟨.polling, hat', by simp, Or.inl ?_⟩
    have hkept : s'.callbacks = [.check_door_bell] ∧ s'.todo = [.msg_out, .ftl_out] := by
      unfold recycle_control_command at h
      split at h
      · cases h
        exact ⟨rfl, rfl⟩
      · simp only at h
        split at h
        · obtain ⟨d, rfl, -⟩ := post_dma_msg_cases h
          exact ⟨rfl, rfl⟩
        · split at h
          · obtain ⟨d, rfl, -⟩ := enqueue_io_cases h
            exact ⟨rfl, rfl⟩
          · obtain ⟨d, rfl, -⟩ := enqueue_io_cases h
            exact ⟨rfl, rfl⟩
    simp [Stage.work, hcb, htodo, hkept.1, hkept.2]

theorem Control.msg_out_rest {callbacks : List Callback} {ctrl : Option Req}
    (h : Control st callbacks (.msg_out :: rest) ctrl) : rest = [.ftl_out] := by
  cases h with
  | polling hr | recycling hr | programming hr | loading hr | stopped hr =>
    simpa [rounds] using hr
  | resuming hr => simp [resumptions] at hr

theorem msg_out_helps (hat : At s st) (hne : st ≠ .stopped) (htodo : s.todo = .msg_out :: rest)
    (h : runTask c env { s with todo := rest } .msg_out = some s') : NvmeHelps s s' st := by
  obtain ⟨hat', -⟩ : At s' st ∧ NvmeMove c env s st st s'.books := msg_out_move hat htodo h
  have hstep := msg_out_round h
  obtain rfl := (htodo ▸ hat.control).msg_out_rest
  exact hstep.helps hat hat' hne (by simp [hstep.todo, rounds]) (fun _ => by simp [htodo])
    fun _ => by simp [htodo]

/-- The rest of `completed_req_cbk` tells the stage. -/
theorem At.resuming_of (h : At s st) (htodo : s.todo ∈ resumptions) : st = .resuming := by
  have hcontrol := h.control
  generalize s.todo = todo at htodo hcontrol
  generalize s.callbacks = callbacks at hcontrol
  generalize s.isp.ctrl_cmd_req = ctrl at hcontrol
  have hadd := (resumptions_countP htodo).1
  cases hcontrol with
  | polling hr | recycling hr | programming hr | loading hr | stopped hr =>
    rw [(rounds_countP hr).1] at hadd
    cases hadd
  | resuming => rfl
  | receiving | received | sending => simp [resumptions] at htodo

theorem At.received_of (h : At s st)
    (htodo : s.todo = [.write_ios_step_2, .msg_out, .ftl_out]) : ∃ req, st = .programming req := by
  have hcontrol := h.control
  rw [htodo] at hcontrol
  generalize s.callbacks = callbacks at hcontrol
  generalize s.isp.ctrl_cmd_req = ctrl at hcontrol
  cases hcontrol with
  | received | programming => exact ⟨_, rfl⟩
  | polling hr | recycling hr | loading hr | stopped hr => simp [rounds] at hr
  | resuming hr => simp [resumptions] at hr

theorem At.outq_nil (h : At s st) (hjobs : st.jobs = []) : s.ftl.outq = [] := by
  have hrw := h.jobs
  rw [hjobs, FtlThread.rwJobs, FtlThread.jobs, List.filter_eq_nil_iff] at hrw
  apply List.eq_nil_iff_forall_not_mem.mpr
  intro job hjob
  exact hrw job (by simp [hjob]) (h.outq job hjob)

/-- The last task of a round: it takes the job that the FTL has ended. -/
theorem ftl_out_helps (hat : At s st) (hne : st ≠ .stopped) (htodo : s.todo = .ftl_out :: rest)
    (h : runTask c env { s with todo := rest } .ftl_out = some s') : NvmeHelps s s' st := by
  obtain ⟨st', hat', -⟩ := ftl_out_move hat htodo h
  obtain ⟨rfl, hcontrol⟩ := (htodo ▸ hat.control).ftl_out
  unfold runTask at h
  simp only at h
  split at h
  · rename_i hq
    have hout : s.ftl.outq.isEmpty = true := by simp [show s.ftl.outq = [] from hq]
    cases h
    exact (roundStep_todo []).helps hat (hat.of_control hcontrol) hne (by simp [rounds])
      (fun _ => by simp [htodo]) fun hfull => by simp [hout] at hfull
  · rename_i job jobs hq
    have hq : s.ftl.outq = job :: jobs := hq
    obtain ⟨⟨req, rfl, rfl⟩ | ⟨req, rfl, rfl⟩, -⟩ := hat.outq_cons hq
    · cases h
      obtain rfl := hat'.resuming_of
        (by simp [completed_req_cbk, State.free_wbc_buffer, resumptions])
      refine Or.inr ⟨_, hat', by simp, Or.inl ?_⟩
      simp [Stage.work, Stage.ftlWait, hq, htodo, completed_req_cbk, State.free_wbc_buffer]
    · cases h
      obtain ⟨rfl, -⟩ := hat'.control.read_dma
      refine Or.inr ⟨_, hat', by simp, Or.inl ?_⟩
      simp [Stage.work, Stage.ftlWait, hq, htodo, completed_req_cbk, dmaWork]

/-- The callback of the FTL looks at the requests that wait, of which there are none. -/
theorem step_2_helps (hat : At s st) {task : Task} (htodo : s.todo = task :: rest)
    (htask : task = .read_ios_step_2 ∨ task = .write_ios_step_2)
    (hs : s' = { s with todo := rest }) : NvmeHelps s s' st := by
  have hcontrol := (htodo ▸ hat.control).step_2 htask
  have hat' : At s' st := hs ▸ hat.of_control hcontrol
  have hstep : RoundStep s s' rest := hs ▸ roundStep_todo _
  have hold := hat.control
  rw [htodo] at hold
  generalize s.callbacks = callbacks at hold
  generalize s.isp.ctrl_cmd_req = ctrl at hold
  cases hold with
  | received =>
    exact hstep.helps hat hat' (by simp) (by simp [hs, rounds]) (by simp) fun _ => by simp [htodo]
  | resuming => exact Or.inr ⟨_, hat', by simp, Or.inl (by simp [Stage.work, hs, htodo])⟩
  | polling hr | recycling hr | programming hr | loading hr | stopped hr =>
    rcases htask with rfl | rfl <;> simp [rounds] at hr
  | receiving | sending => simp at htask

/-- A wait for the DMA thread goes on, or the transfer has ended. -/
theorem dma_wait_helps (hat : At s st) (hne : st ≠ .stopped) {task : Task}
    (htodo : s.todo = task :: rest) (htask : task = .read_dma req ∨ task = .write_dma req)
    (h : runTask c env { s with todo := rest } task = some s') : NvmeHelps s s' st := by
  by_cases hdma : s.dma.isSome = true
  · have hsame : s' = s := by
      rcases htask with rfl | rfl <;>
      · simp only [runTask, hdma, if_true, Option.some.injEq] at h
        rw [← h, ← htodo]
    subst hsame
    refine Or.inr ⟨st, hat, hne, Or.inr ⟨rfl, rfl, ?_⟩⟩
    rcases htask with rfl | rfl
    · obtain ⟨rfl, -⟩ := (htodo ▸ hat.control).read_dma
      simp [Stage.turn, hdma]
    · obtain ⟨rfl, -⟩ := (htodo ▸ hat.control).write_dma
      simp [Stage.turn, hdma]
  · have hnone : s.dma = none := by simpa using hdma
    rcases htask with rfl | rfl
    · obtain ⟨st', hat', -⟩ := read_dma_move hat htodo h
      obtain ⟨rfl, -, -, rfl⟩ := (htodo ▸ hat.control).read_dma
      simp only [runTask, hdma, Bool.false_eq_true, if_false] at h
      obtain ⟨d, rfl, -⟩ := enqueue_io_cases h
      obtain rfl := hat'.resuming_of (by simp [State.free_read_io_buffer, resumptions])
      refine Or.inr ⟨_, hat', by simp, Or.inl ?_⟩
      simp [Stage.work, dmaWork, hnone, State.free_read_io_buffer]
    · obtain ⟨st', hat', -⟩ := write_dma_move hat htodo h
      obtain ⟨rfl, -, -, rfl⟩ := (htodo ▸ hat.control).write_dma
      simp only [runTask, hdma, Bool.false_eq_true, if_false] at h
      obtain ⟨d, rfl, -⟩ := enqueue_io_cases h
      obtain ⟨req', rfl⟩ := hat'.received_of rfl
      have hout := hat.outq_nil rfl
      refine Or.inr ⟨_, hat', by simp, Or.inl ?_⟩
      simp [Stage.work, Stage.ftlWait, dmaWork, hnone, hout, FtlThread.work,
        State.free_write_io_buffer, State.sys_push_to_ftl]

/-- Every step of the NVMe thread before the next poll helps. -/
theorem nvmeStep_helps (hat : At s st) (hne : st ≠ .stopped) (hpoll : aboutToPoll s = false)
    (h : nvmeStep c env s = some s') : NvmeHelps s s' st := by
  unfold nvmeStep at h
  split at h
  · rename_i htodo
    cases h
    exact round_helps hat hne htodo rfl
  · rename_i task rest htodo
    cases task with
    | callback => exact callback_helps hat hne hpoll htodo h
    | msg_out => exact msg_out_helps hat hne htodo h
    | ftl_out => exact ftl_out_helps hat hne htodo h
    | read_ios_step_2 =>
      cases h
      apply step_2_helps hat htodo (Or.inl rfl)
      exact process_read_ios_step_2_nil (s := { s with todo := rest }) hat.r_buf_q
    | write_ios_step_2 =>
      cases h
      apply step_2_helps hat htodo (Or.inr rfl)
      exact process_write_ios_step_2_nil (s := { s with todo := rest }) hat.w_buf_q
    | read_dma req => exact dma_wait_helps hat hne htodo (Or.inl rfl) h
    | write_dma req => exact dma_wait_helps hat hne htodo (Or.inr rfl) h
    | add_check_door_bell =>
      cases h
      obtain ⟨rfl, hcb, hctrl, rfl⟩ := (htodo ▸ hat.control).add_check_door_bell
      refine Or.inr ⟨.polling, ⟨?_, hat.r_buf_q, hat.w_buf_q, hat.inuse, hat.jobs, hat.outq,
        hat.dma⟩, by simp, Or.inl ?_⟩
      · simp only [State.sys_add_callback_ftn, hcb, hctrl, List.nil_append]
        exact .polling (by simp [rounds])
      · simp [Stage.work, State.sys_add_callback_ftn, hcb, htodo]

end Nvme

/-! ## Every thread -/

section Threads

variable {c : Config} {s s' u : State} {st : Stage} {a : Action} {n : Nat} {th : Thread}

/-- The work and the turn depend on the queues, the threads and the rest of the round. -/
theorem Stage.work_congr (hcb : s'.callbacks = s.callbacks) (htodo : s'.todo = s.todo)
    (hdma : s'.dma = s.dma) (hftl : s'.ftl = s.ftl) (st : Stage) :
    st.work s' = st.work s ∧ st.turn s' = st.turn s := by
  cases st <;> simp [Stage.work, Stage.turn, Stage.ftlWait, dmaWork, hcb, htodo, hdma, hftl]

/-- What is left to do after a step of another thread than the NVMe thread. -/
def Helps (s s' : State) (st : Stage) (th : Thread) : Prop :=
  st.work s' < st.work s ∨ st.work s' = st.work s ∧ st.turn s' = st.turn s ∧ st.turn s ≠ th

/-- While the FTL has a command, its steps lower the work until they end the job. -/
theorem FtlTurn.helps (h : FtlTurn [] s.ftl s'.ftl) (hat : At s st) (htodo : s'.todo = s.todo)
    (hst : (∃ req, st = .programming req) ∨ ∃ req, st = .loading req) : Helps s s' st .ftl := by
  have hwait : Stage.ftlWait s' < Stage.ftlWait s ∨ Stage.ftlWait s' = Stage.ftlWait s ∧
      s'.ftl.outq.isEmpty = false ∧ s.ftl.outq.isEmpty = false := by
    unfold Stage.ftlWait
    rw [htodo]
    cases h with
    | idle hpc hinq heq =>
      right
      have hout : s.ftl.outq.isEmpty = false := by
        by_contra hempty
        have hnil : s.ftl.outq = [] := by simpa using hempty
        have hjobs := hat.jobs
        simp only [FtlThread.rwJobs, FtlThread.jobs, hnil, hpc, hinq] at hjobs
        obtain ⟨req, rfl⟩ | ⟨req, rfl⟩ := hst <;> simp [Stage.jobs] at hjobs
      simp [heq, hout]
    | worked hout hlt =>
      rw [hout]
      by_cases hempty : s.ftl.outq.isEmpty = true
      · left
        simp only [hempty, if_true]
        omega
      · right
        simp [hempty]
    | ended hpos hout =>
      rw [hout]
      by_cases hempty : s.ftl.outq.isEmpty = true
      · left
        simp [hempty]
        omega
      · right
        simp [hempty]
  unfold Helps
  obtain ⟨req, rfl⟩ | ⟨req, rfl⟩ := hst <;> rcases hwait with hlt | ⟨heq, hout', hout⟩
  · exact Or.inl (by simpa [Stage.work] using hlt)
  · exact Or.inr (by simp [Stage.work, Stage.turn, heq, hout, hout'])
  · exact Or.inl (by simpa [Stage.work] using hlt)
  · exact Or.inr (by simp [Stage.work, Stage.turn, heq, hout, hout'])

theorem ftl_helps {pick : Nat} {applet : Nat → UInt8} (hat : At s st)
    (hready : Ready c.g s.ftl.ftl n) (hok : FindsPage c s (.ftl pick applet))
    (h : ftlThreadStep c pick applet s = some s') : At s' st ∧ Helps s s' st .ftl := by
  have hframe := ftlThreadStep_frame h
  have hat' := hframe.at hat
  refine ⟨hat', ?_⟩
  have hrest : s'.callbacks = s.callbacks ∧ s'.todo = s.todo ∧ s'.dma = s.dma := by
    rw [hframe.state]
    exact ⟨rfl, rfl, rfl⟩
  obtain ⟨hcb, htodo, hdma⟩ := hrest
  have hturn : ∀ more, FtlTurn more s.ftl s'.ftl := fun more =>
    ftlThreadStep_turn more hready hok h
  cases st with
  | programming req => exact (hturn []).helps hat htodo (Or.inl ⟨req, rfl⟩)
  | loading req => exact (hturn []).helps hat htodo (Or.inr ⟨req, rfl⟩)
  | receiving req =>
    have hne : Stage.turn s (.receiving req) ≠ .ftl := by
      simp only [Stage.turn]
      split <;> simp
    cases hturn [.flush] with
    | idle hpc hinq heq =>
      exact Or.inr ⟨(Stage.work_congr hcb htodo hdma heq _).1,
        (Stage.work_congr hcb htodo hdma heq _).2, hne⟩
    | worked hout hlt =>
      left
      simp only [Stage.work, dmaWork, hdma]
      omega
    | ended hpos hout =>
      have hnil := hat'.outq_nil rfl
      rw [hout] at hnil
      simp at hnil
  | polling => exact Or.inr ⟨by simp [Stage.work, hcb, htodo], rfl, by simp [Stage.turn]⟩
  | resuming => exact Or.inr ⟨by simp [Stage.work, htodo], rfl, by simp [Stage.turn]⟩
  | stopped => exact Or.inr ⟨rfl, rfl, by simp [Stage.turn]⟩
  | sending req =>
    refine Or.inr ⟨by simp [Stage.work, dmaWork, hdma], by simp [Stage.turn, hdma], ?_⟩
    simp only [Stage.turn]
    split <;> simp

theorem dma_helps (hat : At s st) (mem : Mem) : Helps s (dmaThreadStep mem s) st .dma := by
  unfold dmaThreadStep
  split
  · rename_i hdma
    refine Or.inr ⟨rfl, rfl, ?_⟩
    cases st <;> simp [Stage.turn, hdma] <;> split <;> simp
  · rename_i job hdma
    have hst := hat.dma job hdma
    left
    simp only
    split
    · rename_i hix
      cases st <;> simp [Stage.transfer] at hst <;> simp [Stage.work, dmaWork, hdma] <;> omega
    · cases st <;> simp [Stage.transfer] at hst <;> simp [Stage.work, dmaWork, hdma]

/-! ## The next poll -/

theorem ready_step (h : ∃ n, Ready c.g s.ftl.ftl n) (hs : fwStep c s a = some s') :
    ∃ n, Ready c.g s'.ftl.ftl n := by
  obtain ⟨n, h⟩ := h
  cases a with
  | nvme env =>
    cases nvmeStep_tables hs with
    | same hsame => exact ⟨n, by rwa [hsame.ftl]⟩
    | counted hlt hidle hf => exact ⟨n, by rwa [hf]⟩
    | reset hidle hf => exact ⟨n, by rwa [hf]⟩
    | saved hidle hf =>
      obtain ⟨ftl, hstore, hf⟩ := Option.map_eq_some_iff.mp hf
      rw [← hf]
      exact ⟨_, h.pages (p := (s.ftl.ftl, n)) (ftlStep_pages .store_mapping_tables h.good hstore)⟩
  | ftl pick applet =>
    obtain ⟨-, hsame | ⟨lpn, x, hlpn, hmap⟩⟩ := ftlThreadStep_tables hs
    · exact ⟨n, by rwa [hsame]⟩
    · obtain ⟨ha, hx, hnum, heq⟩ := make_new_mapping_cases h.good hmap
      rw [heq]
      exact ⟨_, h.page (p := (s.ftl.ftl, n)) (.map ha hx hnum hlpn)⟩
  | dma mem =>
    cases hs
    have hsame : SameTables s (dmaThreadStep mem s) := sameTables_dmaThreadStep
    exact ⟨n, by rwa [hsame.ftl]⟩
  | isp_exit | isp_host_dma | isp_nand_op | isp_function_exited | isp_pending_dma | isp_msg_out =>
    cases hs
    exact ⟨n, h⟩

theorem At.stageOf (h : At s st) : st.work s = workLeft s := by
  have hcontrol := h.control
  have hjobs := h.jobs
  unfold workLeft S4Sim.stageOf
  rw [hjobs]
  generalize htodo : s.todo = todo at hcontrol ⊢
  generalize hcb : s.callbacks = callbacks at hcontrol ⊢
  generalize s.isp.ctrl_cmd_req = ctrl at hcontrol
  cases hcontrol with
  | polling hr | recycling hr | programming hr | loading hr | stopped hr =>
    simp only [rounds, List.mem_cons, List.not_mem_nil, or_false] at hr
    rcases hr with rfl | rfl | rfl | rfl <;> simp [Stage.jobs, Task.isAdd, Stage.work]
  | resuming hr =>
    simp only [resumptions, List.mem_cons, List.not_mem_nil, or_false] at hr
    rcases hr with rfl | rfl | rfl | rfl | rfl <;> simp [Task.isAdd]
  | receiving | sending => rfl
  | received => simp [Stage.jobs, Task.isAdd, Stage.work]

/-- The firmware is not about to poll; it has the work `n`, and it is the turn of `th`. -/
def Waits (c : Config) (s : State) (n : Nat) (th : Thread) : Prop :=
  aboutToPoll s = false ∧ (∃ a, Ready c.g s.ftl.ftl a) ∧
    ∃ st, At s st ∧ st ≠ .stopped ∧ st.work s = n ∧ st.turn s = th

/-- The next step of the NVMe thread is a poll, and every request has its completion. -/
def Idle (s : State) : Prop := aboutToPoll s = true ∧ inFlight s = []

/-- A step of another thread than the NVMe thread leaves the poll where it is. -/
theorem Waits.other {th' : Thread} (h : Waits c s n th) (hready : ∃ a, Ready c.g u.ftl.ftl a)
    (hcb : u.callbacks = s.callbacks) (htodo : u.todo = s.todo) (hth : a.thread = some th')
    (hhelps : ∀ st, At s st → At u st ∧ Helps s u st th') :
    StepHelps Action.thread (Waits c) Idle n th a u := by
  obtain ⟨hpoll, -, st, hat, hne, rfl, rfl⟩ := h
  obtain ⟨hat', hhelp⟩ := hhelps st hat
  have hpoll' : aboutToPoll u = false := by
    unfold aboutToPoll at hpoll ⊢
    rwa [htodo, hcb]
  refine Or.inr ⟨st.work u, st.turn u, ⟨hpoll', hready, st, hat', hne, rfl, rfl⟩, ?_⟩
  rcases hhelp with hlt | ⟨hwork, hturn, hnot⟩
  · exact Or.inl hlt
  · refine Or.inr ⟨hwork, hturn, ?_⟩
    rw [hth]
    exact fun heq => hnot (Option.some.inj heq).symm

/-- What an applet does is seen in its own memory only. -/
theorem Waits.applet (h : Waits c s n th) {isp : Isp} (hth : a.thread = none)
    (hu : u = { s with isp }) (hat : ∀ st, At s st → At u st) :
    StepHelps Action.thread (Waits c) Idle n th a u := by
  obtain ⟨hpoll, hready, st, hs, hne, rfl, rfl⟩ := h
  subst hu
  obtain ⟨hwork, hturn⟩ : st.work { s with isp } = st.work s ∧ st.turn { s with isp } = st.turn s :=
    Stage.work_congr rfl rfl rfl rfl st
  exact Or.inr ⟨_, _, ⟨hpoll, hready, st, hat st hs, hne, rfl, rfl⟩,
    Or.inr ⟨hwork, hturn, by simp [hth]⟩⟩

theorem Waits.step (h : Waits c s n th) (hok : FindsPage c s a) (hs : fwStep c s a = some u) :
    StepHelps Action.thread (Waits c) Idle n th a u := by
  have hready := ready_step h.2.1 hs
  have hisp : ∀ isp : Isp, isp.ctrl_cmd_req = s.isp.ctrl_cmd_req → ∀ st, At s st →
      At { s with isp } st := fun isp hctrl st hat =>
    ⟨hctrl ▸ hat.control, hat.r_buf_q, hat.w_buf_q, hat.inuse, hat.jobs, hat.outq, hat.dma⟩
  cases a with
  | nvme env =>
    obtain ⟨hpoll, -, st, hat, hne, rfl, rfl⟩ := h
    obtain ⟨st', hat', -⟩ := nvmeStep_move hat hs
    by_cases hpoll' : aboutToPoll u = true
    · exact Or.inl ⟨hpoll', hat'.inFlight_nil hpoll'⟩
    · have hfalse : aboutToPoll u = false := by simpa using hpoll'
      rcases nvmeStep_helps hat hne hpoll hs with hp | ⟨st1, hat1, hne1, hcase⟩
      · exact absurd hp hpoll'
      · refine Or.inr ⟨_, _, ⟨hfalse, hready, st1, hat1, hne1, rfl, rfl⟩, ?_⟩
        rcases hcase with hlt | ⟨hwork, hturn, hnot⟩
        · exact Or.inl hlt
        · exact Or.inr ⟨hwork, hturn, fun heq => hnot (Option.some.inj heq).symm⟩
  | dma mem =>
    cases hs
    have hrest : (dmaThreadStep mem s).callbacks = s.callbacks ∧
        (dmaThreadStep mem s).todo = s.todo := by
      unfold dmaThreadStep
      split
      · exact ⟨rfl, rfl⟩
      · simp only
        split <;> exact ⟨rfl, rfl⟩
    exact h.other hready hrest.1 hrest.2 rfl fun st hat =>
      ⟨dmaThreadStep_at hat, dma_helps hat mem⟩
  | ftl pick applet =>
    obtain ⟨m, hm⟩ := h.2.1
    have hframe := ftlThreadStep_frame hs
    exact h.other hready (by rw [hframe.state]) (by rw [hframe.state]) rfl fun st hat =>
      ftl_helps hat hm hok hs
  | isp_exit | isp_host_dma | isp_nand_op | isp_function_exited | isp_pending_dma | isp_msg_out =>
    cases hs
    exact h.applet rfl rfl (hisp _ rfl)

end Threads

/-! ## The law -/

/-- From every state that the firmware reaches without a rejected READ or WRITE, each fair run
that finds a free page for each page it maps comes to the next poll, and then every request
has its completion. `workLeft` bounds the rounds that it takes. -/
theorem every_fair_run_comes_to_the_next_poll {c : Config} {asqs acqs asq acq : Nat}
    {flash : Ppa → Nat → UInt8} {acts : List Action} {s u : State}
    (hok : AllSteps (fwStep c) (AcceptsRw c) (initialState c asqs acqs asq acq flash) acts)
    (h : run (fwStep c) (initialState c asqs acqs asq acq flash) acts = some s)
    {rounds : List (List Action)} (hfair : ∀ r ∈ rounds, FairRound Action.thread r)
    (hlen : workLeft s < rounds.length)
    (hpages : AllSteps (fwStep c) (FindsPage c) s rounds.flatten)
    (hrun : run (fwStep c) s rounds.flatten = some u) :
    Passes (fwStep c) s rounds.flatten Idle := by
  have hpoll : HasPoll c s := by
    refine run_invariant_of_ok (I := fun _ s => HasPoll c s) ?_ ?_ hok h
    · exact ⟨.polling, at_initialState c asqs acqs asq acq flash, by simp, .polling⟩
    · exact fun _ _ _ _ _ ht hacc hstep => hasPoll_step ht hacc hstep
  have hready : ∃ n, Ready c.g s.ftl.ftl n :=
    run_keeps (I := fun s => ∃ n, Ready c.g s.ftl.ftl n) (fun _ _ _ ht hs => ready_step ht hs)
      ⟨1, ready_initialize_ftl c.g⟩ h
  obtain ⟨st, hat, hne, -⟩ := hpoll
  by_cases hidle : aboutToPoll s = true
  · exact .start ⟨hidle, hat.inFlight_nil hidle⟩
  · have hwaits : Waits c s (workLeft s) (st.turn s) :=
      ⟨by simpa using hidle, hready, st, hat, hne, hat.stageOf, rfl⟩
    exact fair_run_passes (fun _ _ _ _ _ hw hfinds hs => hw.step hfinds hs) hfair hwaits hlen
      hpages hrun

/-- Rounds of one step of each thread, without a door bell. -/
def fairRounds (n : Nat) : List (List Action) :=
  List.replicate n [.nvme noRing, .dma fun _ => 0, .ftl 0 fun _ => 0]

theorem fairRounds_fair {n : Nat} : ∀ r ∈ fairRounds n, FairRound Action.thread r := by
  intro r hr th
  rw [List.eq_of_mem_replicate hr]
  cases th <;> simp [Action.thread]

/-- A WRITE of block 0 is fetched, and nothing of its data is there. -/
theorem every_fair_run_comes_to_the_next_poll_after_a_write :
    ∃ s u, run (fwStep smallDevice) bootState (createQueues ++
        roundFor (ringFor 1 1 { readBlock 1 with opcode := 0x01 })) = some s ∧
      (inFlight s).length = 1 ∧ run (fwStep smallDevice) s (fairRounds 60).flatten = some u ∧
      Passes (fwStep smallDevice) s (fairRounds 60).flatten Idle := by
  have hrun : ((run (fwStep smallDevice) bootState (createQueues ++
      roundFor (ringFor 1 1 { readBlock 1 with opcode := 0x01 }))).map fun s =>
        ((inFlight s).length, decide (workLeft s < 60),
          decide (AllSteps (fwStep smallDevice) (FindsPage smallDevice) s (fairRounds 60).flatten),
          (run (fwStep smallDevice) s (fairRounds 60).flatten).isSome)) =
            some (1, true, true, true) := by
    decide +kernel
  obtain ⟨s, hs, hvals⟩ := Option.map_eq_some_iff.mp hrun
  simp only [Prod.mk.injEq, decide_eq_true_eq] at hvals
  obtain ⟨hone, hlen, hpages, hsome⟩ := hvals
  obtain ⟨u, hu⟩ := Option.isSome_iff_exists.mp hsome
  refine ⟨s, u, hs, hone, hu, ?_⟩
  exact every_fair_run_comes_to_the_next_poll (by decide +kernel) hs fairRounds_fair
    (by simpa [fairRounds] using hlen) hpages hu

end S4Sim
