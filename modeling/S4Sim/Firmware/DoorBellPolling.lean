-- The law of the polling callback: it is queued once, or one accepted READ or WRITE has
-- it. `process_read_io` and `process_write_io` break the law: they return from a command
-- that `verify_rw_param` rejects without queueing the callback again.
import S4Sim.Firmware.Moves
import S4Sim.Lib.Run

open Runs

namespace S4Sim

/-! ## Where the callback is -/

def Task.isAdd : Task → Bool
  | .add_check_door_bell => true
  | _ => false

/-- `check_door_bell` is being run: it waits for the data of the WRITE that it fetched. -/
def inCheckDoorBell (s : State) : Bool :=
  match s.todo with
  | .write_dma _ :: rest => !rest.any Task.isAdd
  | _ => false

/-- How often the callback is queued or is being run. -/
def polls (s : State) : Nat :=
  s.callbacks.count .check_door_bell + (inCheckDoorBell s).toNat

/-- The jobs of READ and WRITE in the FTL thread, and the runs of `completed_req_cbk` that
have not queued the callback yet. -/
def outstanding (s : State) : Nat := s.ftl.rwJobs.length + s.todo.countP Task.isAdd

variable (c : Config)

/-- The outstanding job is that of the last command that was fetched, an accepted READ
or WRITE. -/
structure OneOutstanding (s : State) : Prop where
  one : outstanding s = 1
  accepted : ∃ f, s.driver.fetched.getLast? = some f ∧ (f.isRead || f.isWrite) = true ∧
    verify_rw_param c f.scmd = true ∧ ∀ req, .read req ∈ s.ftl.rwJobs → req.uid = f.uid

/-- Exactly one of the two places has the callback, once. -/
def PollsOrWorks (s : State) : Prop :=
  (polls s = 1 ∧ outstanding s = 0) ∨ (polls s = 0 ∧ OneOutstanding c s)

/-- The condition on a step: a READ or WRITE that it fetches passes `verify_rw_param`. -/
def AcceptsRw (s : State) : Action → Prop
  | .nvme env => fetches env s = true →
      ((fetchOf s.driver env).isRead || (fetchOf s.driver env).isWrite) = true →
        verify_rw_param c env.scmd = true
  | _ => True

instance (s : State) : (a : Action) → Decidable (AcceptsRw c s a)
  | .nvme env => inferInstanceAs (Decidable (fetches env s = true →
      ((fetchOf s.driver env).isRead || (fetchOf s.driver env).isWrite) = true →
        verify_rw_param c env.scmd = true))
  | .dma _ | .ftl .. | .isp_exit | .isp_host_dma _ | .isp_nand_op .. | .isp_function_exited
  | .isp_pending_dma _ | .isp_msg_out _ =>
    inferInstanceAs (Decidable True)

/-! ## The callback at each stage -/

namespace Stage

def polls : Stage → Nat
  | polling | receiving _ => 1
  | _ => 0

def outstanding : Stage → Nat
  | programming _ | loading _ | sending _ | resuming => 1
  | _ => 0

/-- The request of the READ or WRITE in hand. -/
def request : Stage → Option Req
  | receiving req | programming req | loading req | sending req => some req
  | _ => none

end Stage

section Stages

variable {c : Config} {s s' : State} {st st' : Stage}

theorem rounds_countP {todo : List Task} (h : todo ∈ rounds) :
    todo.countP Task.isAdd = 0 ∧ ∀ req rest, todo ≠ .write_dma req :: rest := by
  simp only [rounds, List.mem_cons, List.not_mem_nil, or_false] at h
  rcases h with rfl | rfl | rfl | rfl <;> simp [Task.isAdd]

theorem resumptions_countP {todo : List Task} (h : todo ∈ resumptions) :
    todo.countP Task.isAdd = 1 ∧ ∀ req rest, todo ≠ .write_dma req :: rest := by
  simp only [resumptions, List.mem_cons, List.not_mem_nil, or_false] at h
  rcases h with rfl | rfl | rfl | rfl | rfl <;> simp [Task.isAdd]

theorem not_inCheckDoorBell (h : ∀ req rest, s.todo ≠ .write_dma req :: rest) :
    inCheckDoorBell s = false := by
  unfold inCheckDoorBell
  split
  · rename_i req rest htodo
    exact absurd htodo (h req rest)
  · rfl

/-- The counts of a state are those of its stage. -/
theorem At.counts (h : At s st) :
    S4Sim.polls s = st.polls ∧ S4Sim.outstanding s = st.outstanding := by
  have hcontrol := h.control
  unfold S4Sim.polls S4Sim.outstanding
  rw [h.jobs]
  generalize hcb : s.callbacks = callbacks at hcontrol ⊢
  generalize htodo : s.todo = todo at hcontrol ⊢
  generalize s.isp.ctrl_cmd_req = ctrl at hcontrol
  cases hcontrol with
  | polling hr | recycling hr | programming hr | loading hr | stopped hr =>
    obtain ⟨hadd, hne⟩ := rounds_countP hr
    rw [not_inCheckDoorBell (htodo ▸ hne), hadd]
    exact ⟨rfl, rfl⟩
  | resuming hr =>
    obtain ⟨hadd, hne⟩ := resumptions_countP hr
    rw [not_inCheckDoorBell (htodo ▸ hne), hadd]
    exact ⟨rfl, rfl⟩
  | receiving | received | sending => simp [inCheckDoorBell, htodo, Task.isAdd, Stage.polls,
      Stage.outstanding, Stage.jobs]

/-! ## The invariant -/

/-- A stage with a READ or WRITE is about the last command that was fetched. -/
def LastAccepted (c : Config) (fetched : List Fetch) (st : Stage) : Prop :=
  st.polls = 0 ∨ st.request ≠ none → ∃ f, fetched.getLast? = some f ∧
    (f.isRead || f.isWrite) = true ∧ verify_rw_param c f.scmd = true ∧
    ∀ req, st.request = some req → req.uid = f.uid

/-- The firmware is at a stage that has the callback. -/
def HasPoll (c : Config) (s : State) : Prop :=
  ∃ st, At s st ∧ st ≠ .stopped ∧ LastAccepted c s.driver.fetched st

theorem PollsOrWorks.of_hasPoll (h : HasPoll c s) : PollsOrWorks c s := by
  obtain ⟨st, hat, hne, hlast⟩ := h
  obtain ⟨hpolls, hout⟩ := hat.counts
  unfold PollsOrWorks
  rw [hpolls, hout]
  by_cases hp : st.polls = 0
  · right
    obtain ⟨f, hf, hrw, hok, huid⟩ := hlast (Or.inl hp)
    refine ⟨hp, ?_, f, hf, hrw, hok, ?_⟩
    · rw [hout]
      cases st <;> simp_all [Stage.polls, Stage.outstanding]
    · intro req hreq
      rw [hat.jobs] at hreq
      apply huid
      cases st <;> simp_all [Stage.jobs, Stage.request]
  · left
    cases st <;> simp_all [Stage.polls, Stage.outstanding]

theorem lastAccepted_fetched {env : Env} {d : Driver} {req : Req} (hask : RwAsk c d env req)
    (hrw : ((fetchOf d env).isRead || (fetchOf d env).isWrite) = true)
    (hst : st.request = some req) : LastAccepted c (d.fetched ++ [fetchOf d env]) st := by
  intro _
  refine ⟨fetchOf d env, by simp, hrw, hask.accepted, ?_⟩
  rintro req' hreq'
  rw [hst] at hreq'
  cases hreq'
  exact hask.uid

theorem LastAccepted.polling {fetched : List Fetch} : LastAccepted c fetched .polling := by
  rintro (h | h)
  · cases h
  · exact absurd rfl h

/-- No step of the NVMe thread but a rejected command loses the callback. -/
theorem NvmeMove.hasPoll {env : Env} (hmove : NvmeMove c env s st st' s'.books)
    (hok : AcceptsRw c s (.nvme env)) (hne : st ≠ .stopped)
    (hlast : LastAccepted c s.driver.fetched st) :
    st' ≠ .stopped ∧ LastAccepted c s'.driver.fetched st' := by
  generalize hb : s'.books = b at hmove
  have hfetched : s'.driver.fetched = b.fetched := congrArg Books.fetched hb
  rw [hfetched]
  cases hmove with
  | quiet => exact ⟨hne, hlast⟩
  | isp_job => exact ⟨hne, hlast⟩
  | shutdown => exact ⟨hne, .polling⟩
  | unanswered => exact ⟨hne, .polling⟩
  | admin => exact ⟨hne, .polling⟩
  | answered => exact ⟨hne, .polling⟩
  | stored => exact ⟨hne, .polling⟩
  | recycled => exact ⟨hne, .polling⟩
  | rejected hf hto hask hrw hbad => exact absurd (hok hf hrw) (by simp [hbad])
  | write hf hask hop => exact ⟨by simp, lastAccepted_fetched hask (by simp [hop]) rfl⟩
  | read hf hask hop => exact ⟨by simp, lastAccepted_fetched hask (by simp [hop]) rfl⟩
  | received =>
    exact ⟨by simp, fun _ => hlast (Or.inr (by simp [Stage.request]))⟩
  | loaded => exact ⟨by simp, fun _ => hlast (Or.inl rfl)⟩
  | programmed =>
    obtain ⟨f, hf, hrw, hacc, -⟩ := hlast (Or.inl rfl)
    exact ⟨by simp, fun _ => ⟨f, hf, hrw, hacc, by simp [Stage.request]⟩⟩
  | sent =>
    obtain ⟨f, hf, hrw, hacc, -⟩ := hlast (Or.inl rfl)
    exact ⟨by simp, fun _ => ⟨f, hf, hrw, hacc, by simp [Stage.request]⟩⟩
  | resumed => exact ⟨by simp, .polling⟩

theorem hasPoll_step {a : Action} (h : HasPoll c s) (hok : AcceptsRw c s a)
    (hstep : fwStep c s a = some s') : HasPoll c s' := by
  obtain ⟨st, hat, hne, hlast⟩ := h
  rcases fwStep_at hat hstep with ⟨env, st', rfl, hat', hmove⟩ | ⟨hat', hsame⟩
  · obtain ⟨hne', hlast'⟩ := hmove.hasPoll hok hne hlast
    exact ⟨st', hat', hne', hlast'⟩
  · refine ⟨st, hat', hne, ?_⟩
    rw [hsame.fetched]
    exact hlast

end Stages

/-! ## The law -/

/-- In every state of a run that fetches no rejected READ or WRITE, the callback is queued
once, or it is being run, or one accepted READ or WRITE has it. -/
theorem the_poll_is_never_lost_while_commands_are_accepted {asqs acqs asq acq : Nat}
    {flash : Ppa → Nat → UInt8} {acts : List Action} {s : State}
    (hok : AllSteps (fwStep c) (AcceptsRw c) (initialState c asqs acqs asq acq flash) acts)
    (h : run (fwStep c) (initialState c asqs acqs asq acq flash) acts = some s) :
    PollsOrWorks c s := by
  have hinit : HasPoll c (initialState c asqs acqs asq acq flash) :=
    ⟨.polling, at_initialState c asqs acqs asq acq flash, by simp, .polling⟩
  exact .of_hasPoll (run_invariant_of_ok (I := fun _ s => HasPoll c s) hinit
    (fun _ _ _ _ _ ht hacc hstep => hasPoll_step ht hacc hstep) hok h)

/-! ## A host with one I/O queue -/

def smallDevice : Config where
  g := twoChannels
  hostPageBits := 12
  image _ _ _ := 0
  equal := rfl

/-- A door bell of the submission queue `Qindex`, with the entry at its head. -/
def ringFor (Qindex db_value : Nat) (scmd : NvmeSCmd) : Env where
  DoorBell := 1
  Qindex := Qindex
  db_value := db_value
  scmd := scmd
  mem _ := 0
  obj := some zeroReq
  found := false
  shn := false

/-- The four steps of a round that finds the door bell. -/
def roundFor (env : Env) : List Action := List.replicate 4 (.nvme env)

/-- Creates completion queue 1 and submission queue 1, of four slots each. -/
def createQueues : List Action :=
  roundFor (ringFor 0 1 ⟨0x05, 1, 0, 0, 0x10000, 0, 0x30001, 0x10003, 0⟩) ++
    roundFor (ringFor 0 2 ⟨0x01, 2, 0, 0, 0x20000, 0, 0x30001, 0x10001, 0⟩)

/-- A READ of block 0 of the namespace `nsid`. -/
def readBlock (nsid : UInt32) : NvmeSCmd := ⟨0x02, 3, nsid, 0, 0x30000, 0, 0, 0, 0⟩

/-- The firmware after the initialization, with admin queues of 32 slots. -/
def bootState : State := initialState smallDevice 31 31 0x1000 0x2000 fun _ _ => 0

/-- An accepted READ has the callback. -/
theorem the_poll_is_never_lost_by_an_accepted_read :
    ∃ s, run (fwStep smallDevice) bootState
        (createQueues ++ roundFor (ringFor 1 1 (readBlock 1))) = some s ∧
      outstanding s = 1 ∧ PollsOrWorks smallDevice s := by
  have hrun : (run (fwStep smallDevice) bootState
      (createQueues ++ roundFor (ringFor 1 1 (readBlock 1)))).map outstanding = some 1 := by
    decide +kernel
  obtain ⟨s, hs, hout⟩ := Option.map_eq_some_iff.mp hrun
  exact ⟨s, hs, hout, the_poll_is_never_lost_while_commands_are_accepted smallDevice
    (by decide +kernel) hs⟩

/-- After a READ of a namespace that does not exist, no place has the callback. -/
theorem a_rejected_read_loses_the_poll :
    ¬ ∀ (acts : List Action) (s : State), run (fwStep smallDevice) bootState acts = some s →
      PollsOrWorks smallDevice s := by
  intro hall
  have hrun : (run (fwStep smallDevice) bootState
      (createQueues ++ roundFor (ringFor 1 1 (readBlock 5)))).map
        (fun s => (polls s, outstanding s)) = some (0, 0) := by
    decide +kernel
  obtain ⟨s, hs, hlost⟩ := Option.map_eq_some_iff.mp hrun
  obtain ⟨hpolls, hout⟩ := Prod.mk.inj hlost
  rcases hall _ s hs with ⟨hone, -⟩ | ⟨-, hone⟩
  · omega
  · have := hone.one
    omega

end S4Sim
