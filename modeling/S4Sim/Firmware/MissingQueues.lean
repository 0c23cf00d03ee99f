-- Door bells of I/O queues that do not exist. `checkSQID` is there to reject them, but
-- `check_door_bell` does not call it: a submission queue door bell reads an entry of the
-- missing queue, and a completion queue door bell is stored and starts the posting loop.
import S4Sim.Firmware.QueueRules

open Runs

namespace S4Sim

/-! ## The queues by the log of commands -/

/-- One turn of the replay of the log: the last command about queue `q` decides. -/
def queueStep (create delete q : Nat) (live : Bool) (f : Fetch) : Bool :=
  if f.sqid = 0 ∧ f.scmd.qid = q then
    if f.scmd.opcode.toNat = create then true
    else if f.scmd.opcode.toNat = delete then false
    else live
  else live

/-- The I/O submission queue was created and not deleted after that. -/
def sqExists (fetched : List Fetch) (q : Nat) : Bool :=
  fetched.foldl (queueStep 0x01 0x00 q) false

/-- The I/O completion queue was created and not deleted after that. -/
def cqExists (fetched : List Fetch) (q : Nat) : Bool :=
  fetched.foldl (queueStep 0x05 0x04 q) false

/-- The door bell in the register is of an I/O queue that does not exist. -/
def NamesMissing (s : State) (env : Env) : Prop :=
  env.Qindex ≠ 0 ∧
    (env.DoorBell = 1 ∧ sqExists s.driver.fetched env.Qindex = false ∨
      env.DoorBell = 2 ∧ cqExists s.driver.fetched env.Qindex = false)

instance (s : State) (env : Env) : Decidable (NamesMissing s env) := by
  unfold NamesMissing
  infer_instance

variable (c : Config)

/-- The step of the NVMe thread has an outcome, and it changes no queue, ring or request. -/
def Ignored (env : Env) (s : State) : Prop :=
  ∃ s', nvmeStep c env s = some s' ∧ s'.driver = s.driver ∧ s'.buf = s.buf ∧ s'.ftl = s.ftl ∧
    s'.dma = s.dma ∧ s'.isp = s.isp

/-! ## The condition -/

/-- The posting loop stops before its first posting. -/
def NvmeCQueue.Blocked (cq : NvmeCQueue) : Prop :=
  cq.pending.head = cq.pending.tail ∨ cq.size ≠ 0 ∧ cq.nvme_cq_full = true

/-- The loop over the I/O queues stays in the array and posts nothing. -/
def NothingToPost (d : Driver) : Prop :=
  ∀ i ∈ List.range' 1 d.iocqCount, i ≤ MAX_IO_SQCQ_PAIRS ∧ (d.cqs i).Blocked

/-- A completion queue door bell with the head that the driver has. -/
structure RepeatsHead (env : Env) (d : Driver) : Prop where
  kind : env.DoorBell = 2
  index : env.Qindex ≤ MAX_IO_SQCQ_PAIRS
  head : env.db_value = (d.cqs env.Qindex).head
  nothing : NothingToPost d

section Loops

variable {c : Config} {cq cq' : NvmeCQueue} {d d' : Driver} {ps : List Posting} {q n : Nat}
  {sqhd : Req → Nat} {L : List Nat}

theorem post_ccmds_nil (h : post_ccmds sqhd cq n = some (cq', [])) : cq' = cq := by
  cases n with
  | zero =>
    cases h
    rfl
  | succ n =>
    unfold post_ccmds at h
    split at h
    · cases h
      rfl
    · split at h
      · cases h
      · split at h
        · cases h
          rfl
        · obtain ⟨⟨cq1, ps1⟩, -, heq⟩ := Option.map_eq_some_iff.mp h
          cases heq

/-- On a queue whose ring is empty when it has no size, the loop posts nothing exactly
when it stops at once. -/
theorem postAll_nil_iff (sqhd : Req → Nat)
    (hring : cq.pending.size = 0 → cq.pending.head = cq.pending.tail) :
    postAll sqhd cq = some (cq, []) ↔ cq.Blocked := by
  unfold postAll NvmeCQueue.Blocked
  cases hn : cq.pending.size with
  | zero => simp [post_ccmds, hring hn]
  | succ n =>
    unfold post_ccmds
    by_cases hempty : cq.pending.head = cq.pending.tail
    · simp [hempty]
    · rw [if_neg hempty]
      by_cases hsize : cq.size = 0
      · simp [hsize, hempty]
      · rw [if_neg hsize]
        by_cases hfull : cq.nvme_cq_full = true
        · simp [hfull, hsize]
        · simp [hfull, hempty]

theorem store_nil : d.store q (d.cqs q) [] = d := by
  simp [Driver.store]

theorem posted_of_post_io (h : d.post_io_ccmds q = some d') : d.posted <+: d'.posted := by
  unfold Driver.post_io_ccmds at h
  split at h
  · cases h
  · obtain ⟨⟨cq, ps⟩, -, rfl⟩ := Option.map_eq_some_iff.mp h
    exact List.prefix_append _ _

theorem posted_of_retry (h : L.foldlM (fun d q => d.post_io_ccmds q) d = some d') :
    d.posted <+: d'.posted := by
  induction L generalizing d with
  | nil =>
    cases h
    exact List.prefix_rfl
  | cons q L ih =>
    rw [List.foldlM_cons] at h
    obtain ⟨d1, hd1, hrest⟩ := Option.bind_eq_some_iff.mp h
    exact (posted_of_post_io hd1).trans (ih hrest)

/-- A posting loop that posts nothing leaves the driver. -/
theorem post_io_unposted (h : d.post_io_ccmds q = some d') (hp : d'.posted = d.posted) :
    d' = d := by
  unfold Driver.post_io_ccmds at h
  split at h
  · cases h
  · obtain ⟨⟨cq, ps⟩, hcq, rfl⟩ := Option.map_eq_some_iff.mp h
    have hps : ps = [] := by simpa [Driver.store] using hp
    subst hps
    have hsame := post_ccmds_nil hcq
    subst hsame
    exact store_nil

/-- Rings without a size are empty. -/
def EmptyRings (d : Driver) : Prop :=
  ∀ q, (d.cqs q).pending.size = 0 → (d.cqs q).pending.head = (d.cqs q).pending.tail

theorem post_io_eq_self_iff (hring : EmptyRings d) :
    d.post_io_ccmds q = some d ↔ q ≤ MAX_IO_SQCQ_PAIRS ∧ (d.cqs q).Blocked := by
  rw [← postAll_nil_iff d.sqhd (hring q)]
  unfold Driver.post_io_ccmds
  by_cases hq : q > MAX_IO_SQCQ_PAIRS
  · rw [if_pos hq]
    simp [not_le.mpr hq]
  · rw [if_neg hq]
    constructor
    · intro h
      obtain ⟨⟨cq, ps⟩, hcq, heq⟩ := Option.map_eq_some_iff.mp h
      have hps : ps = [] := by simpa [Driver.store] using congrArg Driver.posted heq
      subst hps
      have hsame := post_ccmds_nil hcq
      subst hsame
      exact ⟨not_lt.mp hq, hcq⟩
    · rintro ⟨-, hcq⟩
      rw [hcq]
      exact congrArg some store_nil

theorem retry_eq_self_iff (hring : EmptyRings d) :
    L.foldlM (fun d q => d.post_io_ccmds q) d = some d ↔
      ∀ i ∈ L, i ≤ MAX_IO_SQCQ_PAIRS ∧ (d.cqs i).Blocked := by
  induction L with
  | nil => simp
  | cons q L ih =>
    rw [List.foldlM_cons, List.forall_mem_cons, ← ih, ← post_io_eq_self_iff hring]
    constructor
    · intro h
      obtain ⟨d1, hd1, hrest⟩ := Option.bind_eq_some_iff.mp h
      -- The log only grows, so no turn of the loop has posted.
      have hp : d1.posted = d.posted :=
        (posted_of_retry hrest).eq_of_length
          (Nat.le_antisymm (posted_of_retry hrest).length_le (posted_of_post_io hd1).length_le)
      have hsame := post_io_unposted hd1 hp
      subst hsame
      exact ⟨hd1, hrest⟩
    · rintro ⟨hd1, hrest⟩
      rw [hd1]
      exact hrest

theorem post_io_head (h : d.post_io_ccmds q = some d') (i : Nat) :
    (d'.cqs i).head = (d.cqs i).head := by
  unfold Driver.post_io_ccmds at h
  split at h
  · cases h
  · obtain ⟨⟨cq, ps⟩, hcq, rfl⟩ := Option.map_eq_some_iff.mp h
    by_cases hi : i = q
    · subst hi
      rw [store_cqs_self]
      refine post_ccmds_rule (P := fun cq => cq.head = (d.cqs i).head) ?_ rfl hcq
      intro cq h _
      rw [← h]
      unfold NvmeCQueue.takePending NvmeCQueue.inc_cq_tail
      split <;> rfl
    · rw [store_cqs_of_ne cq ps hi]

theorem retry_head (h : L.foldlM (fun d q => d.post_io_ccmds q) d = some d') (i : Nat) :
    (d'.cqs i).head = (d.cqs i).head := by
  induction L generalizing d with
  | nil =>
    cases h
    rfl
  | cons q L ih =>
    rw [List.foldlM_cons] at h
    obtain ⟨d1, hd1, hrest⟩ := Option.bind_eq_some_iff.mp h
    rw [ih hrest, post_io_head hd1]

theorem setCqHead_self : d.setCqHead q (d.cqs q).head = d := by
  simp [Driver.setCqHead]

/-- A completion queue door bell leaves the driver exactly when it repeats the head and
nothing can be posted. -/
theorem cq_door_bell_eq_self_iff (hring : EmptyRings d) {head : Nat} :
    d.cq_door_bell q head = some d ↔
      q ≤ MAX_IO_SQCQ_PAIRS ∧ head = (d.cqs q).head ∧ NothingToPost d := by
  unfold Driver.cq_door_bell
  by_cases hq : q > MAX_IO_SQCQ_PAIRS
  · rw [if_pos hq]
    simp [not_le.mpr hq]
  · rw [if_neg hq]
    constructor
    · intro h
      have hhead := retry_head h q
      simp only [Driver.setCqHead, Function.update_self] at hhead
      rw [← hhead, setCqHead_self] at h
      exact ⟨not_lt.mp hq, hhead.symm, (retry_eq_self_iff hring).mp h⟩
    · rintro ⟨-, rfl, hnothing⟩
      rw [setCqHead_self]
      exact (retry_eq_self_iff hring).mpr hnothing

end Loops

/-! ## The invariant -/

/-- A queue that does not exist has the size 0, and its ring is empty if it never existed. -/
structure Replayed (d : Driver) : Prop where
  sqs : ∀ q ≠ 0, sqExists d.fetched q = false → (d.sqs q).size = 0
  rings : EmptyRings d

section Steps

variable {c : Config} {env : Env} {s s' : State} {d d' : Driver} {f : Fetch} {q : Nat}

theorem sqExists_snoc {l : List Fetch} :
    sqExists (l ++ [f]) q = queueStep 0x01 0x00 q (sqExists l q) f := by
  simp [sqExists]

/-- Only an admin command to create or delete the queue changes whether it exists. -/
theorem queueStep_other {create delete : Nat} {live : Bool}
    (h : f.sqid = 0 → f.scmd.qid = q → f.scmd.opcode.toNat ≠ create ∧
      f.scmd.opcode.toNat ≠ delete) : queueStep create delete q live f = live := by
  unfold queueStep
  split
  · rename_i hf
    obtain ⟨hcreate, hdelete⟩ := h hf.1 hf.2
    rw [if_neg hcreate, if_neg hdelete]
  · rfl

theorem sqsRead_size (env : Env) (d : Driver) (q : Nat) :
    (sqsRead env d q).size = (d.sqs q).size := by
  by_cases hq : q = env.Qindex
  · subst hq
    simp [sqsRead]
  · simp [sqsRead, Function.update_of_ne hq]

theorem emptyRings_rule : CqRule env s fun _ _ cq =>
    cq.pending.size = 0 → cq.pending.head = cq.pending.tail where
  take h hne hsize := absurd (h (by
    unfold NvmeCQueue.takePending NvmeCQueue.inc_cq_tail at hsize
    split at hsize <;> exact hsize)) hne
  push h _ hpush := by
    unfold NvmeCQueue.pushPending at hpush
    split at hpush
    · rename_i hpos
      cases hpush
      intro hsize
      exact absurd hsize (Nat.pos_iff_ne_zero.mp hpos.2)
    · cases hpush
  release _ h := h
  create _ _ _ := rfl
  delete _ h := h

/-- A submission queue that a fetched command leaves missing has the size 0. -/
theorem Fetched.sqs_size (h : Fetched env d d')
    (hd : ∀ q ≠ 0, sqExists d.fetched q = false → (d.sqs q).size = 0) (hq : q ≠ 0)
    (hmiss : sqExists d'.fetched q = false) : (d'.sqs q).size = 0 := by
  rw [h.fetched, sqExists_snoc] at hmiss
  by_cases hio : env.Qindex = 0
  · obtain ⟨d1, d2, hsqs1, -, hcmd, hsqs, -⟩ := h.admin hio
    have hread : sqExists d.fetched q = false → (d1.sqs q).size = 0 := by
      intro hold
      rw [hsqs1, sqsRead_size]
      exact hd q hq hold
    rw [hsqs]
    cases hcmd with
    | other hop =>
      rw [queueStep_other] at hmiss
      · exact hread hmiss
      · intro _ _
        simp only [List.mem_cons, List.not_mem_nil, or_false, not_or] at hop
        exact ⟨hop.2.1, hop.1⟩
    | create_cq hop =>
      rw [queueStep_other] at hmiss
      · exact hread hmiss
      · intro _ _
        simp [fetchOf, hop]
    | delete_cq hop =>
      rw [queueStep_other] at hmiss
      · exact hread hmiss
      · intro _ _
        simp [fetchOf, hop]
    | create_sq hop =>
      by_cases hqid : q = env.scmd.qid
      · simp [queueStep, fetchOf, hio, hqid, hop] at hmiss
      · simp only [Function.update_of_ne hqid]
        rw [queueStep_other] at hmiss
        · exact hread hmiss
        · intro _ he
          exact absurd he.symm hqid
    | delete_sq hop =>
      by_cases hqid : q = env.scmd.qid
      · subst hqid
        simp [deletedSq]
      · simp only [Function.update_of_ne hqid]
        rw [queueStep_other] at hmiss
        · exact hread hmiss
        · intro _ he
          exact absurd he.symm hqid
  · rw [queueStep_other] at hmiss
    · rw [(h.io hio).1, sqsRead_size]
      exact hd q hq hmiss
    · intro h0 _
      exact absurd h0 hio

theorem Replayed.move (h : Replayed s.driver) (hmove : DriverMove c env s d') : Replayed d' := by
  refine ⟨?_, emptyRings_rule.move h.rings hmove⟩
  rcases hmove.sqs with hsame | ⟨-, hfetched⟩
  · rw [hsame.sqs, hsame.fetched]
    exact h.sqs
  · intro q hq hmiss
    exact hfetched.sqs_size h.sqs hq hmiss

theorem Replayed.step {a : Action} (h : Replayed s.driver) (hstep : fwStep c s a = some s') :
    Replayed s'.driver := by
  rcases fwStep_driver hstep with ⟨env, -, hmove⟩ | ⟨transfers, hd⟩
  · exact h.move hmove
  · rw [hd]
    exact ⟨h.sqs, h.rings⟩

theorem replayed_initialState (c : Config) (asqs acqs asq acq : Nat)
    (flash : Ppa → Nat → UInt8) : Replayed (initialState c asqs acqs asq acq flash).driver := by
  refine ⟨?_, ?_⟩
  · intro q hq _
    simp [initialState, initialize_nvme, Function.update_of_ne hq, Driver.zero]
  · intro q
    by_cases hq : q = 0
    · subst hq
      simp [initialState, initialize_nvme, NvmeCQueue.setUp]
    · simp [initialState, initialize_nvme, Function.update_of_ne hq, Driver.zero]

/-! ## One door bell -/

/-- A step that runs `check_door_bell`. -/
theorem nvmeStep_poll (c : Config) (env : Env) (hpoll : aboutToPoll s = true) :
    ∃ callbacks todo, nvmeStep c env s = check_door_bell c env { s with callbacks, todo } := by
  unfold aboutToPoll at hpoll
  split at hpoll
  · rename_i todo callbacks htodo hcb
    refine ⟨callbacks, todo, ?_⟩
    simp only [nvmeStep, htodo, runTask, hcb]
  · cases hpoll

/-- A submission queue of size 0: the head steps modulo 0. -/
theorem sq_door_bell_of_missing (hpoll : aboutToPoll s = true) (hbell : env.DoorBell = 1)
    (hq : env.Qindex ≠ 0) (hsize : (s.driver.sqs env.Qindex).size = 0) :
    nvmeStep c env s = none := by
  obtain ⟨callbacks, todo, hstep⟩ := nvmeStep_poll c env hpoll
  cases hs : nvmeStep c env s with
  | none => rfl
  | some s' =>
    rw [hstep, check_door_bell, if_pos hbell] at hs
    obtain ⟨d, hd, hs⟩ := Option.bind_eq_some_iff.mp hs
    rw [if_pos hq] at hs
    obtain ⟨d1, hd1, -⟩ := Option.bind_eq_some_iff.mp hs
    exact absurd hsize (read_after_door_bell hd hd1).2.1

/-- A completion queue door bell is ignored exactly when it leaves the driver. -/
theorem ignored_cq_iff (hpoll : aboutToPoll s = true) (hbell : env.DoorBell = 2) :
    Ignored c env s ↔ s.driver.cq_door_bell env.Qindex env.db_value = some s.driver := by
  obtain ⟨callbacks, todo, hstep⟩ := nvmeStep_poll c env hpoll
  have h1 : ¬env.DoorBell = 1 := by omega
  unfold Ignored
  rw [hstep, check_door_bell, if_neg h1, if_pos hbell]
  constructor
  · rintro ⟨s', hs, hdriver, -⟩
    obtain ⟨d', hd', rfl⟩ := Option.map_eq_some_iff.mp hs
    have hd : d' = s.driver := hdriver
    exact hd ▸ hd'
  · intro h
    refine ⟨_, Option.map_eq_some_iff.mpr ⟨_, h, rfl⟩, rfl, rfl, rfl, rfl, rfl⟩

end Steps

/-! ## The law -/

/-- In every state that the firmware reaches, a door bell of an I/O queue that does not exist
is ignored exactly when it is one of a completion queue in the array, repeats the head that
the driver has, and finds nothing to post. -/
theorem a_missing_queue_is_ignored_iff_the_head_is_repeated {asqs acqs asq acq : Nat}
    {flash : Ppa → Nat → UInt8} {acts : List Action} {s : State}
    (h : run (fwStep c) (initialState c asqs acqs asq acq flash) acts = some s) {env : Env}
    (hpoll : aboutToPoll s = true) (hmiss : NamesMissing s env) :
    Ignored c env s ↔ RepeatsHead env s.driver := by
  have hreplayed : Replayed s.driver :=
    run_keeps (I := fun s => Replayed s.driver) (fun _ _ _ ht hstep => ht.step hstep)
      (replayed_initialState ..) h
  obtain ⟨hq, ⟨hbell, hexists⟩ | ⟨hbell, -⟩⟩ := hmiss
  · have hnone := sq_door_bell_of_missing (c := c) hpoll hbell hq (hreplayed.sqs _ hq hexists)
    constructor
    · rintro ⟨s', hs, -⟩
      rw [hnone] at hs
      cases hs
    · rintro ⟨hkind, -⟩
      omega
  · rw [ignored_cq_iff hpoll hbell, cq_door_bell_eq_self_iff hreplayed.rings]
    constructor
    · rintro ⟨hindex, hhead, hnothing⟩
      exact ⟨hbell, hindex, hhead, hnothing⟩
    · rintro ⟨-, hindex, hhead, hnothing⟩
      exact ⟨hindex, hhead, hnothing⟩

/-- The register with a door bell of the queue `Qindex`. -/
def lateBell (DoorBell Qindex db_value : Nat) : Env :=
  { ringFor Qindex db_value (readBlock 1) with DoorBell }

/-- Deletes submission queue 1, and then the next round of `run_thread` starts. -/
def deleteQueue : List Action :=
  roundFor (ringFor 0 3 ⟨0x00, 4, 0, 0, 0, 0, 1, 0, 0⟩) ++ [.nvme (lateBell 0 0 0)]

/-- Completion queue 2 was never created, and the host writes the head 0. -/
theorem a_missing_queue_is_ignored_at_head_0 :
    ∃ s, run (fwStep smallDevice) bootState (createQueues ++ deleteQueue) = some s ∧
      Ignored smallDevice (lateBell 2 2 0) s := by
  have hrun : (run (fwStep smallDevice) bootState (createQueues ++ deleteQueue)).map
      (fun s => (aboutToPoll s, decide (NamesMissing s (lateBell 2 2 0)), (s.driver.cqs 2).head,
        s.driver.iocqCount, (s.driver.cqs 1).pending.head, (s.driver.cqs 1).pending.tail)) =
          some (true, true, 0, 1, 0, 0) := by
    decide +kernel
  obtain ⟨s, hs, hvals⟩ := Option.map_eq_some_iff.mp hrun
  simp only [Prod.mk.injEq, decide_eq_true_eq] at hvals
  obtain ⟨hpoll, hmiss, hhead, hcount, hph, hpt⟩ := hvals
  refine ⟨s, hs, ?_⟩
  apply (a_missing_queue_is_ignored_iff_the_head_is_repeated smallDevice hs hpoll hmiss).mpr
  refine ⟨rfl, by decide, hhead.symm, ?_⟩
  intro i hi
  rw [hcount] at hi
  obtain rfl : i = 1 := by simpa using hi
  exact ⟨by decide, Or.inl (hph.trans hpt.symm)⟩

/-- A door bell of the deleted submission queue steps its head modulo 0. -/
theorem a_late_door_bell_is_not_ignored :
    ¬ ∀ (acts : List Action) (s : State), run (fwStep smallDevice) bootState acts = some s →
      ∀ env : Env, aboutToPoll s = true → NamesMissing s env → Ignored smallDevice env s := by
  intro hall
  have hrun : (run (fwStep smallDevice) bootState (createQueues ++ deleteQueue)).map
      (fun s => (aboutToPoll s, decide (NamesMissing s (lateBell 1 1 1)),
        (nvmeStep smallDevice (lateBell 1 1 1) s).isSome)) = some (true, true, false) := by
    decide +kernel
  obtain ⟨s, hs, hvals⟩ := Option.map_eq_some_iff.mp hrun
  simp only [Prod.mk.injEq, decide_eq_true_eq] at hvals
  obtain ⟨hpoll, hmiss, hnone⟩ := hvals
  obtain ⟨s', hs', -⟩ := hall _ s hs _ hpoll hmiss
  rw [hs'] at hnone
  cases hnone

end S4Sim
