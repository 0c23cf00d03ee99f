-- The completion entries as the host gets them. All queues share one `ccmd_buf`, and the two
-- posting loops write four of its six fields before they send the 16 bytes. No function of
-- nvme_driver.c writes `sqid`, so the host gets what the memory held at power on.
import S4Sim.Firmware.Postings

open Runs

namespace S4Sim

/-! ## The shared buffer -/

/-- All fields of the entry in `ccmd_buf`. -/
structure CcmdBuf where
  cdw0 : Nat
  rsvd1 : Nat
  sqhd : Nat
  sqid : Nat
  cid : Nat
  status_p : Nat
  deriving DecidableEq, Repr

/-- The writes of the posting loops to `ccmd_buf`. -/
def CcmdBuf.fill (buf : CcmdBuf) (ccmd : NvmeCCmd) : CcmdBuf :=
  { buf with cdw0 := ccmd.cdw0, sqhd := ccmd.sqhd, cid := ccmd.cid, status_p := ccmd.status_p }

/-- The postings, each with the bytes that it sends. -/
def sent (buf : CcmdBuf) : List (Nat × Posting) → List ((Nat × Posting) × CcmdBuf)
  | [] => []
  | e :: rest => (e, buf.fill e.2.ccmd) :: sent (buf.fill e.2.ccmd) rest

/-! ## What the host needs -/

/-- The completion queue `cq` is queue `q` of the driver as it was at the turn of the posting
loop that sent the posting. -/
structure AtTurn (d : Driver) (q : Nat) (p : Posting) (cq : NvmeCQueue) : Prop where
  later : ∃ k, d.cqs q = NvmeCQueue.takePending^[k] cq.takePending
  taken : cq.pending.objs cq.pending.head = p.req
  slot : cq.tail = p.cqe

/-- The values that the firmware gives to `status`. -/
def statusValues : List Nat :=
  [0, NVME_SC_INVALID_FIELD ||| NVME_SC_DNR, NVME_SC_INVALID_OPCODE ||| NVME_SC_DNR]

/-- The entry is that of the request of the posting: its queue and its number, the head of
that queue, its result, and its status above the phase of the completion queue. -/
structure NamesCommand (d : Driver) (q : Nat) (p : Posting) (entry : CcmdBuf) : Prop where
  sqid : entry.sqid = p.req.sqid
  cid : entry.cid = p.req.scmd.cid.toNat
  sqhd : entry.sqhd = (d.sqs p.req.sqid).head
  cdw0 : entry.cdw0 = p.req.ccmd_dw0
  status : p.req.status ∈ statusValues →
    ∃ cq, AtTurn d q p cq ∧ entry.status_p = 2 * p.req.status + cq.phase.toNat

section Buffer

variable {buf entry : CcmdBuf} {e : Nat × Posting} {l r : List (Nat × Posting)}

theorem sent_append (buf : CcmdBuf) (l r : List (Nat × Posting)) :
    ∃ buf', buf'.sqid = buf.sqid ∧ sent buf (l ++ r) = sent buf l ++ sent buf' r := by
  induction l generalizing buf with
  | nil => exact ⟨buf, rfl, rfl⟩
  | cons e l ih =>
    obtain ⟨buf', hsqid, h⟩ := ih (buf.fill e.2.ccmd)
    exact ⟨buf', hsqid, by rw [List.cons_append, sent, h, sent, List.cons_append]⟩

theorem length_sent : (sent buf l).length = l.length := by
  induction l generalizing buf with
  | nil => rfl
  | cons e l ih => rw [sent, List.length_cons, ih, List.length_cons]

/-- An entry has the four fields of its posting, and the id that the buffer had at first. -/
theorem mem_sent (h : (e, entry) ∈ sent buf l) :
    e ∈ l ∧ entry.sqid = buf.sqid ∧ entry.cdw0 = e.2.ccmd.cdw0 ∧ entry.sqhd = e.2.ccmd.sqhd ∧
      entry.cid = e.2.ccmd.cid ∧ entry.status_p = e.2.ccmd.status_p := by
  induction l generalizing buf with
  | nil => cases h
  | cons e' l ih =>
    rcases List.mem_cons.mp h with heq | h
    · cases heq
      exact ⟨List.mem_cons_self, rfl, rfl, rfl, rfl, rfl⟩
    · obtain ⟨hmem, hfields⟩ := ih h
      exact ⟨List.mem_cons_of_mem _ hmem, hfields⟩

/-- The entries of the postings after those of `l`. -/
theorem mem_sent_drop (h : (e, entry) ∈ (sent buf (l ++ r)).drop l.length) :
    e ∈ r ∧ entry.sqid = buf.sqid ∧ entry.cdw0 = e.2.ccmd.cdw0 ∧ entry.sqhd = e.2.ccmd.sqhd ∧
      entry.cid = e.2.ccmd.cid ∧ entry.status_p = e.2.ccmd.status_p := by
  obtain ⟨buf', hsqid, hsent⟩ := sent_append buf l r
  rw [hsent, List.drop_left' length_sent] at h
  rw [← hsqid]
  exact mem_sent h

end Buffer

/-! ## The turns of a step -/

/-- A posting of a step is sent by a turn of a posting loop. The loop of `post_admin_ccmds`
takes the head of submission queue 0, that of `post_io_ccmds` the head of the request's. -/
structure SentBy (d : Driver) (e : Nat × Posting) : Prop where
  turn : ∃ cq sqhd, AtTurn d e.1 e.2 cq ∧ e.2 = postingOf cq sqhd e.2.req ∧
    (sqhd = d.sqhd e.2.req ∨ e.1 = 0 ∧ sqhd = (d.sqs 0).head)

/-- The driver `d'` has sent more, and each new posting was sent by a turn. -/
def Sends (d d' : Driver) : Prop :=
  ∃ new, d'.posted = d.posted ++ new ∧ ∀ e ∈ new, SentBy d' e

section Loop

variable {sqhd : Req → Nat} {cq cq' : NvmeCQueue} {ps : List Posting} {n : Nat}

/-- The loop is as many turns as it sends postings. -/
theorem post_ccmds_iterate (h : post_ccmds sqhd cq n = some (cq', ps)) :
    cq' = NvmeCQueue.takePending^[ps.length] cq := by
  induction n generalizing cq ps with
  | zero =>
    cases h
    rfl
  | succ n ih =>
    unfold post_ccmds at h
    split at h
    · cases h
      rfl
    · split at h
      · cases h
      · split at h
        · cases h
          rfl
        · obtain ⟨⟨cq1, ps1⟩, hpost, heq⟩ := Option.map_eq_some_iff.mp h
          cases heq
          rw [List.length_cons, Function.iterate_succ_apply]
          exact ih hpost

theorem post_ccmds_turns (h : post_ccmds sqhd cq n = some (cq', ps)) :
    ∀ p ∈ ps, ∃ cq0 k, cq' = NvmeCQueue.takePending^[k] cq0.takePending ∧
      cq0.pending.objs cq0.pending.head = p.req ∧ p = postingOf cq0 (sqhd p.req) p.req := by
  induction n generalizing cq ps with
  | zero =>
    cases h
    exact nofun
  | succ n ih =>
    unfold post_ccmds at h
    split at h
    · cases h
      exact nofun
    · split at h
      · cases h
      · split at h
        · cases h
          exact nofun
        · obtain ⟨⟨cq1, ps1⟩, hpost, heq⟩ := Option.map_eq_some_iff.mp h
          cases heq
          intro p hp
          rcases List.mem_cons.mp hp with rfl | hp
          · exact ⟨cq, ps1.length, post_ccmds_iterate hpost, rfl, rfl⟩
          · exact ih hpost p hp

end Loop

/-- Posting loops have run: the submission queues stay, and each completion queue has made
some turns. -/
structure Advances (d d' : Driver) : Prop where
  sqs : d'.sqs = d.sqs
  turns : ∀ q, ∃ k, d'.cqs q = NvmeCQueue.takePending^[k] (d.cqs q)

section Steps

variable {c : Config} {env : Env} {s s' : State} {d d' d1 : Driver} {req : Req} {q : Nat}
  {cq : NvmeCQueue} {ps : List Posting}

theorem AtTurn.later_turn {p : Posting} (h : AtTurn d q p cq) (hadv : Advances d d') :
    AtTurn d' q p cq := by
  obtain ⟨⟨k, hk⟩, htaken, hslot⟩ := h
  obtain ⟨m, hm⟩ := hadv.turns q
  refine ⟨⟨m + k, ?_⟩, htaken, hslot⟩
  rw [hm, hk, Function.iterate_add_apply]

theorem SentBy.later {e : Nat × Posting} (h : SentBy d e) (hadv : Advances d d') :
    SentBy d' e := by
  obtain ⟨cq, sqhd, hturn, hp, hhead⟩ := h
  refine ⟨cq, sqhd, hturn.later_turn hadv, hp, ?_⟩
  unfold Driver.sqhd
  rw [hadv.sqs]
  exact hhead

theorem Sends.refl : Sends d d := ⟨[], (List.append_nil _).symm, nofun⟩

theorem Sends.trans (h : Sends d d1) (hadv : Advances d1 d') (h' : Sends d1 d') : Sends d d' := by
  obtain ⟨new, hnew, hsent⟩ := h
  obtain ⟨new', hnew', hsent'⟩ := h'
  refine ⟨new ++ new', by rw [hnew', hnew, List.append_assoc], fun e he => ?_⟩
  rcases List.mem_append.mp he with he | he
  · exact (hsent e he).later hadv
  · exact hsent' e he

/-- Only the postings of the driver before count. -/
theorem Sends.of_posted (h : Sends d1 d') (hposted : d1.posted = d.posted) : Sends d d' := by
  obtain ⟨new, hnew, hsent⟩ := h
  exact ⟨new, hposted ▸ hnew, hsent⟩

/-- A posting loop on queue `q`, whose result is stored. -/
theorem sends_of_loop {sqhd : Req → Nat} {cq0 : NvmeCQueue} {n : Nat}
    (h : post_ccmds sqhd cq0 n = some (cq, ps)) (hcq : d'.cqs q = cq)
    (hposted : d'.posted = d.posted ++ ps.map (Prod.mk q))
    (hhead : ∀ req, sqhd req = d'.sqhd req ∨ q = 0 ∧ sqhd req = (d'.sqs 0).head) : Sends d d' := by
  refine ⟨ps.map (Prod.mk q), hposted, fun e he => ?_⟩
  obtain ⟨p, hp, rfl⟩ := List.mem_map.mp he
  obtain ⟨cq0, k, hk, htaken, heq⟩ := post_ccmds_turns h p hp
  exact ⟨cq0, _, ⟨⟨k, hcq.trans hk⟩, htaken, by rw [heq]; rfl⟩, heq, hhead p.req⟩

theorem sends_enqueue_io (h : d.enqueue_io_ccmd q req = some d') : Sends d d' := by
  unfold Driver.enqueue_io_ccmd at h
  split at h
  · cases h
  · obtain ⟨⟨cq, ps⟩, hcq, rfl⟩ := Option.map_eq_some_iff.mp h
    unfold NvmeCQueue.enqueueIo at hcq
    split at hcq
    · cases hcq
    · split at hcq
      · cases hcq
        exact ⟨[], by simp [Driver.store], nofun⟩
      · obtain ⟨cq1, -, hpost⟩ := Option.bind_eq_some_iff.mp hcq
        exact sends_of_loop hpost (store_cqs_self cq ps) rfl fun req => Or.inl rfl

theorem sends_enqueue_admin (h : d.enqueue_admin_ccmd req = some d') : Sends d d' := by
  obtain ⟨⟨cq, ps⟩, hcq, rfl⟩ := Option.map_eq_some_iff.mp h
  obtain ⟨cq1, -, hpost⟩ := Option.bind_eq_some_iff.mp hcq
  exact sends_of_loop hpost (store_cqs_self cq ps) rfl fun req => Or.inr ⟨rfl, rfl⟩

theorem sends_post_io (h : d.post_io_ccmds q = some d') : Sends d d' ∧ Advances d d' := by
  unfold Driver.post_io_ccmds at h
  split at h
  · cases h
  · obtain ⟨⟨cq, ps⟩, hcq, rfl⟩ := Option.map_eq_some_iff.mp h
    refine ⟨sends_of_loop hcq (store_cqs_self cq ps) rfl fun req => Or.inl rfl, rfl, fun i => ?_⟩
    by_cases hi : i = q
    · subst hi
      exact ⟨ps.length, by rw [store_cqs_self, post_ccmds_iterate hcq]⟩
    · exact ⟨0, store_cqs_of_ne cq ps hi⟩

theorem Advances.trans (h : Advances d d1) (h' : Advances d1 d') : Advances d d' := by
  refine ⟨h'.sqs.trans h.sqs, fun q => ?_⟩
  obtain ⟨k, hk⟩ := h.turns q
  obtain ⟨m, hm⟩ := h'.turns q
  exact ⟨m + k, by rw [hm, hk, Function.iterate_add_apply]⟩

theorem sends_retry {L : List Nat} (h : L.foldlM (fun d q => d.post_io_ccmds q) d = some d') :
    Sends d d' ∧ Advances d d' := by
  induction L generalizing d with
  | nil =>
    cases h
    exact ⟨.refl, rfl, fun q => ⟨0, rfl⟩⟩
  | cons q L ih =>
    rw [List.foldlM_cons] at h
    obtain ⟨d1, hd1, hrest⟩ := Option.bind_eq_some_iff.mp h
    obtain ⟨hsends, hadv⟩ := sends_post_io hd1
    obtain ⟨hsends', hadv'⟩ := ih hrest
    exact ⟨hsends.trans hadv' hsends', hadv.trans hadv'⟩

/-- An entry is read at a door bell: nothing is posted. -/
theorem read_posted (hd : d.sq_door_bell env.Qindex env.db_value = some d1)
    (h : d1.read_scmd env.Qindex env.scmd env.mem = some d') : d'.posted = d.posted := by
  obtain ⟨sq, -, rfl⟩ := Option.map_eq_some_iff.mp h
  unfold Driver.sq_door_bell at hd
  split at hd
  · cases hd
  · cases hd
    rfl

theorem QueueCommand.posted {scmd : NvmeSCmd} (h : QueueCommand scmd d d') :
    d'.posted = d.posted := by
  cases h <;> rfl

/-- Every posting of a step of the NVMe thread is sent by a turn. -/
theorem DriverMove.sends (h : DriverMove c env s d') : Sends s.driver d' := by
  cases h with
  | same => exact .refl
  | finished hreq hto hsqid h => exact sends_enqueue_io h
  | retried hpoll hbell h => exact (sends_retry h).1
  | released hpoll hbell h =>
    unfold Driver.cq_door_bell at h
    split at h
    · cases h
    · exact (sends_retry h).1.of_posted rfl
  | fetched hf hq hd h => exact Sends.refl.of_posted (read_posted hd h)
  | answered hf hq hd hd1 hask hto h => exact (sends_enqueue_io h).of_posted (read_posted hd hd1)
  | admin hf hq hd h =>
    obtain ⟨d1, hd1, d2, hcmd, hend⟩ := process_admin_cmd_move h
    have hposted : d2.posted = s.driver.posted := hcmd.posted.trans (read_posted hd (hq ▸ hd1))
    rcases hend with rfl | ⟨req, -, h⟩
    · exact Sends.refl.of_posted hposted
    · exact (sends_enqueue_admin h).of_posted hposted

/-! ## The heads -/

/-- The heads of the submission queues fit in the field `sqhd`. -/
def HeadsFit (sqs : Nat → NvmeSQueue) : Prop :=
  ∀ q, (sqs q).head < 2 ^ 16 ∧ (sqs q).size ≤ 2 ^ 16

theorem HeadsFit.read (h : HeadsFit d.sqs) (hsize : (d.sqs env.Qindex).size ≠ 0) :
    HeadsFit (sqsRead env d) := by
  intro q
  by_cases hq : q = env.Qindex
  · subst hq
    have hhead := Nat.mod_lt ((d.sqs env.Qindex).head + 1) (Nat.pos_of_ne_zero hsize)
    have hle := (h env.Qindex).2
    simp only [sqsRead, Function.update_self]
    exact ⟨by omega, hle⟩
  · simp only [sqsRead, Function.update_of_ne hq]
    exact h q

theorem HeadsFit.update {sqs : Nat → NvmeSQueue} {sq : NvmeSQueue} (h : HeadsFit sqs)
    (hhead : sq.head = 0) (hsize : sq.size ≤ 2 ^ 16) : HeadsFit (Function.update sqs q sq) := by
  intro i
  by_cases hi : i = q
  · subst hi
    simp only [Function.update_self]
    exact ⟨by omega, hsize⟩
  · rw [Function.update_of_ne hi]
    exact h i

theorem HeadsFit.queueCommand {scmd : NvmeSCmd} (h : HeadsFit d.sqs)
    (hcmd : QueueCommand scmd d d') : HeadsFit d'.sqs := by
  cases hcmd with
  | other => exact h
  | create_cq => exact h
  | delete_cq => exact h
  | create_sq =>
    refine h.update rfl ?_
    have := scmd.cdw10.toNat_lt
    simp only [createdSq, NvmeSCmd.qsize]
    omega
  | delete_sq => exact h.update rfl (Nat.zero_le _)

theorem HeadsFit.step {a : Action} (h : HeadsFit s.driver.sqs) (hstep : fwStep c s a = some s') :
    HeadsFit s'.driver.sqs := by
  rcases fwStep_driver hstep with ⟨env, -, hmove⟩ | ⟨transfers, hd⟩
  · rcases hmove.sqs with hsame | ⟨-, hfetched⟩
    · rw [hsame.sqs]
      exact h
    · have hread := h.read hfetched.size
      by_cases hq : env.Qindex = 0
      · obtain ⟨d1, d2, hsqs1, -, hcmd, hsqs2, -⟩ := hfetched.admin hq
        rw [hsqs2]
        exact HeadsFit.queueCommand (hsqs1 ▸ hread) hcmd
      · rw [(hfetched.io hq).1]
        exact hread
  · rw [hd]
    exact h

/-- Every posting of a step is sent by a turn. -/
theorem fwStep_sends {a : Action} (hstep : fwStep c s a = some s') : Sends s.driver s'.driver := by
  rcases fwStep_driver hstep with ⟨env, -, hmove⟩ | ⟨transfers, hd⟩
  · exact hmove.sends
  · rw [hd]
    exact Sends.refl.of_posted rfl

/-- `asqs` is a field of 12 bits of the register `aqa`. -/
theorem headsFit_initialState (c : Config) {asqs : Nat} (acqs asq acq : Nat)
    (flash : Ppa → Nat → UInt8) (hasqs : asqs < 2 ^ 12) :
    HeadsFit (initialState c asqs acqs asq acq flash).driver.sqs := by
  have hzero : HeadsFit Driver.zero.sqs := fun q => ⟨by simp [Driver.zero], by simp [Driver.zero]⟩
  refine hzero.update rfl ?_
  simp only
  omega

end Steps

/-! ## The law -/

/-- The status word is the status above the phase bit. -/
theorem status_word {phase : Bool} {sqhd : Nat} {req : Req} (h : req.status ∈ statusValues) :
    (ccmdOf phase sqhd req).status_p = 2 * req.status + phase.toNat := by
  have hphase : phase.toNat < 2 ^ 1 := by cases phase <;> decide
  have hstatus : req.status < 2 ^ 15 := by
    have hall : ∀ v ∈ statusValues, v < 2 ^ 15 := by decide
    exact hall _ h
  simp only [ccmdOf]
  rw [← Nat.shiftLeft_add_eq_or_of_lt hphase, Nat.shiftLeft_eq]
  omega

/-- In every run, whatever `ccmd_buf` held at power on, a posted entry names its command
exactly when the buffer held the id of the command's queue then. On completion queue 0 the
requests are those of admin commands. -/
theorem an_entry_names_its_command_iff_the_buffer_held_its_queue (c : Config)
    {asqs acqs asq acq : Nat} {flash : Ppa → Nat → UInt8} {acts : List Action} {a : Action}
    {s s' : State} (hasqs : asqs < 2 ^ 12)
    (h : run (fwStep c) (initialState c asqs acqs asq acq flash) acts = some s)
    (hstep : fwStep c s a = some s') {buf entry : CcmdBuf} {q : Nat} {p : Posting}
    (hsent : ((q, p), entry) ∈ (sent buf s'.driver.posted).drop s.driver.posted.length)
    (hadmin : q = 0 → p.req.sqid = 0) :
    NamesCommand s'.driver q p entry ↔ p.req.sqid = buf.sqid := by
  have hheads : HeadsFit s'.driver.sqs :=
    (run_keeps (I := fun s => HeadsFit s.driver.sqs) (fun _ _ _ ht hstep => ht.step hstep)
      (headsFit_initialState c acqs asq acq flash hasqs) h).step hstep
  obtain ⟨new, hnew, hall⟩ := fwStep_sends hstep
  rw [hnew] at hsent
  obtain ⟨hmem, hsqid, hcdw0, hsqhd, hcid, hstatus⟩ := mem_sent_drop hsent
  obtain ⟨cq, sqhd, hturn, hp, hhead⟩ := (hall _ hmem).turn
  have hccmd : p.ccmd = ccmdOf cq.phase sqhd p.req := congrArg Posting.ccmd hp
  -- Both loops take the head of the request's queue.
  have hhead : sqhd = (s'.driver.sqs p.req.sqid).head := by
    rcases hhead with rfl | ⟨hq, rfl⟩
    · rfl
    · rw [hadmin hq]
  constructor
  · intro hnames
    exact hnames.sqid.symm.trans hsqid
  · intro hqueue
    refine ⟨hsqid.trans hqueue.symm, ?_, ?_, ?_, fun hvalue => ⟨cq, hturn, ?_⟩⟩
    · rw [hcid, hccmd]
      rfl
    · rw [hsqhd, hccmd, ← hhead]
      exact Nat.mod_eq_of_lt (hhead ▸ (hheads p.req.sqid).1)
    · rw [hcdw0, hccmd]
      rfl
    · rw [hstatus, hccmd]
      exact status_word hvalue

/-- Zeroed memory. -/
def zeroBuf : CcmdBuf := ⟨0, 0, 0, 0, 0, 0⟩

/-- The steps before the first admin command is fetched. -/
def untilFirstFetch : List Action := createQueues.take 1

/-- The door bell of the command that creates completion queue 1. -/
def createFirst : Env := ringFor 0 1 ⟨0x05, 1, 0, 0, 0x10000, 0, 0x30001, 0x10003, 0⟩

/-- The entry of an admin command, from zeroed memory. -/
theorem the_entry_of_the_first_admin_command_names_it :
    ∃ s s' p entry, run (fwStep smallDevice) bootState untilFirstFetch = some s ∧
      fwStep smallDevice s (.nvme createFirst) = some s' ∧
      ((0, p), entry) ∈ (sent zeroBuf s'.driver.posted).drop s.driver.posted.length ∧
      NamesCommand s'.driver 0 p entry := by
  have hrun : (run (fwStep smallDevice) bootState (untilFirstFetch ++ [.nvme createFirst])).map
      (fun s => s.driver.posted.map fun e => (e.1, e.2.req.sqid)) = some [(0, 0)] := by
    decide +kernel
  have hbefore : (run (fwStep smallDevice) bootState untilFirstFetch).map
      (fun s => s.driver.posted.length) = some 0 := by
    decide +kernel
  obtain ⟨s', hs', hposted⟩ := Option.map_eq_some_iff.mp hrun
  obtain ⟨s, hs, hstep⟩ := run_snoc_eq_some.mp hs'
  rw [hs] at hbefore
  have hzero : s.driver.posted.length = 0 := Option.some.inj hbefore
  obtain ⟨⟨q, p⟩, hlist, hvals⟩ := List.map_eq_singleton_iff.mp hposted
  obtain ⟨rfl, hsqid⟩ := Prod.mk.inj hvals
  have hsent : ((0, p), zeroBuf.fill p.ccmd) ∈
      (sent zeroBuf s'.driver.posted).drop s.driver.posted.length := by
    rw [hlist, hzero]
    exact List.mem_singleton_self _
  refine ⟨s, s', p, _, hs, hstep, hsent, ?_⟩
  exact (an_entry_names_its_command_iff_the_buffer_held_its_queue smallDevice (by decide) hs hstep
    hsent fun _ => hsqid).mpr hsqid

/-- A host with two submission queues on completion queue 1. -/
def shareQueue : List Action :=
  createQueues ++ roundFor (ringFor 0 3 ⟨0x01, 3, 0, 0, 0x40000, 0, 0x30002, 0x10001, 0⟩)

/-- A FLUSH with the number 5, from submission queue `q`. -/
def flushFrom (q : Nat) : Env := ringFor q 1 ⟨0x00, 5, 1, 0, 0, 0, 0, 0, 0⟩

/-- The steps before the FLUSH of submission queue 2 is fetched. -/
def untilSecondFlush : List Action :=
  shareQueue ++ roundFor (flushFrom 1) ++ (roundFor (flushFrom 2)).take 1

/-- Two submission queues each send a FLUSH with the number 5. The second entry has the
queue 0, like the first. -/
theorem an_entry_of_a_shared_queue_does_not_name_its_command :
    ¬ ∀ (acts : List Action) (a : Action) (s s' : State),
      run (fwStep smallDevice) bootState acts = some s → fwStep smallDevice s a = some s' →
      ∀ q p entry, ((q, p), entry) ∈
          (sent zeroBuf s'.driver.posted).drop s.driver.posted.length →
        NamesCommand s'.driver q p entry := by
  intro hall
  have hrun : (run (fwStep smallDevice) bootState
      (untilSecondFlush ++ [.nvme (flushFrom 2)])).map
      (fun s => ((sent zeroBuf s.driver.posted).drop 4).map fun x =>
        (x.1.2.req.sqid, x.2.sqid)) = some [(2, 0)] := by
    decide +kernel
  have hbefore : (run (fwStep smallDevice) bootState untilSecondFlush).map
      (fun s => s.driver.posted.length) = some 4 := by
    decide +kernel
  obtain ⟨s', hs', hsent⟩ := Option.map_eq_some_iff.mp hrun
  obtain ⟨s, hs, hstep⟩ := run_snoc_eq_some.mp hs'
  rw [hs] at hbefore
  have hfour : s.driver.posted.length = 4 := Option.some.inj hbefore
  obtain ⟨⟨⟨q, p⟩, entry⟩, hlist, hvals⟩ := List.map_eq_singleton_iff.mp hsent
  obtain ⟨hreq, hentry⟩ := Prod.mk.inj hvals
  have hmem : ((q, p), entry) ∈ (sent zeroBuf s'.driver.posted).drop s.driver.posted.length := by
    rw [hfour, hlist]
    exact List.mem_singleton_self _
  have hsqid := (hall _ _ s s' hs hstep q p entry hmem).sqid
  simp only at hreq hentry
  omega

end S4Sim
