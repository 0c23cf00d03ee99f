-- Flush durability. The handler of FLUSH flushes nothing. The law holds because nothing is
-- posted while a write-back is under way: the callback that polls the door bells comes back
-- only after the FTL has programmed the pages, and no other function posts then.
import S4Sim.Firmware.BadCommands
import S4Sim.Firmware.IspMessages
import S4Sim.Firmware.Postings
import S4Sim.Firmware.TableSteps
import S4Sim.Firmware.WriteBack

open Runs

namespace S4Sim

/-! ## Runs of commands -/

/-- The steps of the NVMe, DMA and FTL threads. No applet runs, and the host does not shut
the device down. -/
inductive CommandAction
  | nvme (env : Env)
  | dma (mem : Mem)
  | ftl (pick : Nat)

def CommandAction.toAction : CommandAction → Action
  | .nvme env => .nvme { env with shn := false }
  | .dma mem => .dma mem
  | .ftl pick => .ftl pick fun _ => 0

def Fetch.isFlush (f : Fetch) : Bool := f.sqid != 0 && f.scmd.opcode.toNat == 0x00

/-- The LPN of page `i` of the command. -/
def Fetch.lpn (f : Fetch) (i : Nat) : Nat := (f.scmd.slba + i) % 2 ^ 32

variable (c : Config)

/-- A WRITE that `verify_rw_param` accepts. -/
def Fetch.acceptedWrite (f : Fetch) : Bool := f.isWrite && verify_rw_param c f.scmd

/-- The pages that a step adds to the log: `sync_write_io_dma` returns, and the data of the
WRITE is in the page buffer. -/
def loggedPages (s : State) : CommandAction → List WrittenPage
  | .nvme _ =>
    match s.todo, s.dma with
    | .write_dma req :: _, none => writtenPages c req s.buf.page_buffer
    | _, _ => []
  | _ => []

/-- A step of the firmware, with the log of written pages beside it. -/
def loggedStep (x : State × List WrittenPage) (a : CommandAction) :
    Option (State × List WrittenPage) :=
  (fwStep c x.1 a.toAction).map fun s => (s, x.2 ++ loggedPages c x.1 a)

/-- Each page of the WRITE, or a later page of its LPN, is in the flash page that `lpa_table`
maps the LPN to. -/
def WriteKept (t : FtlThread) (log : List WrittenPage) (w : Fetch) : Prop :=
  ∀ i ≤ w.scmd.nlbs, ∃ early p late, log = early ++ p :: late ∧ p.uid = w.uid ∧ p.lpn = w.lpn i ∧
    ∃ p' ∈ p :: late, p'.lpn = p.lpn ∧ InFlash c t p'

/-- When the step posts the completion of a FLUSH, every accepted WRITE whose completion was
posted earlier is kept. -/
def FlushDurable (x : State × List WrittenPage) (a : CommandAction) : Prop :=
  ∀ y, loggedStep c x a = some y → ∀ early e late, y.1.driver.posted = early ++ e :: late →
    x.1.driver.posted.length ≤ early.length →
    (∃ f ∈ y.1.driver.fetched, f.isFlush = true ∧ f.uid = e.2.req.uid) →
    ∀ e' ∈ early, ∀ w ∈ y.1.driver.fetched, w.acceptedWrite c = true → w.uid = e'.2.req.uid →
      WriteKept c y.1.ftl y.2 w

/-! ## The invariant -/

/-- The pages of the WRITE are in the log. -/
def Logged (log : List WrittenPage) (f : Fetch) : Prop :=
  ∀ i ≤ f.scmd.nlbs, ∃ p ∈ log, p.uid = f.uid ∧ p.lpn = f.lpn i

/-- The number is that of a fetched command. If this is an accepted WRITE, its pages are in
the log. -/
structure Known (fetched : List Fetch) (log : List WrittenPage) (uid : Nat) : Prop where
  lt : uid < fetched.length
  logged : ∀ f ∈ fetched, f.uid = uid → f.acceptedWrite c = true → Logged log f

/-- The request is that of the fetched command with its number. -/
structure RequestOf (fetched : List Fetch) (req : Req) : Prop where
  lt : req.uid < fetched.length
  same : ∀ f ∈ fetched, f.uid = req.uid →
    f.scmd.slba = req.scmd.slba ∧ f.scmd.nlbs = req.scmd.nlbs

/-- No page waits for the flash. -/
structure AllWritten (b : Books) (log : List WrittenPage) : Prop where
  flash : AllInFlash c b.ftl log
  reads : OnlyReads b.ftl
  wbc : ∀ i, (b.wbc.pages i).valid = false

/-- Where the pages of the log are, at each stage. -/
def PagesAt (b : Books) (log : List WrittenPage) : Stage → Prop
  | .receiving req => AllInFlash c b.ftl log ∧ OnlyReads b.ftl ∧ CachedWrite c req b.wbc ∧
      RequestOf b.fetched req
  | .programming req => ∃ old, log = old ++ writtenPages c req b.page_buffer ∧
      CachedWrite c req b.wbc ∧ WritingBack c b.ftl old req b.page_buffer
  | _ => AllWritten c b log

/-- The request of the READ in hand. -/
def Stage.reading : Stage → Option Req
  | .loading req | .sending req => some req
  | _ => none

/-- Every WRITE with a completion has its pages in the log, and the stage says where these
are. -/
structure Books.Durable (b : Books) (log : List WrittenPage) (st : Stage) : Prop where
  uids : b.fetched.map Fetch.uid = List.range b.fetched.length
  enqueued : ∀ e ∈ b.enqueued, Known c b.fetched log e.2.uid
  ctrl : ∀ req ∈ b.ctrl_cmd_req, Known c b.fetched log req.uid
  reading : ∀ req ∈ st.reading, Known c b.fetched log req.uid
  pages : PagesAt c b log st

section Moves

variable {c} {env : Env} {s s' : State} {st st' : Stage} {b b' : Books} {f : Fetch}
  {fetched : List Fetch} {log new : List WrittenPage} {req : Req} {uid : Nat}

theorem forall_mem_of_none {o : Option Req} {P : Req → Prop} (h : o = none) : ∀ r ∈ o, P r := by
  intro r hr
  rw [h] at hr
  cases hr

theorem Logged.append (h : Logged log f) (new : List WrittenPage) : Logged (log ++ new) f := by
  intro i hi
  obtain ⟨p, hp, hpage⟩ := h i hi
  exact ⟨p, List.mem_append_left _ hp, hpage⟩

theorem Known.append (h : Known c fetched log uid) (new : List WrittenPage) :
    Known c fetched (log ++ new) uid :=
  ⟨h.lt, fun f hf huid hw => (h.logged f hf huid hw).append new⟩

/-- The next command has another number. -/
theorem Known.fetch (h : Known c fetched log uid) (hf : f.uid = fetched.length) :
    Known c (fetched ++ [f]) log uid := by
  have hlt := h.lt
  refine ⟨by simp; omega, fun f' hf' huid hw => ?_⟩
  rcases List.mem_append.mp hf' with hold | hnew
  · exact h.logged f' hold huid hw
  · rw [List.mem_singleton.mp hnew] at huid
    omega

theorem uid_lt_of_fetched (huids : fetched.map Fetch.uid = List.range fetched.length)
    (hf : f ∈ fetched) :
    f.uid < fetched.length := by
  have hmem : f.uid ∈ fetched.map Fetch.uid := List.mem_map_of_mem hf
  rw [huids] at hmem
  exact List.mem_range.mp hmem

/-- A command that is no accepted WRITE has no pages. -/
theorem known_fetched (huids : fetched.map Fetch.uid = List.range fetched.length)
    (hno : f.acceptedWrite c = false) :
    Known c (fetched ++ [f]) log fetched.length := by
  refine ⟨by simp, fun f' hf' huid hw => ?_⟩
  rcases List.mem_append.mp hf' with hold | hnew
  · have := uid_lt_of_fetched huids hold
    omega
  · rw [List.mem_singleton.mp hnew, hno] at hw
    cases hw

/-- With its pages in the log, the request is that of a known command. -/
theorem RequestOf.known (h : RequestOf fetched req) (log : List WrittenPage)
    (page_buffer : Nat → UInt8) :
    Known c fetched (log ++ writtenPages c req page_buffer) req.uid := by
  refine ⟨h.lt, fun f hf huid _ i hi => ?_⟩
  obtain ⟨hslba, hnlbs⟩ := h.same f hf huid
  refine ⟨writtenPage c req page_buffer i, List.mem_append_right _ ?_, huid.symm, ?_⟩
  · exact mem_writtenPages.mpr ⟨i, hnlbs ▸ hi, rfl⟩
  · simp only [writtenPage, Req.lpn, Fetch.lpn, hslba]

/-- A step fetches a command that is no accepted WRITE. -/
theorem Books.Durable.fetch (h : b.Durable c log .polling) (hf : f.uid = b.fetched.length)
    (hno : f.acceptedWrite c = false) (hfetched : b'.fetched = b.fetched ++ [f])
    (henq : ∀ e ∈ b'.enqueued, e ∈ b.enqueued ∨ e.2.uid = b.fetched.length)
    (hctrl : ∀ req ∈ b'.ctrl_cmd_req, req ∈ b.ctrl_cmd_req ∨ req.uid = b.fetched.length)
    (hread : ∀ req ∈ st'.reading, req.uid = b.fetched.length)
    (hpages : PagesAt c b' log st') : b'.Durable c log st' := by
  have hnew : Known c (b.fetched ++ [f]) log b.fetched.length := known_fetched h.uids hno
  refine ⟨?_, fun e he => ?_, fun req hreq => ?_, fun req hreq => ?_, hpages⟩
  · rw [hfetched]
    exact uids_snoc h.uids hf
  · rw [hfetched]
    rcases henq e he with hold | huid
    · exact (h.enqueued e hold).fetch hf
    · rw [huid]
      exact hnew
  · rw [hfetched]
    rcases hctrl req hreq with hold | huid
    · exact (h.ctrl req hold).fetch hf
    · rw [huid]
      exact hnew
  · rw [hfetched, hread req hreq]
    exact hnew

/-- A step that completes a request in hand. -/
theorem Books.Durable.complete {q : Nat} (h : b.Durable c log st)
    (hfetched : b'.fetched = b.fetched)
    (henq : ∀ e ∈ b'.enqueued, e ∈ b.enqueued ∨ e = (q, req))
    (hreq : Known c b.fetched (log ++ new) req.uid)
    (hctrl : ∀ req ∈ b'.ctrl_cmd_req, req ∈ b.ctrl_cmd_req) (hread : st'.reading = none)
    (hpages : PagesAt c b' (log ++ new) st') : b'.Durable c (log ++ new) st' := by
  refine ⟨?_, fun e he => ?_, fun req' hmem => ?_, ?_, hpages⟩
  · rw [hfetched]
    exact h.uids
  · rw [hfetched]
    rcases henq e he with hold | rfl
    · exact (h.enqueued e hold).append new
    · exact hreq
  · rw [hfetched]
    exact (h.ctrl req' (hctrl req' hmem)).append new
  · rw [hread]
    nofun

/-- A READ or WRITE that is completed at once was rejected. -/
theorem rejected_of_completesTo (hf : fetches env s = true) {q : Nat}
    (hto : completesTo c env s = some q)
    (hrw : ((fetchOf s.driver env).isRead || (fetchOf s.driver env).isWrite) = true) :
    verify_rw_param c env.scmd = false := by
  apply Bool.eq_false_of_not_eq_true
  intro hok
  simp only [Fetch.isRead, Fetch.isWrite, fetchOf, Bool.and_eq_true, Bool.or_eq_true,
    beq_iff_eq, ← and_or_left] at hrw
  obtain ⟨-, hop⟩ := hrw
  simp only [fetches, Bool.and_eq_true, beq_iff_eq] at hf
  obtain ⟨hpoll, hbell⟩ := hf
  unfold aboutToPoll at hpoll
  split at hpoll
  · rename_i htodo hcb
    rcases hop with hop | hop <;>
      simp [completesTo, htodo, hcb, hbell, completesAtOnce, hop, hok] at hto
  · cases hpoll

theorem not_accepted (hf : fetches env s = true) {q : Nat} (hto : completesTo c env s = some q) :
    (fetchOf s.driver env).acceptedWrite c = false := by
  unfold Fetch.acceptedWrite
  cases hw : (fetchOf s.driver env).isWrite with
  | false => rfl
  | true => exact rejected_of_completesTo hf hto (Bool.or_eq_true_iff.mpr (Or.inr hw))

/-- The pages that a move of the NVMe thread adds to the log. -/
def movedPages (c : Config) (page_buffer : Nat → UInt8) : Stage → Stage → List WrittenPage
  | .receiving req, .programming _ => writtenPages c req page_buffer
  | _, _ => []

/-- The FTL has no job at a stage without one. -/
theorem OnlyReads.idle {t : FtlThread} (h : OnlyReads t) (hjobs : t.rwJobs = []) :
    t.outq = [] ∧ t.pc = .idle ∧ t.inq = [] := by
  have hall : t.jobs = [] := by
    rw [← hjobs, FtlThread.rwJobs]
    refine (List.filter_eq_self.mpr fun job hjob => ?_).symm
    obtain ⟨req, rfl⟩ := h.jobs job hjob
    rfl
  simp only [FtlThread.jobs, List.append_eq_nil_iff] at hall
  obtain ⟨⟨hout, hpc⟩, hinq⟩ := hall
  refine ⟨hout, ?_, hinq⟩
  cases hp : t.pc with
  | idle => rfl
  | looping job i ops =>
    rw [hp] at hpc
    cases hpc
  | waiting job ops =>
    rw [hp] at hpc
    cases hpc

/-- The write back cache has the pages of an accepted WRITE. -/
theorem cachedWrite_wbcPages {pages : Nat → WbcPage} (hask : RwAsk c s.driver env req)
    (hinvalid : ∀ i, (pages i).valid = false) :
    CachedWrite c req ⟨req.scmd.nlbs + 1, State.wbcPages c req pages⟩ := by
  have hok := hask.accepted
  unfold verify_rw_param at hok
  split at hok
  · cases hok
  · split at hok
    · cases hok
    · split at hok
      · cases hok
      · rename_i hlong
        refine ⟨?_, rfl, fun i hi => if_pos hi, fun i hi => ?_⟩
        · rw [hask.nlbs]
          exact not_le.mp hlong
        · have hold : State.wbcPages c req pages i = pages i := if_neg (not_le.mpr hi)
          simp only [hold]
          exact hinvalid i

/-- An opcode without a handler is no READ or WRITE. -/
theorem not_rw_of_unanswered (d : Driver) (h : unanswered env = true) :
    ((fetchOf d env).isRead || (fetchOf d env).isWrite) = false := by
  unfold unanswered at h
  split at h
  · rename_i hq
    simp [Fetch.isRead, Fetch.isWrite, fetchOf, hq]
  · simp only [decide_eq_true_eq, List.mem_cons, List.not_mem_nil, or_false, not_or] at h
    simp [Fetch.isRead, Fetch.isWrite, fetchOf, h.2.1, h.2.2.1]

theorem not_rw_of_admin (d : Driver) (hq : env.Qindex = 0) :
    ((fetchOf d env).isRead || (fetchOf d env).isWrite) = false := by
  simp [Fetch.isRead, Fetch.isWrite, fetchOf, hq]

theorem acceptedWrite_of_not_rw (h : (f.isRead || f.isWrite) = false) :
    f.acceptedWrite c = false := by
  simp only [Bool.or_eq_false_iff] at h
  simp [Fetch.acceptedWrite, h.2]

/-! ### The moves of the NVMe thread -/

/-- A command that is no accepted WRITE is fetched and completed at once. -/
theorem Books.Durable.answered (h : s.books.Durable c log .polling)
    (hno : (fetchOf s.driver env).acceptedWrite c = false) (hask : IoAsk s.driver env req)
    (hst : st' = .polling ∨ st' = .stopped) :
    Books.Durable c { s.books with
      fetched := s.driver.fetched ++ [fetchOf s.driver env]
      enqueued := s.driver.enqueuedAfter req.cqid req } log st' := by
  have hpages := h.pages
  have hread : st'.reading = none := by rcases hst with rfl | rfl <;> rfl
  refine h.fetch rfl hno rfl (fun e he => ?_) (fun _ hreq => Or.inl hreq)
    (forall_mem_of_none hread) ?_
  · refine (mem_enqueuedAfter he).imp_right ?_
    rintro rfl
    exact hask.uid
  · rcases hst with rfl | rfl <;> exact ⟨hpages.flash, hpages.reads, hpages.wbc⟩

/-- The pages of an accepted WRITE are in the cache. -/
theorem Books.Durable.write (h : s.books.Durable c log .polling)
    (hask : RwAsk c s.driver env req) :
    Books.Durable c { s.books with
      fetched := s.driver.fetched ++ [fetchOf s.driver env]
      wbc := ⟨req.scmd.nlbs + 1, State.wbcPages c req s.buf.wbc.pages⟩
      dma := some ⟨req, false, 0, 0⟩ } log (.receiving req) := by
  have hpages := h.pages
  have hf : (fetchOf s.driver env).uid = s.books.fetched.length := rfl
  refine ⟨uids_snoc h.uids hf, fun e he => (h.enqueued e he).fetch hf,
    fun req' hreq => (h.ctrl req' hreq).fetch hf, (forall_mem_of_none rfl), hpages.flash,
    hpages.reads, cachedWrite_wbcPages hask hpages.wbc, ?_⟩
  have huid : req.uid = s.driver.fetched.length := hask.uid
  refine ⟨by simp [huid], fun f hmem he => ?_⟩
  rcases List.mem_append.mp hmem with hold | hnew
  · have hlt : f.uid < s.driver.fetched.length := uid_lt_of_fetched h.uids hold
    omega
  · rw [List.mem_singleton.mp hnew]
    exact ⟨hask.slba.symm, hask.nlbs.symm⟩

/-- A READ is a job of the FTL. -/
theorem Books.Durable.read (h : s.books.Durable c log .polling)
    (hask : RwAsk c s.driver env req) (hop : (fetchOf s.driver env).isRead = true) :
    Books.Durable c { s.books with
      fetched := s.driver.fetched ++ [fetchOf s.driver env]
      ftl := { s.ftl with inq := s.ftl.inq ++ [.read req] } } log (.loading req) := by
  have hpages := h.pages
  have hno : (fetchOf s.driver env).acceptedWrite c = false := by
    simp only [Fetch.isRead, Bool.and_eq_true, beq_iff_eq] at hop
    simp [Fetch.acceptedWrite, Fetch.isWrite, hop.2]
  refine h.fetch rfl hno rfl (fun _ he => Or.inl he) (fun _ hreq => Or.inl hreq) ?_ ?_
  · rintro req' ⟨⟩
    exact hask.uid
  · refine ⟨hpages.flash.congr rfl rfl, ⟨fun job hjob => ?_, hpages.reads.ops⟩, hpages.wbc⟩
    simp only [FtlThread.jobs, ← List.append_assoc] at hjob
    rcases List.mem_append.mp hjob with hold | hnew
    · exact hpages.reads.jobs job hold
    · exact ⟨req, List.mem_singleton.mp hnew⟩

/-- The data of the WRITE is in the page buffer, and its pages go to the log. -/
theorem Books.Durable.received (h : s.books.Durable c log (.receiving req))
    (hat : At s (.receiving req)) :
    Books.Durable c { s.books with
      enqueued := s.driver.enqueuedAfter req.cqid req
      ftl := { s.ftl with inq := s.ftl.inq ++ [.flush] } }
      (log ++ writtenPages c req s.buf.page_buffer) (.programming req) := by
  obtain ⟨hflash, hreads, hcached, hrequest⟩ := h.pages
  obtain ⟨hout, hpc, hinq⟩ := hreads.idle hat.jobs
  refine h.complete rfl (fun _ he => mem_enqueuedAfter he) (hrequest.known log _)
    (fun _ hreq => hreq) rfl ⟨log, rfl, hcached, 0, [], .queued hout hpc ?_, ?_⟩
  · have hinq : s.ftl.inq = [] := hinq
    simp [hinq]
  · exact (hflash.start req _).congr rfl rfl

/-- The pages of the WRITE are in the flash, and the cache is free. -/
theorem Books.Durable.programmed {rest : List FtlJob}
    (h : s.books.Durable c log (.programming req)) (hout : s.ftl.outq = .flush :: rest) :
    Books.Durable c { s.books with
      wbc := { s.buf.wbc with pages := fun i => { s.buf.wbc.pages i with valid := false } }
      ftl := { s.ftl with outq := rest } } log .resuming := by
  obtain ⟨old, rfl, hcached, n, ops, hplace, hprogress⟩ := h.pages
  refine ⟨h.uids, h.enqueued, h.ctrl, (forall_mem_of_none rfl), ?_⟩
  have hout : s.books.ftl.outq = .flush :: rest := hout
  cases hplace with
  | queued hnone => simp [hout] at hnone
  | mapping hnone => simp [hout] at hnone
  | programming hnone => simp [hout] at hnone
  | ended hflush hpc hinq =>
    obtain rfl : rest = [] := by simpa [hout] using hflush
    have hpc : s.ftl.pc = .idle := hpc
    have hinq : s.ftl.inq = [] := hinq
    refine ⟨hprogress.finish.congr rfl rfl, ⟨?_, ?_⟩, fun _ => rfl⟩
    · simp [FtlThread.jobs, hpc, hinq]
    · simp [hpc, FtlPc.ops]

/-- The pages of the READ are in the page buffer. -/
theorem Books.Durable.loaded {rest : List FtlJob} (h : s.books.Durable c log (.loading req))
    (hout : s.ftl.outq = .read req :: rest) :
    Books.Durable c { s.books with
      dma := some ⟨req, true, 0, 0⟩
      ftl := { s.ftl with outq := rest } } log (.sending req) := by
  have hpages := h.pages
  refine ⟨h.uids, h.enqueued, h.ctrl, h.reading, hpages.flash.congr rfl rfl,
    ⟨fun job hjob => ?_, hpages.reads.ops⟩, hpages.wbc⟩
  refine hpages.reads.jobs job ?_
  have hout : s.books.ftl.outq = .read req :: rest := hout
  simp only [FtlThread.jobs, hout, List.cons_append]
  exact List.mem_cons_of_mem _ hjob

/-- A step of the NVMe thread keeps the invariant. -/
theorem NvmeMove.durable (hmove : NvmeMove c env s st st' b) (hat : At s st)
    (hshn : env.shn = false) (hmsg : s.isp.msg_out_q = [])
    (hctrl : fetches env s = true → (fetchOf s.driver env).isWrite = true →
      b.ctrl_cmd_req = s.isp.ctrl_cmd_req)
    (h : s.books.Durable c log st) :
    b.Durable c (log ++ movedPages c s.buf.page_buffer st st') st' := by
  have hpages := h.pages
  cases hmove with
  | quiet =>
    cases st <;> exact (List.append_nil log).symm ▸ h
  | shutdown hs =>
    rw [hshn] at hs
    cases hs
  | isp_job hin =>
    rw [hmsg] at hin
    cases hin
  | unanswered hf hun =>
    have hno := acceptedWrite_of_not_rw (c := c) (not_rw_of_unanswered s.driver hun)
    simp only [movedPages, List.append_nil]
    exact h.fetch rfl hno rfl (fun _ he => Or.inl he) (fun _ hreq => Or.inl hreq)
      (forall_mem_of_none rfl)
      ⟨hpages.flash, hpages.reads, hpages.wbc⟩
  | admin hf hq huid hcid hcq =>
    have hno := acceptedWrite_of_not_rw (c := c) (not_rw_of_admin s.driver hq)
    simp only [movedPages, List.append_nil]
    refine h.fetch rfl hno rfl (fun e he => ?_) (fun _ hreq => Or.inl hreq) (forall_mem_of_none rfl)
      ⟨hpages.flash, hpages.reads, hpages.wbc⟩
    rcases List.mem_append.mp he with hold | hnew
    · exact Or.inl hold
    · rw [List.mem_singleton.mp hnew]
      exact Or.inr huid
  | answered hf hto hask =>
    simp only [movedPages, List.append_nil]
    exact h.answered (not_accepted hf hto) hask (Or.inl rfl)
  | rejected hf hto hask hrw hbad =>
    simp only [movedPages, List.append_nil]
    exact h.answered (not_accepted hf hto) hask (Or.inr rfl)
  | stored hf hask hnone =>
    have hno : (fetchOf s.driver env).acceptedWrite c = false := by
      apply Bool.eq_false_of_not_eq_true
      intro hacc
      have hsame := hctrl hf (Bool.and_eq_true_iff.mp hacc).1
      rw [hnone] at hsame
      cases hsame
    simp only [movedPages, List.append_nil]
    refine h.fetch rfl hno rfl (fun _ he => Or.inl he) (fun req' hreq => Or.inr ?_)
      (forall_mem_of_none rfl)
      ⟨hpages.flash, hpages.reads, hpages.wbc⟩
    cases hreq
    exact hask.uid
  | @recycled req dw0 hreq hto =>
    refine h.complete rfl (fun _ he => mem_enqueuedAfter he) ?_ (forall_mem_of_none rfl) rfl ?_
    · exact (h.ctrl req hreq).append _
    · simp only [movedPages, List.append_nil]
      exact ⟨hpages.flash, hpages.reads, hpages.wbc⟩
  | write hf hask hop =>
    simp only [movedPages, List.append_nil]
    exact h.write hask
  | read hf hask hop =>
    simp only [movedPages, List.append_nil]
    exact h.read hask hop
  | received hdma hto => exact h.received hat
  | programmed hout =>
    simp only [movedPages, List.append_nil]
    exact h.programmed hout
  | loaded hout =>
    simp only [movedPages, List.append_nil]
    exact h.loaded hout
  | @sent req hdma hto =>
    refine h.complete rfl (fun _ he => mem_enqueuedAfter he) ?_ (fun _ hreq => hreq) rfl ?_
    · exact (h.reading req rfl).append _
    · simp only [movedPages, List.append_nil]
      exact ⟨hpages.flash, hpages.reads, hpages.wbc⟩
  | resumed =>
    simp only [movedPages, List.append_nil]
    exact ⟨h.uids, h.enqueued, h.ctrl, (forall_mem_of_none rfl), hpages⟩

/-- The page buffer of a transfer has no page of the log. -/
theorem Books.Durable.transfer (h : b.Durable c log st) (hst : st.transfer ≠ none)
    (transfers : List Transfer) (page_buffer : Nat → UInt8) (dma : Option DmaJob) :
    Books.Durable c { b with transfers, page_buffer, dma } log st := by
  have hpages := h.pages
  refine ⟨h.uids, h.enqueued, h.ctrl, h.reading, ?_⟩
  cases st with
  | receiving req => exact hpages
  | sending req => exact ⟨hpages.flash, hpages.reads, hpages.wbc⟩
  | polling => exact absurd rfl hst
  | programming req => exact absurd rfl hst
  | loading req => exact absurd rfl hst
  | resuming => exact absurd rfl hst
  | stopped => exact absurd rfl hst

theorem Books.Durable.dma_step {mem : Mem} (hat : At s st) (h : s.books.Durable c log st) :
    (dmaThreadStep mem s).books.Durable c log st := by
  unfold dmaThreadStep
  split
  · exact h
  · rename_i job hdma
    have hst : st.transfer ≠ none := by
      rw [hat.dma job hdma]
      nofun
    simp only
    split
    · exact h.transfer hst _ _ _
    · exact h.transfer hst _ _ _

theorem Books.Durable.ftl_step {pick a : Nat} {applet : Nat → UInt8}
    (hgood : Good c.g s.ftl.ftl a) (h : s.books.Durable c log st)
    (hs : ftlThreadStep c pick applet s = some s') : s'.books.Durable c log st := by
  have hpages := h.pages
  have hframe := (ftlThreadStep_frame hs).state
  -- The pages of the other stages are in the flash, and a READ leaves them there.
  have hread : OnlyReads s.ftl → AllInFlash c s.ftl log →
      OnlyReads s'.ftl ∧ AllInFlash c s'.ftl log := by
    intro hreads hflash
    obtain ⟨hreads', hftl, hsame⟩ := hreads.step hs
    exact ⟨hreads', hflash.congr hftl hsame⟩
  have hrest : AllWritten c s.books log → AllWritten c s'.books log := by
    rintro ⟨hflash, hreads, hwbc⟩
    obtain ⟨hreads', hflash'⟩ := hread hreads hflash
    refine ⟨hflash', hreads', ?_⟩
    rw [hframe]
    exact hwbc
  have hnew : PagesAt c s'.books log st := by
    cases st with
    | receiving req =>
      obtain ⟨hflash, hreads, hcached, hrequest⟩ := hpages
      obtain ⟨hreads', hflash'⟩ := hread hreads hflash
      refine ⟨hflash', hreads', ?_⟩
      rw [hframe]
      exact ⟨hcached, hrequest⟩
    | programming req =>
      obtain ⟨old, rfl, hcached, hwriting⟩ := hpages
      obtain ⟨hbuf, hwriting'⟩ := hwriting.step hcached hgood hs
      have hsame : s'.books.page_buffer = s.books.page_buffer := congrArg Buffers.page_buffer hbuf
      refine ⟨old, by rw [hsame], ?_, ?_⟩
      · rw [hframe]
        exact hcached
      · rw [hsame]
        exact hwriting'
    | polling => exact hrest hpages
    | loading req => exact hrest hpages
    | sending req => exact hrest hpages
    | resuming => exact hrest hpages
    | stopped => exact hrest hpages
  rw [hframe] at hnew ⊢
  exact ⟨h.uids, h.enqueued, h.ctrl, h.reading, hnew⟩

end Moves

/-! ## The law -/

/-- The firmware is at a stage, and the log accounts for every WRITE with a completion. -/
structure FlushReady (x : State × List WrittenPage) (st : Stage) : Prop where
  stage : At x.1 st
  messages : x.1.isp.msg_out_q = []
  replayed : Replayed x.1.driver
  first : ∀ f ∈ x.1.driver.fetched, f.uid = 0 → f.sqid = 0
  rings : LogHolds x.1.driver
  tables : ∃ a, TablesGood c x.1 a
  durable : x.1.books.Durable c x.2 st

section Law

variable {c} {env : Env} {s s' : State} {st st' : Stage} {b : Books} {d' : Driver} {w : Fetch}
  {log : List WrittenPage} {req : Req} {x y : State × List WrittenPage} {a : CommandAction}

/-- The first command is fetched from the admin queue: the others do not exist yet. -/
theorem first_is_admin (hmove : DriverMove c env s d') (hreplayed : Replayed s.driver)
    (h : ∀ f ∈ s.driver.fetched, f.uid = 0 → f.sqid = 0) :
    ∀ f ∈ d'.fetched, f.uid = 0 → f.sqid = 0 := by
  rcases hmove.sqs with hsame | ⟨-, hfetched⟩
  · rw [hsame.fetched]
    exact h
  · intro f hf huid
    rw [hfetched.fetched] at hf
    rcases List.mem_append.mp hf with hold | hnew
    · exact h f hold huid
    · rw [List.mem_singleton.mp hnew] at huid ⊢
      have hnil : s.driver.fetched = [] := List.length_eq_zero_iff.mp huid
      by_contra hq
      exact hfetched.size (hreplayed.sqs env.Qindex hq (by rw [hnil]; rfl))

/-- The transfer of a WRITE has ended: the next task goes on with the requests that wait. -/
theorem received_todo {rest : List Task} (htodo : s.todo = .write_dma req :: rest)
    (hdma : s.dma = none) (hs : nvmeStep c env s = some s') :
    s'.todo = .write_ios_step_2 :: rest := by
  unfold nvmeStep at hs
  simp only [htodo, runTask, hdma, Option.isSome_none, Bool.false_eq_true, if_false] at hs
  obtain ⟨d', rfl, -⟩ := enqueue_io_cases hs
  rfl

theorem receiving_todo (hat : At s (.receiving req)) :
    s.todo = [.write_dma req, .msg_out, .ftl_out] := by
  have hcontrol := hat.control
  generalize s.todo = todo at hcontrol ⊢
  generalize s.callbacks = callbacks at hcontrol
  generalize s.isp.ctrl_cmd_req = ctrl at hcontrol
  cases hcontrol
  rfl

/-- The log gets the pages of a WRITE with the move that completes it. -/
theorem loggedPages_eq (env' : Env) (hat : At s st) (hat' : At s' st')
    (hs : nvmeStep c env s = some s') (hmove : NvmeMove c env s st st' b) :
    loggedPages c s (.nvme env') = movedPages c s.buf.page_buffer st st' := by
  by_cases hst : ∃ req, st = .receiving req
  · obtain ⟨req, rfl⟩ := hst
    have htodo := receiving_todo hat
    cases hdma : s.dma with
    | none =>
      have htodo' := received_todo htodo hdma hs
      have hleft : st' ≠ .receiving req := by
        rintro rfl
        rw [receiving_todo hat'] at htodo'
        cases htodo'
      cases hmove with
      | quiet => exact absurd rfl hleft
      | isp_job => exact absurd rfl hleft
      | received => simp [loggedPages, htodo, hdma, movedPages]
    | some job =>
      have hnone : loggedPages c s (.nvme env') = [] := by simp [loggedPages, htodo, hdma]
      rw [hnone]
      cases hmove with
      | quiet => rfl
      | isp_job => rfl
      | received hdma' =>
        rw [hdma] at hdma'
        cases hdma'
  · have hmoved : movedPages c s.buf.page_buffer st st' = [] := by
      unfold movedPages
      split
      · exact absurd ⟨_, rfl⟩ hst
      · rfl
    rw [hmoved]
    unfold loggedPages
    simp only
    split
    · rename_i req rest htodo hdma
      exact absurd ⟨req, (htodo ▸ hat.control).write_dma.1⟩ hst
    · rfl

/-- The tables stay good. -/
theorem FlushReady.tables_step (h : FlushReady c x st) (hs : fwStep c x.1 a.toAction = some s') :
    ∃ n, TablesGood c s' n := by
  obtain ⟨n, hgood⟩ := h.tables
  obtain ⟨n', -, hgood'⟩ := tablesGood_step hgood hs
  exact ⟨n', hgood'⟩

theorem FlushReady.nvme_step (h : FlushReady c x st) (hshn : env.shn = false)
    (hs : nvmeStep c env x.1 = some s') (hat' : At s' st')
    (hmove : NvmeMove c env x.1 st st' s'.books) (htables : ∃ n, TablesGood c s' n) :
    FlushReady c (s', x.2 ++ movedPages c x.1.buf.page_buffer st st') st' := by
  have hdriver := nvmeStep_driver hs
  refine ⟨hat', ?_, h.replayed.move hdriver, first_is_admin hdriver h.replayed h.first,
    (hdriver.posts h.rings).log, htables, ?_⟩
  · exact List.suffix_nil.mp (h.messages ▸ nvmeStep_messages hs)
  · refine hmove.durable h.stage hshn h.messages (fun hf hw => ?_) h.durable
    exact congrArg Isp.ctrl_cmd_req (isp_of_rw hs hf (Bool.or_eq_true_iff.mpr (Or.inr hw)))

theorem FlushReady.dma_step (mem : Mem) (h : FlushReady c x st)
    (htables : ∃ n, TablesGood c (dmaThreadStep mem x.1) n) :
    FlushReady c (dmaThreadStep mem x.1, x.2) st := by
  have hisp : (dmaThreadStep mem x.1).isp = x.1.isp := by
    unfold dmaThreadStep
    split
    · rfl
    · simp only
      split <;> rfl
  obtain ⟨transfers, hdriver⟩ : ∃ transfers, (dmaThreadStep mem x.1).driver =
      { x.1.driver with transfers } := by
    rcases fwStep_driver (c := c) (a := .dma mem) rfl with ⟨env, henv, -⟩ | hdriver
    · cases henv
    · exact hdriver
  refine ⟨dmaThreadStep_at h.stage, by rw [hisp, h.messages], ?_, ?_, ?_, htables,
    h.durable.dma_step h.stage⟩
  · rw [hdriver]
    exact ⟨h.replayed.sqs, h.replayed.rings⟩
  · rw [hdriver]
    exact h.first
  · rw [hdriver]
    exact h.rings.congr (fun _ => rfl) rfl rfl

theorem FlushReady.ftl_step {pick : Nat} {applet : Nat → UInt8} (h : FlushReady c x st)
    (hs : ftlThreadStep c pick applet x.1 = some s') (htables : ∃ n, TablesGood c s' n) :
    FlushReady c (s', x.2) st := by
  obtain ⟨n, hgood⟩ := h.tables
  have hframe := (ftlThreadStep_frame hs).state
  have hdriver : s'.driver = x.1.driver := by rw [hframe]
  have hisp : s'.isp = x.1.isp := by rw [hframe]
  refine ⟨(ftlThreadStep_frame hs).at h.stage, by rw [hisp, h.messages], ?_, ?_, ?_, htables,
    h.durable.ftl_step hgood.good hs⟩
  · rw [hdriver]
    exact h.replayed
  · rw [hdriver]
    exact h.first
  · rw [hdriver]
    exact h.rings

theorem FlushReady.step (h : FlushReady c x st) (hs : loggedStep c x a = some y) :
    ∃ st', FlushReady c y st' := by
  obtain ⟨s', hs', rfl⟩ := Option.map_eq_some_iff.mp hs
  have htables := h.tables_step hs'
  cases a with
  | nvme env =>
    have hs' : nvmeStep c { env with shn := false } x.1 = some s' := hs'
    obtain ⟨st', hat', hmove⟩ := nvmeStep_move h.stage hs'
    refine ⟨st', ?_⟩
    simp only [loggedPages_eq env h.stage hat' hs' hmove]
    exact h.nvme_step rfl hs' hat' hmove htables
  | dma mem =>
    obtain rfl : dmaThreadStep mem x.1 = s' := Option.some.inj hs'
    refine ⟨st, ?_⟩
    simp only [loggedPages, List.append_nil]
    exact h.dma_step mem htables
  | ftl pick =>
    refine ⟨st, ?_⟩
    simp only [loggedPages, List.append_nil]
    exact h.ftl_step hs' htables

/-- During a write-back no queue changes: nothing is posted. -/
theorem driver_during_write_back (hat : At s (.programming req)) (hmove : DriverMove c env s d') :
    d' = s.driver := by
  have hcontrol := hat.control
  have hcb : s.callbacks = [] := by
    generalize s.todo = todo at hcontrol
    generalize s.callbacks = callbacks at hcontrol ⊢
    generalize s.isp.ctrl_cmd_req = ctrl at hcontrol
    cases hcontrol <;> rfl
  have hctrl : s.isp.ctrl_cmd_req = none := by
    generalize s.todo = todo at hcontrol
    generalize s.callbacks = callbacks at hcontrol
    generalize s.isp.ctrl_cmd_req = ctrl at hcontrol ⊢
    cases hcontrol <;> rfl
  have hpoll : aboutToPoll s = false := by
    unfold aboutToPoll
    rw [hcb]
    split
    · rename_i h
      cases h
    · rfl
  have hfetches : fetches env s = false := by simp [fetches, hpoll]
  cases hmove with
  | same => rfl
  | @finished req' _ _ hin =>
    -- No request is in flight.
    rw [hat.inFlight_eq, hctrl] at hin
    cases hin
  | retried h =>
    rw [hpoll] at h
    cases h
  | released h =>
    rw [hpoll] at h
    cases h
  | admin h =>
    rw [hfetches] at h
    cases h
  | fetched h =>
    rw [hfetches] at h
    cases h
  | answered h =>
    rw [hfetches] at h
    cases h

/-- At the other stages, the newest page of each LPN is in the flash. -/
theorem PagesAt.flash (h : PagesAt c b log st) (hst : ∀ req, st ≠ .programming req) :
    AllInFlash c b.ftl log := by
  cases st with
  | receiving req => exact h.1
  | programming req => exact absurd rfl (hst req)
  | polling => exact AllWritten.flash h
  | loading req => exact AllWritten.flash h
  | sending req => exact AllWritten.flash h
  | resuming => exact AllWritten.flash h
  | stopped => exact AllWritten.flash h

/-- A step of the NVMe thread without a shutdown leaves the tables and the flash. -/
theorem NvmeMove.tables (h : NvmeMove c env s st st' b) (hshn : env.shn = false) :
    b.ftl.ftl = s.ftl.ftl ∧ b.ftl.flash = s.ftl.flash := by
  cases h with
  | shutdown hs =>
    rw [hshn] at hs
    cases hs
  | quiet | isp_job | unanswered | admin | answered | rejected | stored | recycled | write | read
  | received | programmed | loaded | sent | resumed => exact ⟨rfl, rfl⟩

/-- With all newest pages in the flash, a WRITE with its pages in the log is kept. -/
theorem AllInFlash.kept {t t' : FtlThread} (h : AllInFlash c t log) (hlogged : Logged log w)
    (hftl : t'.ftl = t.ftl) (hflash : t'.flash = t.flash) (new : List WrittenPage) :
    WriteKept c t' (log ++ new) w := by
  intro i hi
  obtain ⟨p, hp, huid, hlpn⟩ := hlogged i hi
  obtain ⟨early, late, rfl⟩ := List.append_of_mem hp
  obtain ⟨p', hp', hlpn', hnewest⟩ := newest_from early late p
  refine ⟨early, p, late ++ new, by simp, huid, hlpn, p', ?_, hlpn', ?_⟩
  · rw [← List.cons_append]
    exact List.mem_append_left _ hp'
  · refine (h p' ?_).congr hftl hflash
    rw [hlpn']
    exact hnewest

/-- What comes before an entry is not the last entry. -/
theorem mem_of_before {α : Type*} {early late l last : List α} {e e' : α}
    (h : early ++ e :: late = l ++ last) (hlast : last.length ≤ 1) (he : e' ∈ early) : e' ∈ l := by
  have hlen := congrArg List.length h
  simp only [List.length_append, List.length_cons] at hlen
  have hprefix : early <+: l :=
    List.prefix_of_prefix_length_le (List.prefix_append early (e :: late))
      (h ▸ List.prefix_append l last) (by omega)
  exact hprefix.subset he

/-- The pages of a WRITE whose request was enqueued are in the log. -/
theorem FlushReady.logged (h : FlushReady c x st) (hmove : DriverMove c env x.1 d')
    (hfrom : FromLog x.1.driver req) (hw : w ∈ d'.fetched) (hacc : w.acceptedWrite c = true)
    (huid : w.uid = req.uid) : Logged x.2 w := by
  rcases hfrom with rfl | ⟨e, he, rfl⟩
  · have hadmin := first_is_admin hmove h.replayed h.first w hw huid
    simp [Fetch.acceptedWrite, Fetch.isWrite, hadmin] at hacc
  · have hknown : Known c x.1.driver.fetched x.2 e.2.uid := h.durable.enqueued e he
    rcases hmove.sqs with hsame | ⟨-, hfetched⟩
    · rw [hsame.fetched] at hw
      exact hknown.logged w hw huid hacc
    · rw [hfetched.fetched] at hw
      rcases List.mem_append.mp hw with hold | hnew
      · exact hknown.logged w hold huid hacc
      · rw [List.mem_singleton.mp hnew] at huid
        exact absurd hknown.lt (huid ▸ lt_irrefl _)

/-- The other threads post nothing. -/
theorem not_posted {p p' : List (Nat × Posting)} {early late : List (Nat × Posting)}
    {e : Nat × Posting} (hsame : p' = p) (h : p' = early ++ e :: late)
    (hnew : p.length ≤ early.length) : False := by
  rw [hsame] at h
  have hlen := congrArg List.length h
  simp only [List.length_append, List.length_cons] at hlen
  omega

theorem FlushReady.flushDurable (h : FlushReady c x st) (a : CommandAction) :
    FlushDurable c x a := by
  intro y hy early e late hposted hnew _ e' he' w hw hacc huid
  obtain ⟨s', hs', rfl⟩ := Option.map_eq_some_iff.mp hy
  cases a with
  | nvme env =>
    have hs' : nvmeStep c { env with shn := false } x.1 = some s' := hs'
    obtain ⟨st', -, hmove⟩ := nvmeStep_move h.stage hs'
    have hdriver := nvmeStep_driver hs'
    obtain ⟨-, early', last, hpostings, hlast, hearly⟩ := hdriver.posts h.rings
    by_cases hst : ∃ req, st = .programming req
    · obtain ⟨req, rfl⟩ := hst
      have hsame := driver_during_write_back h.stage hdriver
      exact (not_posted (congrArg Driver.posted hsame) hposted hnew).elim
    · have hflash := h.durable.pages.flash fun req he => hst ⟨req, he⟩
      obtain ⟨hftl, hsame⟩ := hmove.tables rfl
      have hsplit : early ++ e :: late = (x.1.driver.posted ++ early') ++ last := by
        rw [List.append_assoc, ← hpostings]
        exact hposted.symm
      have hmem := mem_of_before hsplit hlast he'
      have hfrom : FromLog x.1.driver e'.2.req := by
        rcases List.mem_append.mp hmem with hold | hearlier
        · exact h.rings.posted e' hold
        · exact hearly e' hearlier
      exact hflash.kept (h.logged hdriver hfrom hw hacc huid) hftl hsame _
  | dma mem =>
    rcases fwStep_driver hs' with ⟨env, henv, -⟩ | ⟨transfers, hdriver⟩
    · cases henv
    · exact (not_posted (congrArg Driver.posted hdriver) hposted hnew).elim
  | ftl pick =>
    rcases fwStep_driver hs' with ⟨env, henv, -⟩ | ⟨transfers, hdriver⟩
    · cases henv
    · exact (not_posted (congrArg Driver.posted hdriver) hposted hnew).elim

theorem flushReady_initialState (c : Config) (asqs acqs asq acq : Nat)
    (flash : Ppa → Nat → UInt8) :
    FlushReady c (initialState c asqs acqs asq acq flash, []) .polling := by
  refine ⟨at_initialState c asqs acqs asq acq flash, rfl,
    replayed_initialState c asqs acqs asq acq flash, List.forall_mem_nil _,
    ⟨fun q i => Or.inl ?_, List.forall_mem_nil _⟩, ?_, rfl, List.forall_mem_nil _,
    forall_mem_of_none rfl, forall_mem_of_none rfl, ?_⟩
  · by_cases hq : q = 0
    · subst hq
      simp [initialState, initialize_nvme, NvmeCQueue.setUp, Driver.zero]
    · simp [initialState, initialize_nvme, Function.update_of_ne hq, Driver.zero]
  · exact ⟨1, good_initialize_ftl c.g, (by decide : 0 < 10000)⟩
  · refine ⟨fun p hp => ?_, ⟨List.forall_mem_nil _, List.forall_mem_nil _⟩, fun _ => rfl⟩
    cases hp

end Law

/-- In every run of commands, a step that posts the completion of a FLUSH leaves every
accepted WRITE that was completed before in the flash, page by page, or a later WRITE of
the same LPN. -/
theorem a_posted_flush_finds_the_earlier_writes_in_the_flash {asqs acqs asq acq : Nat}
    {flash : Ppa → Nat → UInt8} {acts : List CommandAction} {x : State × List WrittenPage}
    (h : run (loggedStep c) (initialState c asqs acqs asq acq flash, []) acts = some x)
    (a : CommandAction) : FlushDurable c x a := by
  have hready : ∃ st, FlushReady c x st :=
    run_keeps (I := fun x => ∃ st, FlushReady c x st) (fun _ _ _ ⟨_, ht⟩ hstep => ht.step hstep)
      ⟨_, flushReady_initialState ..⟩ h
  obtain ⟨st, hready⟩ := hready
  exact hready.flushDurable a

/-- Creates queue pair 1 and writes block 0. At the end of the actions the write-back is over,
and the next step polls. -/
def writeOnce : List CommandAction :=
  List.replicate 4 (.nvme (ringFor 0 1 ⟨0x05, 1, 0, 0, 0x10000, 0, 0x30001, 0x10003, 0⟩)) ++
    List.replicate 4 (.nvme (ringFor 0 2 ⟨0x01, 2, 0, 0, 0x20000, 0, 0x30001, 0x10001, 0⟩)) ++
    List.replicate 4 (.nvme (ringFor 1 1 ⟨0x01, 4, 1, 0, 0x30000, 0, 0, 0, 0⟩)) ++
    List.replicate 2 (.dma fun i => UInt8.ofNat i) ++ List.replicate 4 (.nvme noRing) ++
    List.replicate 20 (.ftl 0) ++ List.replicate 8 (.nvme noRing)

/-- The door bell of a FLUSH. -/
def ringFlush : CommandAction := .nvme (ringFor 1 2 ⟨0x00, 5, 1, 0, 0, 0, 0, 0, 0⟩)

/-- The law at a FLUSH after one WRITE: the fourth posting is that of the FLUSH. -/
theorem a_posted_flush_finds_the_earlier_writes_in_the_flash_after_one_write :
    ∃ x y, run (loggedStep smallDevice) (bootState, []) writeOnce = some x ∧
      loggedStep smallDevice x ringFlush = some y ∧
      ∃ w ∈ y.1.driver.fetched, w.acceptedWrite smallDevice = true ∧
        WriteKept smallDevice y.1.ftl y.2 w := by
  have hrun : (run (loggedStep smallDevice) (bootState, []) writeOnce).bind (fun x =>
      (loggedStep smallDevice x ringFlush).map fun y =>
        (x.1.driver.posted.length, y.1.driver.posted.map (fun e => e.2.req.uid),
          y.1.driver.fetched.map fun f => (f.uid, f.isFlush, f.acceptedWrite smallDevice))) =
      some (3, [0, 1, 2, 3], [(0, false, false), (1, false, false), (2, false, true),
        (3, true, false)]) := by
    decide +kernel
  obtain ⟨x, hx, hrun⟩ := Option.bind_eq_some_iff.mp hrun
  obtain ⟨y, hy, hvals⟩ := Option.map_eq_some_iff.mp hrun
  simp only [Prod.mk.injEq] at hvals
  obtain ⟨hlen, hposted, hfetched⟩ := hvals
  have hmem : ∀ v ∈ y.1.driver.fetched.map fun f =>
      (f.uid, f.isFlush, f.acceptedWrite smallDevice),
      ∃ f ∈ y.1.driver.fetched, (f.uid, f.isFlush, f.acceptedWrite smallDevice) = v :=
    fun v hv => List.mem_map.mp hv
  rw [hfetched] at hmem
  obtain ⟨w, hw, hwrite⟩ := hmem (2, false, true) (by simp)
  obtain ⟨f, hf, hflush⟩ := hmem (3, true, false) (by simp)
  simp only [Prod.mk.injEq] at hwrite hflush
  obtain ⟨e0, l1, hp0, -, hposted⟩ := List.map_eq_cons_iff.mp hposted
  obtain ⟨e1, l2, rfl, -, hposted⟩ := List.map_eq_cons_iff.mp hposted
  obtain ⟨e2, l3, rfl, he2, hposted⟩ := List.map_eq_cons_iff.mp hposted
  obtain ⟨e3, l4, rfl, he3, -⟩ := List.map_eq_cons_iff.mp hposted
  refine ⟨x, y, hx, hy, w, hw, hwrite.2.2, ?_⟩
  exact a_posted_flush_finds_the_earlier_writes_in_the_flash smallDevice hx ringFlush y hy
    [e0, e1, e2] e3 l4 hp0 (by simp [hlen]) ⟨f, hf, hflush.2.1, hflush.1.trans he3.symm⟩ e2
    (by simp) w hw hwrite.2.2 (hwrite.1.trans he2.symm)

end S4Sim
