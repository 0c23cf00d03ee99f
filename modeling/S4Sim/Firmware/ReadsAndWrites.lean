-- READ and WRITE on the block device. One command at a time has the page buffer, and the
-- next one is fetched when the flash has the blocks of all commands before it, so a READ
-- sends the host the blocks as the earlier WRITEs left them.
import S4Sim.Firmware.BlockDevice

open Blocks Runs Windows

namespace S4Sim

variable (c : Config)

/-! ## The invariant -/

/-- The transfers of a command that is no longer in hand. -/
structure Ended (ts : List Transfer) (early : List Fetch) (f : Fetch) : Prop where
  read : f.acceptedRead c = true → ∃ ops, f.segments c = some ops ∧
    transfersOf ts f.uid = segmentTransfers f.uid true (f.readBytes c ts early) 0 ops
  write : f.acceptedWrite c = true → ∃ ops, f.segments c = some ops ∧
    transfersOf ts f.uid = segmentTransfers f.uid false (transferredBytes ts f.uid) 0 ops
  other : f.acceptedRead c = false → f.acceptedWrite c = false → transfersOf ts f.uid = []

/-- What the log, the page buffer and the FTL thread have at each stage. -/
def Serving (b : Books) (log : List WrittenPage) : Stage → Prop
  | .receiving req => ∃ early f, InHand c b.fetched req early f ∧ f.acceptedWrite c = true ∧
      Mirrors c log (blocksAfter c b.transfers early) ∧
      Transferred b.dma b.transfers req false b.page_buffer
  | .loading req => ∃ early f, InHand c b.fetched req early f ∧ f.acceptedRead c = true ∧
      Mirrors c log (blocksAfter c b.transfers early) ∧ transfersOf b.transfers req.uid = [] ∧
      Loading c b.ftl (blocksAfter c b.transfers early) req b.page_buffer
  | .sending req => ∃ early f, InHand c b.fetched req early f ∧ f.acceptedRead c = true ∧
      Mirrors c log (blocksAfter c b.transfers early) ∧
      (∀ k < opsBytes req.dma.ops, b.page_buffer k = f.readBytes c b.transfers early k) ∧
      Transferred b.dma b.transfers req true b.page_buffer
  | _ => Mirrors c log (blocksAfter c b.transfers b.fetched)

/-- The commands that are over have their transfers, and the stage says how far the one in
hand is. -/
structure Books.Served (b : Books) (log : List WrittenPage) (st : Stage) : Prop where
  fresh : ∀ t ∈ b.transfers, t.uid < b.fetched.length
  undone : ∀ req ∈ st.held, ∀ e ∈ b.enqueued, e.2.uid ≠ req.uid
  ended : ∀ early f late, b.fetched = early ++ f :: late → st.held = [] ∨ late ≠ [] →
    Ended c b.transfers early f
  unmapped : ∀ lpn, newest log lpn = none → b.ftl.ftl.is_unmapped_lpa lpn = true
  stage : Serving c b log st

section Numbers

variable {c} {fetched early late : List Fetch} {f w : Fetch}

/-- The number of a command is its place. -/
theorem uid_of_split (huids : fetched.map Fetch.uid = List.range fetched.length)
    (h : fetched = early ++ f :: late) : f.uid = early.length := by
  have hplace := congrArg (·[early.length]?) huids
  simpa [h] using hplace

theorem uid_lt_of_mem_early (huids : fetched.map Fetch.uid = List.range fetched.length)
    (h : fetched = early ++ f :: late) (hw : w ∈ early) : w.uid < early.length := by
  obtain ⟨a, b, rfl⟩ := List.append_of_mem hw
  have hsplit : fetched = a ++ w :: (b ++ f :: late) := by simp [h]
  rw [uid_of_split huids hsplit]
  simp

/-- A split of a longer log is one of the old log, or it is at the new entry. -/
theorem split_snoc {fetched early late : List Fetch} {f g : Fetch}
    (h : fetched ++ [g] = early ++ f :: late) :
    (late = [] ∧ early = fetched ∧ f = g) ∨ ∃ l, late = l ++ [g] ∧ fetched = early ++ f :: l := by
  rcases List.eq_nil_or_concat late with rfl | ⟨l, x, rfl⟩
  · obtain ⟨hearly, hlast⟩ := List.append_inj' h rfl
    cases hlast
    exact Or.inl ⟨rfl, hearly.symm, rfl⟩
  · right
    have hsnoc : early ++ f :: (l.concat x) = (early ++ f :: l) ++ [x] := by simp
    rw [hsnoc] at h
    obtain ⟨hold, hlast⟩ := List.append_inj' h rfl
    cases hlast
    exact ⟨l, by simp, hold⟩

end Numbers

section Ended

variable {c} {ts ts' : List Transfer} {early late fetched : List Fetch} {f : Fetch} {req : Req}
  {page_buffer : Nat → UInt8}

/-- Later transfers are those of other commands. -/
theorem Ended.congr (h : Ended c ts early f)
    (hsame : ∀ w ∈ early ++ [f], transfersOf ts' w.uid = transfersOf ts w.uid) :
    Ended c ts' early f := by
  have hf : transfersOf ts' f.uid = transfersOf ts f.uid := hsame f (by simp)
  have hblocks : blocksAfter c ts' early = blocksAfter c ts early :=
    blocksAfter_congr fun w hw => hsame w (List.mem_append_left _ hw)
  have hbytes : transferredBytes ts' f.uid = transferredBytes ts f.uid := by
    funext b
    rw [transferredBytes, transferredBytes, hf]
  refine ⟨fun hacc => ?_, fun hacc => ?_, fun hr hw => hf.trans (h.other hr hw)⟩
  · rw [hf, Fetch.readBytes, hblocks]
    exact h.read hacc
  · rw [hf, hbytes]
    exact h.write hacc

theorem not_both (h : f.acceptedRead c = true) : f.acceptedWrite c = false := by
  simp only [Fetch.acceptedRead, Fetch.isRead, Bool.and_eq_true, beq_iff_eq] at h
  simp [Fetch.acceptedWrite, Fetch.isWrite, h.1.2]

/-- A READ is over when its last segment is sent. -/
theorem ended_read (hand : InHand c fetched req early f) (hacc : f.acceptedRead c = true)
    (hloaded : ∀ k < opsBytes req.dma.ops, page_buffer k = f.readBytes c ts early k)
    (hts : transfersOf ts req.uid = segmentTransfers req.uid true page_buffer 0 req.dma.ops) :
    Ended c ts early f := by
  refine ⟨fun _ => ⟨req.dma.ops, hand.segments, ?_⟩, fun hw => ?_, fun hr => ?_⟩
  · rw [hand.uid, hts]
    refine segmentTransfers_congr fun k _ hk => hloaded k ?_
    rwa [Nat.zero_add] at hk
  · rw [not_both hacc] at hw
    cases hw
  · rw [hacc] at hr
    cases hr

/-- A WRITE is over when its last segment is received. -/
theorem ended_write (hand : InHand c fetched req early f) (hacc : f.acceptedWrite c = true)
    (hts : transfersOf ts req.uid = segmentTransfers req.uid false page_buffer 0 req.dma.ops) :
    Ended c ts early f := by
  refine ⟨fun hr => ?_, fun _ => ⟨req.dma.ops, hand.segments, ?_⟩, fun _ hw => ?_⟩
  · rw [not_both hr] at hacc
    cases hacc
  · rw [hand.uid]
    conv_lhs => rw [hts]
    refine segmentTransfers_congr fun k _ hk => (transferredBytes_eq hts ?_).symm
    rwa [Nat.zero_add] at hk
  · rw [hacc] at hw
    cases hw

/-- A command without transfers, which is no accepted READ or WRITE. -/
theorem ended_other (hr : f.acceptedRead c = false) (hw : f.acceptedWrite c = false)
    (h : transfersOf ts f.uid = []) : Ended c ts early f := by
  refine ⟨fun hacc => ?_, fun hacc => ?_, fun _ _ => h⟩
  · rw [hr] at hacc
    cases hacc
  · rw [hw] at hacc
    cases hacc

end Ended

/-! ## The steps of the NVMe thread -/

section Moves

variable {c} {env : Env} {s s' : State} {st st' : Stage} {b b' : Books} {f : Fetch} {req : Req}
  {early fetched : List Fetch} {log : List WrittenPage}

/-- The commands before a new one are over. -/
theorem Books.Served.before (h : b.Served c log .polling) {f' : Fetch} {late : List Fetch}
    (heq : b.fetched ++ [f] = early ++ f' :: late) (hlate : late ≠ []) :
    Ended c b.transfers early f' := by
  rcases split_snoc heq with ⟨hnil, -⟩ | ⟨l, -, hold⟩
  · exact absurd hnil hlate
  · exact h.ended early f' l hold (Or.inl rfl)

/-- A new command has no transfers yet. -/
theorem Books.Served.no_transfers (h : b.Served c log st) :
    transfersOf b.transfers b.fetched.length = [] :=
  transfersOf_eq_nil fun t ht => (h.fresh t ht).ne

/-- When the command in hand is over, all are. -/
theorem Books.Served.all_ended (h : b.Served c log st) (hand : InHand c b.fetched req early f)
    (hend : Ended c b.transfers early f) {early' late : List Fetch} {f' : Fetch}
    (heq : b.fetched = early' ++ f' :: late) : Ended c b.transfers early' f' := by
  by_cases hlate : late = []
  · have hlast := hand.last
    rw [heq, hlate] at hlast
    obtain ⟨rfl, hf⟩ := List.append_inj' hlast rfl
    cases hf
    exact hend
  · exact h.ended early' f' late heq (Or.inr hlate)

/-- A step fetches a command that is no accepted READ or WRITE. -/
theorem Books.Served.fetch (h : b.Served c log .polling) (hf : f.uid = b.fetched.length)
    (hr : f.acceptedRead c = false) (hw : f.acceptedWrite c = false)
    (hfetched : b'.fetched = b.fetched ++ [f]) (hts : b'.transfers = b.transfers)
    (hftl : b'.ftl = b.ftl) (hst : st' = .polling ∨ st' = .stopped) : b'.Served c log st' := by
  have hheld : st'.held = [] := by rcases hst with rfl | rfl <;> rfl
  have hmirror : Mirrors c log (blocksAfter c b.transfers (b.fetched ++ [f])) := by
    rw [blocksAfter_snoc_other hw]
    exact h.stage
  refine ⟨fun t ht => ?_, ?_, fun early f' late heq _ => ?_, ?_, ?_⟩
  · rw [hts] at ht
    have := h.fresh t ht
    simp only [hfetched, List.length_append, List.length_singleton]
    omega
  · rw [hheld]
    exact List.forall_mem_nil _
  · rw [hfetched] at heq
    rw [hts]
    by_cases hlate : late = []
    · subst hlate
      obtain ⟨rfl, hlast⟩ := List.append_inj' heq rfl
      cases hlast
      exact ended_other hr hw (hf ▸ h.no_transfers)
    · exact h.before heq hlate
  · rw [hftl]
    exact h.unmapped
  · rw [← hts, ← hfetched] at hmirror
    rcases hst with rfl | rfl <;> exact hmirror

/-- The command in hand is over, and the page buffer or the FTL may have its pages. -/
theorem Books.Served.finish {new : List WrittenPage} (h : b.Served c log st)
    (hand : InHand c b.fetched req early f) (hend : Ended c b.transfers early f)
    (hfetched : b'.fetched = b.fetched) (hts : b'.transfers = b.transfers)
    (hftl : b'.ftl.ftl = b.ftl.ftl)
    (hheld : st'.held = [])
    (hstage : Serving c b' (log ++ new) st') : b'.Served c (log ++ new) st' := by
  refine ⟨?_, ?_, fun early' f' late heq _ => ?_, fun lpn hnone => ?_, hstage⟩
  · rw [hts, hfetched]
    exact h.fresh
  · rw [hheld]
    exact List.forall_mem_nil _
  · rw [hfetched] at heq
    rw [hts]
    exact h.all_ended hand hend heq
  · rw [hftl]
    exact h.unmapped lpn (newest_none_of_append hnone)

/-- A command is no accepted READ or WRITE when it is completed at once. -/
theorem not_accepted_read (hf : fetches env s = true) {q : Nat}
    (hto : completesTo c env s = some q) : (fetchOf s.driver env).acceptedRead c = false := by
  unfold Fetch.acceptedRead
  cases hr : (fetchOf s.driver env).isRead with
  | false => rfl
  | true => exact rejected_of_completesTo hf hto (Bool.or_eq_true_iff.mpr (Or.inl hr))

theorem not_rw (h : (f.isRead || f.isWrite) = false) :
    f.acceptedRead c = false ∧ f.acceptedWrite c = false := by
  refine ⟨?_, acceptedWrite_of_not_rw h⟩
  simp only [Bool.or_eq_false_iff] at h
  simp [Fetch.acceptedRead, h.1]

/-- A command with transfers to come is fetched. -/
theorem Books.Served.start (h : s.books.Served c log .polling)
    (hdurable : s.books.Durable c log .polling) (huid : req.uid = s.driver.fetched.length)
    (hfetched : b'.fetched = s.driver.fetched ++ [fetchOf s.driver env])
    (hts : b'.transfers = s.driver.transfers) (henq : b'.enqueued = s.driver.enqueued)
    (hftl : b'.ftl.ftl = s.ftl.ftl) (hheld : st'.held = [req])
    (hstage : Serving c b' log st') : b'.Served c log st' := by
  refine ⟨fun t ht => ?_, fun r hr e he => ?_, fun early f late heq hlate => ?_, ?_, hstage⟩
  · rw [hts] at ht
    have := h.fresh t ht
    rw [hfetched, List.length_append]
    exact Nat.lt_add_right _ this
  · rw [hheld] at hr
    rw [henq] at he
    rw [List.mem_singleton.mp hr, huid]
    exact (hdurable.enqueued e he).lt.ne
  · rw [hfetched] at heq
    rw [hheld] at hlate
    rw [hts]
    exact h.before heq (hlate.resolve_left (List.cons_ne_nil _ _))
  · rw [hftl]
    exact h.unmapped

/-- An accepted WRITE has no transfers yet. -/
theorem Books.Served.write (h : s.books.Served c log .polling)
    (hdurable : s.books.Durable c log .polling) (hask : RwAsk c s.driver env req)
    (hop : (fetchOf s.driver env).isWrite = true) (hfits : Fits c (fetchOf s.driver env)) :
    Books.Served c { s.books with
      fetched := s.driver.fetched ++ [fetchOf s.driver env]
      wbc := ⟨req.scmd.nlbs + 1, State.wbcPages c req s.buf.wbc.pages⟩
      dma := some ⟨req, false, 0, 0⟩ } log (.receiving req) := by
  have hacc : (fetchOf s.driver env).acceptedWrite c = true :=
    Bool.and_eq_true_iff.mpr ⟨hop, hask.accepted⟩
  have hnone : transfersOf s.driver.transfers req.uid = [] := hask.uid ▸ h.no_transfers
  exact h.start hdurable hask.uid rfl rfl rfl rfl rfl
    ⟨s.driver.fetched, _, hask.inHand hfits, hacc, h.stage, transferred_start hnone⟩

/-- An accepted READ is a job of the FTL. -/
theorem Books.Served.read (h : s.books.Served c log .polling) (hat : At s .polling)
    (hdurable : s.books.Durable c log .polling) (hask : RwAsk c s.driver env req)
    (hop : (fetchOf s.driver env).isRead = true) (hfits : Fits c (fetchOf s.driver env)) :
    Books.Served c { s.books with
      fetched := s.driver.fetched ++ [fetchOf s.driver env]
      ftl := { s.ftl with inq := s.ftl.inq ++ [.read req] } } log (.loading req) := by
  have hacc : (fetchOf s.driver env).acceptedRead c = true :=
    Bool.and_eq_true_iff.mpr ⟨hop, hask.accepted⟩
  have hnone : transfersOf s.driver.transfers req.uid = [] := hask.uid ▸ h.no_transfers
  obtain ⟨hout, hpc, hinq⟩ := (AllWritten.reads hdurable.pages).idle hat.jobs
  have hinq : s.ftl.inq = [] := hinq
  exact h.start hdurable hask.uid rfl rfl rfl rfl rfl
    ⟨s.driver.fetched, _, hask.inHand hfits, hacc, h.stage, hnone, 0, [],
      .queued hout hpc (by simp [hinq]), loadProgress_start _ _ _ _⟩

/-- The last segment of the WRITE is received. -/
theorem Books.Served.received (h : s.books.Served c log (.receiving req)) (hdma : s.dma = none) :
    Books.Served c { s.books with
      enqueued := s.driver.enqueuedAfter req.cqid req
      ftl := { s.ftl with inq := s.ftl.inq ++ [.flush] } }
      (log ++ writtenPages c req s.buf.page_buffer) (.programming req) := by
  obtain ⟨early, f, hand, hacc, hmirror, hts⟩ := h.stage
  have hts : Transferred s.dma s.driver.transfers req false s.buf.page_buffer := hts
  rw [hdma] at hts
  refine h.finish hand (ended_write hand hacc hts) rfl rfl rfl rfl ?_
  have hwrite := hmirror.write hand hacc hts
  rw [← hand.last] at hwrite
  exact hwrite

/-- The page buffer has the blocks of the READ. -/
theorem Books.Served.loaded {rest : List FtlJob} (h : s.books.Served c log (.loading req))
    (hout : s.ftl.outq = .read req :: rest) :
    Books.Served c { s.books with
      dma := some ⟨req, true, 0, 0⟩
      ftl := { s.ftl with outq := rest } } log (.sending req) := by
  obtain ⟨early, f, hand, hacc, hmirror, hnone, hloading⟩ := h.stage
  refine ⟨h.fresh, h.undone, h.ended, h.unmapped, early, f, hand, hacc, hmirror, ?_,
    transferred_start hnone⟩
  intro k hk
  rw [hand.bytes] at hk
  refine eq_stream (fun i hi k hk => ?_) hk
  have hi : i ≤ req.scmd.nlbs := Nat.lt_succ_iff.mp hi
  rw [← hand.lpn hi]
  exact hloading.ended hout i hi k hk

/-- The last segment of the READ is sent. -/
theorem Books.Served.sent (h : s.books.Served c log (.sending req)) (hdma : s.dma = none) :
    Books.Served c { s.books with enqueued := s.driver.enqueuedAfter req.cqid req }
      (log ++ []) .resuming := by
  obtain ⟨early, f, hand, hacc, hmirror, hloaded, hts⟩ := h.stage
  have hts : Transferred s.dma s.driver.transfers req true s.buf.page_buffer := hts
  rw [hdma] at hts
  refine h.finish hand (ended_read hand hacc hloaded hts) rfl rfl rfl rfl ?_
  rw [List.append_nil]
  have hall : blocksAfter c s.books.transfers s.books.fetched =
      blocksAfter c s.books.transfers early := by
    rw [hand.last, blocksAfter_snoc_other (not_both hacc)]
  rw [← hall] at hmirror
  exact hmirror

/-- A step of the NVMe thread keeps the invariant. -/
theorem NvmeMove.served (hmove : NvmeMove c env s st st' b) (hat : At s st)
    (hshn : env.shn = false) (hmsg : s.isp.msg_out_q = [])
    (hctrl : fetches env s = true →
      ((fetchOf s.driver env).isRead || (fetchOf s.driver env).isWrite) = true →
      b.ctrl_cmd_req = s.isp.ctrl_cmd_req)
    (hdurable : s.books.Durable c log st) (hfit : CommandsFit c b.fetched)
    (h : s.books.Served c log st) :
    b.Served c (log ++ movedPages c s.buf.page_buffer st st') st' := by
  have hstage := h.stage
  have huid : (fetchOf s.driver env).uid = s.books.fetched.length := rfl
  cases hmove with
  | quiet =>
    cases st <;> exact (List.append_nil log).symm ▸ h
  | shutdown hs =>
    rw [hshn] at hs
    cases hs
  | isp_job hin =>
    rw [hmsg] at hin
    cases hin
  | unanswered hf hun =>
    have hno := not_rw_of_unanswered s.driver hun
    simp only [movedPages, List.append_nil]
    exact h.fetch huid (not_rw hno).1 (not_rw hno).2 rfl rfl rfl (Or.inl rfl)
  | admin hf hq =>
    have hno := not_rw_of_admin s.driver hq
    simp only [movedPages, List.append_nil]
    exact h.fetch huid (not_rw hno).1 (not_rw hno).2 rfl rfl rfl (Or.inl rfl)
  | answered hf hto hask =>
    simp only [movedPages, List.append_nil]
    exact h.fetch huid (not_accepted_read hf hto) (not_accepted hf hto) rfl rfl rfl (Or.inl rfl)
  | rejected hf hto hask hrw hbad =>
    simp only [movedPages, List.append_nil]
    exact h.fetch huid (not_accepted_read hf hto) (not_accepted hf hto) rfl rfl rfl (Or.inr rfl)
  | stored hf hask hnone =>
    have hno : ((fetchOf s.driver env).isRead || (fetchOf s.driver env).isWrite) = false := by
      apply Bool.eq_false_of_not_eq_true
      intro hrw
      have hsame := hctrl hf hrw
      rw [hnone] at hsame
      cases hsame
    simp only [movedPages, List.append_nil]
    exact h.fetch huid (not_rw hno).1 (not_rw hno).2 rfl rfl rfl (Or.inl rfl)
  | recycled hreq hto =>
    simp only [movedPages, List.append_nil]
    exact ⟨h.fresh, List.forall_mem_nil _, h.ended, h.unmapped, hstage⟩
  | write hf hask hop =>
    have hfits := hfit (fetchOf s.driver env) (List.mem_append_right _ (List.mem_singleton_self _))
      (Bool.or_eq_true_iff.mpr (Or.inr hop))
    simp only [movedPages, List.append_nil]
    exact h.write hdurable hask hop hfits
  | read hf hask hop =>
    have hfits := hfit (fetchOf s.driver env) (List.mem_append_right _ (List.mem_singleton_self _))
      (Bool.or_eq_true_iff.mpr (Or.inl hop))
    simp only [movedPages, List.append_nil]
    exact h.read hat hdurable hask hop hfits
  | received hdma hto => exact h.received hdma
  | programmed hout =>
    simp only [movedPages, List.append_nil]
    exact ⟨h.fresh, List.forall_mem_nil _, h.ended, h.unmapped, hstage⟩
  | loaded hout =>
    simp only [movedPages, List.append_nil]
    exact h.loaded hout
  | sent hdma hto => exact h.sent hdma
  | resumed =>
    simp only [movedPages, List.append_nil]
    exact ⟨h.fresh, List.forall_mem_nil _, h.ended, h.unmapped, hstage⟩

end Moves

/-! ## The steps of the DMA thread -/

section Transfers

variable {c} {s s' : State} {st : Stage} {b b' : Books} {f w : Fetch} {req : Req}
  {early fetched : List Fetch} {log : List WrittenPage} {ts new : List Transfer} {mem : Mem}

/-- The new transfers are those of the command in hand. -/
theorem InHand.others (hand : InHand c fetched req early f)
    (huids : fetched.map Fetch.uid = List.range fetched.length)
    (hnew : ∀ t ∈ new, t.uid = req.uid) (hw : w ∈ early) :
    transfersOf (ts ++ new) w.uid = transfersOf ts w.uid := by
  refine transfersOf_append_other fun t ht => ?_
  have hlast : f.uid = early.length := uid_of_split huids hand.last
  have hlt : w.uid < early.length := uid_lt_of_mem_early huids hand.last hw
  rw [hnew t ht, ← hand.uid]
  omega

theorem InHand.blocks (hand : InHand c fetched req early f)
    (huids : fetched.map Fetch.uid = List.range fetched.length)
    (hnew : ∀ t ∈ new, t.uid = req.uid) {ts' : List Transfer} (hts : ts' = ts ++ new) :
    blocksAfter c ts' early = blocksAfter c ts early := by
  rw [hts]
  exact blocksAfter_congr fun w hw => hand.others huids hnew hw

/-- A transfer of the command in hand. -/
theorem Books.Served.transfer (h : b.Served c log st)
    (huids : b.fetched.map Fetch.uid = List.range b.fetched.length)
    (hand : InHand c b.fetched req early f) (hheld : st.held = [req])
    (hts : b'.transfers = b.transfers ++ new) (hnew : ∀ t ∈ new, t.uid = req.uid)
    (hfetched : b'.fetched = b.fetched) (henq : b'.enqueued = b.enqueued) (hftl : b'.ftl = b.ftl)
    (hstage : Serving c b' log st) : b'.Served c log st := by
  refine ⟨fun t ht => ?_, ?_, fun early' f' late heq hlate => ?_, ?_, hstage⟩
  · rw [hts] at ht
    rw [hfetched]
    rcases List.mem_append.mp ht with hold | hin
    · exact h.fresh t hold
    · have hlast : f.uid = early.length := uid_of_split huids hand.last
      rw [hnew t hin, ← hand.uid, hlast, hand.last]
      simp
  · rw [henq]
    exact h.undone
  · rw [hfetched] at heq
    rw [hheld] at hlate
    have hlate : late ≠ [] := hlate.resolve_left (List.cons_ne_nil _ _)
    refine (h.ended early' f' late heq (Or.inr hlate)).congr fun w hw => ?_
    rw [hts]
    obtain ⟨g, rest, rfl⟩ := List.exists_cons_of_ne_nil hlate
    have hsplit : (early' ++ [f']) ++ g :: rest = early ++ [f] := by
      rw [← hand.last, heq]
      simp
    exact hand.others huids hnew (mem_of_before hsplit (Nat.le_refl 1) hw)
  · rw [hftl]
    exact h.unmapped

theorem Books.Served.dma_step (hat : At s st)
    (huids : s.driver.fetched.map Fetch.uid = List.range s.driver.fetched.length)
    (h : s.books.Served c log st) : (dmaThreadStep mem s).books.Served c log st := by
  have hstage := h.stage
  have hsame : SameCommands s (dmaThreadStep mem s) := dmaThreadStep_same mem
  have hftl : (dmaThreadStep mem s).ftl = s.ftl := by
    unfold dmaThreadStep
    split
    · rfl
    · simp only
      split <;> rfl
  cases hdma : s.dma with
  | none =>
    have hid : dmaThreadStep mem s = s := by
      unfold dmaThreadStep
      rw [hdma]
    rw [hid]
    exact h
  | some job =>
    have htransfer := hat.dma job hdma
    have hfetched : (dmaThreadStep mem s).books.fetched = s.books.fetched := hsame.fetched
    cases st with
    | receiving req =>
      obtain ⟨early, f, hand, hacc, hmirror, hts⟩ := hstage
      obtain ⟨new, htransfers, hnew, -, hmoved⟩ := Transferred.step mem hat rfl hts
      have htransfers : (dmaThreadStep mem s).books.transfers = s.books.transfers ++ new :=
        htransfers
      have hblocks := hand.blocks huids hnew htransfers
      refine h.transfer huids hand rfl htransfers hnew hfetched hsame.enqueued hftl
        ⟨early, f, ?_, hacc, ?_, hmoved⟩
      · rw [hfetched]
        exact hand
      · rw [hblocks]
        exact hmirror
    | sending req =>
      obtain ⟨early, f, hand, hacc, hmirror, hloaded, hts⟩ := hstage
      obtain ⟨new, htransfers, hnew, hbuf, hmoved⟩ := Transferred.step mem hat rfl hts
      have htransfers : (dmaThreadStep mem s).books.transfers = s.books.transfers ++ new :=
        htransfers
      have hblocks := hand.blocks huids hnew htransfers
      refine h.transfer huids hand rfl htransfers hnew hfetched hsame.enqueued hftl
        ⟨early, f, ?_, hacc, ?_, fun k hk => ?_, hmoved⟩
      · rw [hfetched]
        exact hand
      · rw [hblocks]
        exact hmirror
      · have hbuf : (dmaThreadStep mem s).books.page_buffer = s.books.page_buffer := hbuf rfl
        rw [hbuf, hloaded k hk, Fetch.readBytes, Fetch.readBytes, hblocks]
    | polling => cases htransfer
    | programming req => cases htransfer
    | loading req => cases htransfer
    | resuming => cases htransfer
    | stopped => cases htransfer

end Transfers

/-! ## The steps of the FTL thread -/

section FtlSteps

variable {c} {s s' : State} {st : Stage} {req : Req} {log : List WrittenPage} {pick a : Nat}
  {applet : Nat → UInt8}

/-- An FTL thread without a job does nothing. -/
theorem ftl_idle (hreads : OnlyReads s.ftl) (hjobs : s.ftl.rwJobs = [])
    (hs : ftlThreadStep c pick applet s = some s') : s' = s := by
  obtain ⟨-, hpc, hinq⟩ := hreads.idle hjobs
  unfold ftlThreadStep at hs
  simp only [hpc, hinq] at hs
  exact (Option.some.inj hs).symm

/-- During a write-back only the LPNs of the WRITE are mapped. -/
theorem WritingBack.unmapped {page_buffer : Nat → UInt8} {lpn : Nat}
    (h : WritingBack c s.ftl log req page_buffer) (hwbc : CachedWrite c req s.buf.wbc)
    (hgood : Good c.g s.ftl.ftl a) (hs : ftlThreadStep c pick applet s = some s')
    (hlpn : ∀ i ≤ req.scmd.nlbs, lpn ≠ req.lpn i) :
    s'.ftl.ftl.lpa_table lpn = s.ftl.ftl.lpa_table lpn := by
  obtain ⟨n, ops, hat, -⟩ := h
  unfold ftlThreadStep at hs
  cases hat with
  | queued hout hpc hinq =>
    simp only [hpc, hinq] at hs
    cases hs
    rfl
  | @mapping i n ops hout hpc hinq hn =>
    simp only [hpc] at hs
    unfold process_wbc at hs
    simp only at hs
    split at hs
    · by_cases hi : i ≤ req.scmd.nlbs
      · rw [hwbc.filled i hi, if_pos rfl] at hs
        unfold mapPage at hs
        split at hs
        · split at hs
          · cases hs
            rfl
          · rename_i x ftl hmap
            cases hs
            obtain ⟨-, -, -, heq⟩ := make_new_mapping_cases hgood hmap
            rw [heq, map_new_page_lpa_table, Function.update_of_ne (hlpn i hi)]
            rfl
        · cases hs
      · rw [hwbc.rest i (by omega), if_neg Bool.false_ne_true] at hs
        cases hs
        rfl
    · cases hs
      rfl
  | @programming ops hout hpc hinq =>
    cases ops with
    | nil =>
      simp only [hpc] at hs
      cases hs
      rfl
    | cons op ops =>
      simp only [hpc] at hs
      cases hs
      unfold nandOp
      simp only
      split
      · rfl
      · split <;> rfl
  | ended hout hpc hinq =>
    simp only [hpc, hinq] at hs
    cases hs
    rfl

theorem Books.Served.ftl_step (hgood : Good c.g s.ftl.ftl a) (hat : At s st)
    (hdurable : s.books.Durable c log st) (h : s.books.Served c log st)
    (hs : ftlThreadStep c pick applet s = some s') : s'.books.Served c log st := by
  have hpages := hdurable.pages
  have hstage := h.stage
  have hframe := (ftlThreadStep_frame hs).state
  -- Without a job, nothing changes.
  have hidle : OnlyReads s.ftl → st.jobs = [] → s'.books.Served c log st := by
    intro hreads hjobs
    rw [ftl_idle hreads (hat.jobs.trans hjobs) hs]
    exact h
  cases st with
  | polling => exact hidle (AllWritten.reads hpages) rfl
  | receiving req => exact hidle hpages.2.1 rfl
  | sending req => exact hidle (AllWritten.reads hpages) rfl
  | resuming => exact hidle (AllWritten.reads hpages) rfl
  | stopped => exact hidle (AllWritten.reads hpages) rfl
  | programming req =>
    obtain ⟨old, rfl, hcached, hwriting⟩ := hpages
    have hunmapped : ∀ lpn, newest (old ++ writtenPages c req s.buf.page_buffer) lpn = none →
        s'.ftl.ftl.is_unmapped_lpa lpn = true := by
      intro lpn hnone
      have hother : ∀ i ≤ req.scmd.nlbs, lpn ≠ req.lpn i := by
        rintro i hi rfl
        rw [newest_written old hi] at hnone
        cases hnone
      have hsame := hwriting.unmapped hcached hgood hs hother
      have hm := h.unmapped lpn hnone
      unfold Ftl.is_unmapped_lpa at hm ⊢
      rw [hsame]
      exact hm
    rw [hframe] at hunmapped ⊢
    exact ⟨h.fresh, h.undone, h.ended, hunmapped, hstage⟩
  | loading req =>
    obtain ⟨hflash, hreads, -⟩ := hpages
    obtain ⟨early, f, hand, hacc, hmirror, hnone, hloading⟩ := hstage
    have hblocks : HasBlocks c s.ftl (blocksAfter c s.driver.transfers early) :=
      hflash.hasBlocks hmirror h.unmapped
    have hloading' := Loading.step hloading hblocks hs
    obtain ⟨-, hftl, -⟩ := hreads.step hs
    have hunmapped : ∀ lpn, newest log lpn = none → s'.ftl.ftl.is_unmapped_lpa lpn = true := by
      rw [hftl]
      exact h.unmapped
    rw [hframe] at hunmapped hloading' ⊢
    exact ⟨h.fresh, h.undone, h.ended, hunmapped, early, f, hand, hacc, hmirror, hnone, hloading'⟩

end FtlSteps

/-! ## The law -/

/-- The log of written pages is kept, and while the commands fit, they are served. -/
structure ServeReady (x : State × List WrittenPage) (st : Stage) : Prop where
  flush : FlushReady c x st
  served : CommandsFit c x.1.driver.fetched → x.1.books.Served c x.2 st

section Law

variable {c} {env : Env} {s s' : State} {st st' : Stage} {b : Books} {f w : Fetch} {req : Req}
  {early late fetched : List Fetch} {log : List WrittenPage} {x y : State × List WrittenPage}
  {a : CommandAction}

theorem CommandsFit.before (h : CommandsFit c (fetched ++ late)) : CommandsFit c fetched :=
  fun f hf hrw => h f (List.mem_append_left _ hf) hrw

/-- A step of the NVMe thread fetches at most one command. -/
theorem NvmeMove.fetches_one (h : NvmeMove c env s st st' b) :
    ∃ l, b.fetched = s.driver.fetched ++ l := by
  cases h with
  | quiet | shutdown | isp_job | recycled | received | programmed | loaded | sent | resumed =>
    exact ⟨[], (List.append_nil _).symm⟩
  | unanswered | admin | answered | rejected | stored | write | read => exact ⟨_, rfl⟩

theorem ServeReady.step (h : ServeReady c x st) (hs : loggedStep c x a = some y) :
    ∃ st', ServeReady c y st' := by
  obtain ⟨s', hs', rfl⟩ := Option.map_eq_some_iff.mp hs
  have hflush := h.flush
  have htables := hflush.tables_step hs'
  obtain ⟨n, hgood⟩ := hflush.tables
  cases a with
  | nvme env =>
    have hs' : nvmeStep c { env with shn := false } x.1 = some s' := hs'
    obtain ⟨st', hat', hmove⟩ := nvmeStep_move hflush.stage hs'
    refine ⟨st', ?_⟩
    simp only [loggedPages_eq env hflush.stage hat' hs' hmove]
    refine ⟨hflush.nvme_step rfl hs' hat' hmove htables, fun hfit => ?_⟩
    obtain ⟨l, hfetched⟩ := hmove.fetches_one
    have hfetched : s'.driver.fetched = x.1.driver.fetched ++ l := hfetched
    have hbefore : CommandsFit c x.1.driver.fetched := by
      rw [hfetched] at hfit
      exact hfit.before
    exact hmove.served hflush.stage rfl hflush.messages
      (fun hf hrw => congrArg Isp.ctrl_cmd_req (isp_of_rw hs' hf hrw)) hflush.durable hfit
      (h.served hbefore)
  | dma mem =>
    obtain rfl : dmaThreadStep mem x.1 = s' := Option.some.inj hs'
    refine ⟨st, ?_⟩
    simp only [loggedPages, List.append_nil]
    refine ⟨hflush.dma_step mem htables, fun hfit => ?_⟩
    have hsame : SameCommands x.1 (dmaThreadStep mem x.1) := dmaThreadStep_same mem
    rw [hsame.fetched] at hfit
    exact (h.served hfit).dma_step hflush.stage hflush.durable.uids
  | ftl pick =>
    have hs' : ftlThreadStep c pick (fun _ => 0) x.1 = some s' := hs'
    refine ⟨st, ?_⟩
    simp only [loggedPages, List.append_nil]
    refine ⟨hflush.ftl_step hs' htables, fun hfit => ?_⟩
    rw [(ftlThreadStep_same hs').fetched] at hfit
    exact (h.served hfit).ftl_step hgood.good hflush.stage hflush.durable hs'

/-- The request in hand is that of the last command. -/
theorem Books.Served.inHand (h : b.Served c log st) (hreq : req ∈ st.held) :
    ∃ early f, InHand c b.fetched req early f := by
  have hstage := h.stage
  cases st with
  | receiving req' | loading req' | sending req' =>
    obtain rfl := List.mem_singleton.mp hreq
    obtain ⟨early, f, hand, -⟩ := hstage
    exact ⟨early, f, hand⟩
  | polling | programming | resuming | stopped => cases hreq

/-- A command that is over is not in hand. -/
theorem Books.Served.over (h : b.Served c log st) (heq : b.fetched = early ++ f :: late)
    (hover : late ≠ [] ∨ ∃ e ∈ b.enqueued, e.2.uid = f.uid) : st.held = [] ∨ late ≠ [] := by
  rcases hover with hlate | ⟨e, he, huid⟩
  · exact Or.inr hlate
  · by_contra hno
    push Not at hno
    obtain ⟨hheld, rfl⟩ := hno
    obtain ⟨req, hreq⟩ := List.exists_mem_of_ne_nil _ hheld
    obtain ⟨early', f', hand⟩ := h.inHand hreq
    have hlast := hand.last
    rw [heq] at hlast
    obtain ⟨-, hf⟩ := List.append_inj' hlast rfl
    cases hf
    exact h.undone req hreq e he (huid.trans hand.uid)

/-- The transfers of the last READ, while it is in hand, are the first of those that it asks
for. -/
theorem Books.Served.reading (h : b.Served c log st) (heq : b.fetched = early ++ [f])
    (hread : f.isRead = true) (hheld : st.held ≠ []) {ops : List DmaOp}
    (hops : f.segments c = some ops) :
    transfersOf b.transfers f.uid <+:
      segmentTransfers f.uid true (f.readBytes c b.transfers early) 0 ops := by
  have hstage := h.stage
  -- The last command is the one in hand.
  have hlast : ∀ {req early' f'}, InHand c b.fetched req early' f' → early' = early ∧ f' = f := by
    intro req early' f' hand
    have hsplit := hand.last
    rw [heq] at hsplit
    obtain ⟨rfl, hf⟩ := List.append_inj' hsplit rfl
    cases hf
    exact ⟨rfl, rfl⟩
  cases st with
  | polling | programming | resuming | stopped => exact absurd rfl hheld
  | receiving req =>
    obtain ⟨early', f', hand, hacc, -⟩ := hstage
    obtain ⟨rfl, rfl⟩ := hlast hand
    simp only [Fetch.isRead, Bool.and_eq_true, beq_iff_eq] at hread
    simp [Fetch.acceptedWrite, Fetch.isWrite, hread.2] at hacc
  | loading req =>
    obtain ⟨early', f', hand, -, -, hnone, -⟩ := hstage
    obtain ⟨rfl, rfl⟩ := hlast hand
    rw [hand.uid, hnone]
    exact List.nil_prefix
  | sending req =>
    obtain ⟨early', f', hand, -, -, hloaded, hts⟩ := hstage
    obtain ⟨rfl, rfl⟩ := hlast hand
    obtain rfl := Option.some.inj (hops.symm.trans hand.segments)
    have hsame : segmentTransfers req.uid true b.page_buffer 0 req.dma.ops =
        segmentTransfers req.uid true (f'.readBytes c b.transfers early') 0 req.dma.ops := by
      refine segmentTransfers_congr fun k _ hk => hloaded k ?_
      rwa [Nat.zero_add] at hk
    rw [hand.uid, ← hsame]
    exact hts.isPrefix

theorem Books.Served.isBlockDevice (h : s.books.Served c log st)
    (hfit : CommandsFit c s.driver.fetched) : IsBlockDevice c s.driver := by
  constructor
  · intro early w late heq hacc hover
    exact (h.ended early w late heq (h.over heq hover)).write hacc
  · intro early f late heq hread
    have hmem : f ∈ s.driver.fetched := by
      rw [heq]
      exact List.mem_append_right _ List.mem_cons_self
    obtain ⟨ops, hops, -⟩ := (hfit f hmem (Bool.or_eq_true_iff.mpr (Or.inl hread))).segments
    refine ⟨ops, hops, ?_, fun hacc hover => ?_⟩
    · by_cases hdone : st.held = [] ∨ late ≠ []
      · have hended := h.ended early f late heq hdone
        cases hacc : f.acceptedRead c with
        | true =>
          obtain ⟨ops', hops', hts⟩ := hended.read hacc
          obtain rfl := Option.some.inj (hops.symm.trans hops')
          exact hts ▸ List.prefix_refl _
        | false =>
          have hw : f.acceptedWrite c = false := by
            simp only [Fetch.isRead, Bool.and_eq_true, beq_iff_eq] at hread
            simp [Fetch.acceptedWrite, Fetch.isWrite, hread.2]
          have hnone : transfersOf s.driver.transfers f.uid = [] := hended.other hacc hw
          rw [hnone]
          exact List.nil_prefix
      · push Not at hdone
        obtain ⟨hheld, rfl⟩ := hdone
        exact h.reading heq hread hheld hops
    · obtain ⟨ops', hops', hts⟩ := (h.ended early f late heq (h.over heq hover)).read hacc
      obtain rfl := Option.some.inj (hops.symm.trans hops')
      exact hts

theorem serveReady_initialState (c : Config) (asqs acqs asq acq : Nat)
    (flash : Ppa → Nat → UInt8) :
    ServeReady c (initialState c asqs acqs asq acq flash, []) .polling := by
  refine ⟨flushReady_initialState c asqs acqs asq acq flash, fun _ => ⟨List.forall_mem_nil _,
    List.forall_mem_nil _, fun early f late heq => ?_, fun lpn _ => ?_, ?_⟩⟩
  · exact absurd heq.symm (List.append_ne_nil_of_right_ne_nil _ (List.cons_ne_nil _ _))
  · rfl
  · refine ⟨fun lpn p hp => ?_, fun _ _ _ _ => rfl⟩
    cases hp

/-- A run of the firmware is one with a log of written pages beside it. -/
theorem logged_run {acts : List CommandAction}
    (h : run (fwStep c) s (acts.map CommandAction.toAction) = some s') (log : List WrittenPage) :
    ∃ log', run (loggedStep c) (s, log) acts = some (s', log') := by
  induction acts generalizing s log with
  | nil =>
    cases h
    exact ⟨log, rfl⟩
  | cons a acts ih =>
    obtain ⟨t, ht, hrest⟩ := Option.bind_eq_some_iff.mp h
    obtain ⟨log', hlog'⟩ := ih hrest (log ++ loggedPages c s a)
    refine ⟨log', ?_⟩
    rw [run_cons, loggedStep, ht]
    exact hlog'

end Law

/-- In every run of commands that fit, the firmware is a block device: each READ sends the
host, LBA by LBA, the bytes of the last WRITE of the LBA that was fetched before it, and zeros
for an LBA that was never written. -/
theorem every_read_returns_the_last_writes {asqs acqs asq acq : Nat} {flash : Ppa → Nat → UInt8}
    {acts : List CommandAction} {s : State}
    (h : run (fwStep c) (initialState c asqs acqs asq acq flash)
      (acts.map CommandAction.toAction) = some s)
    (hfit : CommandsFit c s.driver.fetched) : IsBlockDevice c s.driver := by
  obtain ⟨log, hlog⟩ := logged_run h []
  have hready : ∃ st, ServeReady c (s, log) st :=
    run_keeps (I := fun x => ∃ st, ServeReady c x st) (fun _ _ _ ⟨_, ht⟩ hstep => ht.step hstep)
      ⟨_, serveReady_initialState ..⟩ hlog
  obtain ⟨st, hready⟩ := hready
  exact (hready.served hfit).isBlockDevice hfit

/-- Reads block 0 after it was written, up to the completion. -/
def readAfterWrite : List CommandAction :=
  writeOnce ++ List.replicate 4 (.nvme (ringFor 1 2 (readBlock 1))) ++
    List.replicate 5 (.ftl 0) ++ List.replicate 4 (.nvme noRing) ++
    List.replicate 2 (.dma fun _ => 0) ++ List.replicate 4 (.nvme noRing)

/-- The READ of a written block sends the bytes of the WRITE. -/
theorem every_read_returns_the_last_writes_after_one_write :
    ∃ s early f, run (fwStep smallDevice) bootState
        (readAfterWrite.map CommandAction.toAction) = some s ∧
      s.driver.fetched = early ++ [f] ∧ f.acceptedRead smallDevice = true ∧
      ∃ ops, f.segments smallDevice = some ops ∧ transfersOf s.driver.transfers f.uid =
        segmentTransfers f.uid true (f.readBytes smallDevice s.driver.transfers early) 0 ops := by
  have hrun : (run (fwStep smallDevice) bootState
      (readAfterWrite.map CommandAction.toAction)).map (fun s =>
        (decide (CommandsFit smallDevice s.driver.fetched),
          s.driver.fetched.map (fun f => (f.uid, f.acceptedRead smallDevice)),
          s.driver.enqueued.map fun e => e.2.uid)) =
      some (true, [(0, false), (1, false), (2, false), (3, true)], [0, 1, 2, 3]) := by
    decide +kernel
  obtain ⟨s, hs, hvals⟩ := Option.map_eq_some_iff.mp hrun
  simp only [Prod.mk.injEq, decide_eq_true_eq] at hvals
  obtain ⟨hfit, hfetched, henqueued⟩ := hvals
  have hlast : s.driver.fetched.map (fun f => (f.uid, f.acceptedRead smallDevice)) =
      [(0, false), (1, false), (2, false)] ++ [(3, true)] := hfetched
  obtain ⟨early, last, hsplit, -, hlast⟩ := List.map_eq_append_iff.mp hlast
  obtain ⟨f, rfl, hf⟩ := List.map_eq_singleton_iff.mp hlast
  obtain ⟨huid, hacc⟩ := Prod.mk.inj hf
  have hdone : ∃ e ∈ s.driver.enqueued, e.2.uid = f.uid := by
    rw [huid]
    refine List.mem_map.mp ?_
    rw [henqueued]
    simp
  obtain ⟨ops, hops, -, hall⟩ := (every_read_returns_the_last_writes smallDevice hs hfit).read
    early f [] hsplit (Bool.and_eq_true_iff.mp hacc).1
  exact ⟨s, early, f, hs, hsplit, hacc, ops, hops, hall hacc (Or.inr hdone)⟩

end S4Sim
