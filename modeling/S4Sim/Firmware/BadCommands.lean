-- READ and WRITE commands that should be rejected: `verify_rw_param` rejects them, or
-- their PRPs do not decode. The firmware completes every READ and WRITE with status 0, and
-- it looks at no result of `decode_prp`: a transfer goes on with the segments that are in
-- the descriptor, also with those of an earlier command.
import S4Sim.Firmware.OneCompletion

open Runs

namespace S4Sim

variable (c : Config)

/-- The bytes of a READ or WRITE. -/
def Fetch.dataSize (f : Fetch) : Nat := (f.scmd.nlbs + 1) * c.pageBytes % 2 ^ 32

/-- The segments of the PRPs of a command, as they were when it was fetched. -/
def Fetch.segments (f : Fetch) : Option (List DmaOp) :=
  decodedOps c.hostPageBits f.mem f.scmd.prp1.toNat f.scmd.prp2.toNat (f.dataSize c)

/-- A READ or WRITE that `verify_rw_param` rejects, or whose PRPs do not decode. -/
def BadCommand (f : Fetch) : Prop :=
  (f.isRead || f.isWrite) = true ∧ (verify_rw_param c f.scmd = false ∨ f.segments c = none)

/-- Nothing is transferred for the command, and its completion has an error status. -/
def CleanlyRejected (s : State) (f : Fetch) : Prop :=
  (∀ t ∈ s.driver.transfers, t.uid ≠ f.uid) ∧
    ∃ e ∈ s.driver.enqueued, e.2.uid = f.uid ∧ e.2.status ≠ 0

/-! ## The status of a completion -/

/-- Only completions of admin commands have a status, and no request in hand has one. -/
structure Books.NoStatus (b : Books) (st : Stage) : Prop where
  uids : b.fetched.map Fetch.uid = List.range b.fetched.length
  done : ∀ e ∈ b.enqueued, e.2.status = 0 ∨ ∃ f ∈ b.fetched, f.uid = e.2.uid ∧ f.sqid = 0
  held : ∀ req ∈ st.held ++ b.ctrl_cmd_req.toList, req.status = 0

section Steps

variable {c : Config} {s s' : State} {st st' : Stage} {env : Env} {f : Fetch} {b b' : Books}

theorem Books.NoStatus.congr (h : b.NoStatus st) (hf : b'.fetched = b.fetched)
    (he : b'.enqueued = b.enqueued)
    (hheld : ∀ req ∈ st'.held ++ b'.ctrl_cmd_req.toList, req ∈ st.held ++ b.ctrl_cmd_req.toList) :
    b'.NoStatus st' := by
  obtain ⟨huids, hdone, hstatus⟩ := h
  exact ⟨by rwa [hf], by rwa [hf, he], fun req hreq => hstatus req (hheld req hreq)⟩

/-- A step may fetch an entry and enqueue a request. -/
theorem Books.NoStatus.step {e : Nat × Req} {l : List Fetch} (h : b.NoStatus st)
    (hf : b'.fetched = b.fetched ++ l) (huids : b'.fetched.map Fetch.uid =
      List.range b'.fetched.length)
    (he : ∀ x ∈ b'.enqueued, x ∈ b.enqueued ∨ x = e)
    (hstatus : e.2.status = 0 ∨ ∃ f ∈ l, f.uid = e.2.uid ∧ f.sqid = 0)
    (hheld : ∀ req ∈ st'.held ++ b'.ctrl_cmd_req.toList,
      req ∈ st.held ++ b.ctrl_cmd_req.toList ∨ req.status = 0) :
    b'.NoStatus st' := by
  refine ⟨huids, fun x hx => ?_, fun req hreq => ?_⟩
  · rw [hf]
    rcases he x hx with hold | rfl
    · rcases h.done x hold with hz | ⟨f, hf, hadmin⟩
      · exact Or.inl hz
      · exact Or.inr ⟨f, List.mem_append_left _ hf, hadmin⟩
    · rcases hstatus with hz | ⟨f, hf, hadmin⟩
      · exact Or.inl hz
      · exact Or.inr ⟨f, List.mem_append_right _ hf, hadmin⟩
  · rcases hheld req hreq with hold | hz
    · exact h.held req hold
    · exact hz

theorem mem_enqueuedAfter {d : Driver} {q : Nat} {req : Req} {x : Nat × Req}
    (h : x ∈ d.enqueuedAfter q req) : x ∈ d.enqueued ∨ x = (q, req) := by
  unfold Driver.enqueuedAfter at h
  split at h
  · exact Or.inl h
  · simpa using h

theorem NvmeMove.noStatus (hmove : NvmeMove c env s st st' b) (h : s.books.NoStatus st) :
    b.NoStatus st' := by
  have hfetch : (s.driver.fetched ++ [fetchOf s.driver env]).map Fetch.uid =
      List.range (s.driver.fetched ++ [fetchOf s.driver env]).length := uids_snoc h.uids rfl
  cases hmove with
  | quiet => exact h
  | shutdown => exact h.congr rfl rfl fun _ hreq => hreq
  | isp_job => exact h.congr rfl rfl fun _ hreq => hreq
  | unanswered hf hun =>
    exact h.step (e := (0, zeroReq)) rfl hfetch (fun _ hx => Or.inl hx) (Or.inl rfl)
      fun _ hreq => Or.inl hreq
  | @admin req hf hq huid hcid hcq =>
    refine h.step (e := (0, req)) rfl hfetch (fun x hx => ?_) (Or.inr ?_)
      fun _ hreq => Or.inl hreq
    · exact (List.mem_append.mp hx).imp_right List.mem_singleton.mp
    · exact ⟨fetchOf s.driver env, by simp, huid.symm, hq⟩
  | answered hf hto hask =>
    exact h.step rfl hfetch (fun _ hx => mem_enqueuedAfter hx) (Or.inl hask.status)
      fun _ hreq => Or.inl hreq
  | rejected hf hto hask hrw hbad =>
    exact h.step rfl hfetch (fun _ hx => mem_enqueuedAfter hx) (Or.inl hask.status)
      fun _ hreq => Or.inl hreq
  | @stored req hf hask hnone =>
    refine h.step (e := (0, zeroReq)) rfl hfetch (fun _ hx => Or.inl hx) (Or.inl rfl)
      fun x hx => Or.inr ?_
    simp only [Stage.held, Option.toList_some, List.nil_append, List.mem_singleton] at hx
    rw [hx]
    exact hask.status
  | @recycled req dw0 hreq hto =>
    refine h.step (l := []) (by simp) h.uids (fun _ hx => mem_enqueuedAfter hx) (Or.inl ?_)
      fun x hx => ?_
    · exact h.held req (by simp [Stage.held, State.books, hreq])
    · simp [Stage.held] at hx
  | @write req hf hask hop =>
    refine h.step (e := (0, zeroReq)) rfl hfetch (fun _ hx => Or.inl hx) (Or.inl rfl)
      fun x hx => ?_
    rcases List.mem_append.mp hx with hx | hx
    · rw [List.mem_singleton.mp hx]
      exact Or.inr hask.status
    · exact Or.inl (List.mem_append_right _ hx)
  | @read req hf hask hop =>
    refine h.step (e := (0, zeroReq)) rfl hfetch (fun _ hx => Or.inl hx) (Or.inl rfl)
      fun x hx => ?_
    rcases List.mem_append.mp hx with hx | hx
    · rw [List.mem_singleton.mp hx]
      exact Or.inr hask.status
    · exact Or.inl (List.mem_append_right _ hx)
  | @received req hdma hto =>
    refine h.step (l := []) (by simp) h.uids (fun _ hx => mem_enqueuedAfter hx) (Or.inl ?_)
      fun x hx => Or.inl (List.mem_append_right _ hx)
    exact h.held req (by simp [Stage.held])
  | programmed => exact h.congr rfl rfl fun _ hreq => hreq
  | loaded => exact h.congr rfl rfl fun _ hreq => hreq
  | @sent req hdma hto =>
    refine h.step (l := []) (by simp) h.uids (fun _ hx => mem_enqueuedAfter hx) (Or.inl ?_)
      fun x hx => Or.inl (List.mem_append_right _ hx)
    exact h.held req (by simp [Stage.held])
  | resumed => exact h.congr rfl rfl fun _ hreq => hreq

/-- The firmware is at a stage where no READ or WRITE has an error status. -/
def NeverFails (s : State) : Prop := ∃ st, At s st ∧ s.books.NoStatus st

theorem neverFails_step {a : Action} (h : NeverFails s) (hstep : fwStep c s a = some s') :
    NeverFails s' := by
  obtain ⟨st, hat, hno⟩ := h
  rcases fwStep_at hat hstep with ⟨env, st', rfl, hat', hmove⟩ | ⟨hat', hsame⟩
  · exact ⟨st', hat', hmove.noStatus hno⟩
  · refine ⟨st, hat', hno.congr hsame.fetched hsame.enqueued fun req hreq => ?_⟩
    rwa [show s'.books.ctrl_cmd_req = s.books.ctrl_cmd_req from hsame.ctrl] at hreq

theorem NeverFails.status (h : NeverFails s) (hf : f ∈ s.driver.fetched) (hq : f.sqid ≠ 0) :
    ∀ e ∈ s.driver.enqueued, e.2.uid = f.uid → e.2.status = 0 := by
  obtain ⟨st, -, huids, hdone, -⟩ := h
  intro e he huid
  have hnodup : (s.driver.fetched.map Fetch.uid).Nodup := by
    rw [show s.driver.fetched.map Fetch.uid = _ from huids]
    exact List.nodup_range
  rcases hdone e he with hz | ⟨f', hf', huid', hadmin⟩
  · exact hz
  · rw [List.inj_on_of_nodup_map hnodup hf' hf (huid'.trans huid)] at hadmin
    exact absurd hadmin hq

end Steps

/-! ## The law -/

/-- In no run is a bad READ or WRITE rejected: its completion, if there is one, says
success. -/
theorem no_bad_command_is_cleanly_rejected {asqs acqs asq acq : Nat} {flash : Ppa → Nat → UInt8}
    {acts : List Action} {s : State} {f : Fetch}
    (h : run (fwStep c) (initialState c asqs acqs asq acq flash) acts = some s)
    (hf : f ∈ s.driver.fetched) (hbad : BadCommand c f) : ¬ CleanlyRejected s f := by
  have hinit : NeverFails (initialState c asqs acqs asq acq flash) :=
    ⟨.polling, at_initialState c asqs acqs asq acq flash, rfl, by simp [State.books, initialState,
      initialize_nvme, Driver.zero], by simp [Stage.held, State.books, initialState]⟩
  have hnever : NeverFails s :=
    run_keeps (fun _ _ _ ht hstep => neverFails_step ht hstep) hinit h
  rintro ⟨-, e, he, huid, hstatus⟩
  have hq : f.sqid ≠ 0 := by
    have hrw := hbad.1
    rintro hzero
    simp [Fetch.isRead, Fetch.isWrite, hzero] at hrw
  exact hstatus (hnever.status hf hq e he huid)

/-- The request object of `readBlock` after its READ, back from the pool. -/
def usedObject : Req :=
  { zeroReq with
    uid := 2, sqid := 1, cqid := 1, scmd := readBlock 1
    dma := ⟨4096, 1, fun i => if i = 0 then ⟨0x30000, 4096⟩ else ⟨0, 0⟩⟩ }

/-- A READ with PRP1 zero that gets the used object, up to its completion. -/
def readWithoutPrp : List Action :=
  List.replicate 3 (.nvme { ringFor 1 2 { readBlock 1 with cid := 4, prp1 := 0 } with
    obj := some usedObject }) ++ List.replicate 4 (.ftl 0 fun _ => 0) ++
    roundFor noRing ++ List.replicate 2 (.dma fun _ => 0) ++ List.replicate 4 (.nvme noRing)

/-- The second of two READs has no PRP1. It is completed, and its data goes to the segment
of the first. -/
theorem a_read_without_prps_uses_an_old_segment :
    ¬ ∀ (acts : List Action) (s : State), run (fwStep smallDevice) bootState acts = some s →
      ∀ f ∈ s.driver.fetched, BadCommand smallDevice f →
        (∃ e ∈ s.driver.enqueued, e.2.uid = f.uid) → CleanlyRejected s f := by
  intro hall
  have hrun : (run (fwStep smallDevice) bootState
      (createQueues ++ readOnce ++ readWithoutPrp)).map
        (fun s => s.driver.fetched.any fun f =>
          (f.isRead || f.isWrite) && (f.segments smallDevice).isNone &&
            s.driver.enqueued.any (fun e => e.2.uid == f.uid) &&
            s.driver.transfers.any fun t => t.uid == f.uid && t.host_p_addr == 0x30000) =
      some true := by
    decide +kernel
  obtain ⟨s, hs, hbad⟩ := Option.map_eq_some_iff.mp hrun
  simp only [List.any_eq_true, Bool.and_eq_true, beq_iff_eq, Option.isNone_iff_eq_none] at hbad
  obtain ⟨f, hf, ⟨⟨hrw, hnone⟩, hdone⟩, t, ht, huid, -⟩ := hbad
  exact (hall _ s hs f hf ⟨hrw, Or.inr hnone⟩ hdone).1 t ht huid

/-- The law at that READ. -/
theorem no_bad_command_is_cleanly_rejected_without_prps :
    ∃ s f, run (fwStep smallDevice) bootState (createQueues ++ readOnce ++ readWithoutPrp) =
        some s ∧ f ∈ s.driver.fetched ∧ BadCommand smallDevice f ∧ ¬ CleanlyRejected s f := by
  have hrun : (run (fwStep smallDevice) bootState
      (createQueues ++ readOnce ++ readWithoutPrp)).map
        (fun s => s.driver.fetched.any fun f =>
          (f.isRead || f.isWrite) && (f.segments smallDevice).isNone) = some true := by
    decide +kernel
  obtain ⟨s, hs, hbad⟩ := Option.map_eq_some_iff.mp hrun
  simp only [List.any_eq_true, Bool.and_eq_true, Option.isNone_iff_eq_none] at hbad
  obtain ⟨f, hf, hrw, hnone⟩ := hbad
  exact ⟨s, f, hs, hf, ⟨hrw, Or.inr hnone⟩,
    no_bad_command_is_cleanly_rejected smallDevice hs hf ⟨hrw, Or.inr hnone⟩⟩

end S4Sim
