-- What the host hears of the DMA requests of an applet. A request lies in `pending_dma`
-- and in a message, and the code that handles the message does not take it out of the
-- ring. A request is announced once as long as each message finds no control command,
-- and as long as no transfer completes a request that the host has not heard of.
import S4Sim.Isp.Objects
import S4Sim.Firmware.DoorBellPolling

open Runs

namespace S4Sim

namespace IspState

/-- How often the request with number `n` was announced. -/
def timesAnnounced (s : IspState) (n : Nat) : Nat :=
  (s.announced.map Announcement.request).count (some n)

/-- The announcement is of a request, with its code, while the applet held it and before
it was complete. -/
def GoodAnnouncement (s : IspState) (a : Announcement) : Prop :=
  ∃ n r, a.request = some n ∧ s.requests[n]? = some r ∧ a.request_code = r.request_code ∧
    a.stage ≠ .ISP_HOST_DMA_REQ_CMPT ∧ a.held = true

/-- No request is announced twice, a request that the applet has back was announced, and
each announcement is good. -/
structure AnnouncedOnce (s : IspState) : Prop where
  once : ∀ n, s.timesAnnounced n ≤ 1
  heard : ∀ n ∈ s.returned, s.timesAnnounced n = 1
  good : ∀ a ∈ s.announced, s.GoodAnnouncement a

/-! ## What a step does to the requests -/

/-- `o'` is the same request as `o`, and not complete if `o` is not. -/
def SameRequest (o o' : HostDma) : Prop :=
  o'.request_code = o.request_code ∧
    (o'.req_stage = .ISP_HOST_DMA_REQ_CMPT → o.req_stage = .ISP_HOST_DMA_REQ_CMPT)

theorem SameRequest.refl (o : HostDma) : SameRequest o o := ⟨rfl, id⟩

/-- A step that neither announces nor touches the request of the applet. -/
structure Quiet (s s' : IspState) : Prop where
  applet : s'.applet = s.applet
  pending_dma : s'.pending_dma = s.pending_dma
  announced : s'.announced = s.announced
  requests : s'.requests = s.requests
  requestOf : s'.requestOf = s.requestOf
  returned : s'.returned = s.returned
  objs : ∀ x, s.applet.request = some x → SameRequest (s.objs x) (s'.objs x)

variable {s s' t : IspState} {x y : Nat} {c : Config} {a : IspAction}

/-- All that `Quiet` looks at. -/
def requestView (s : IspState) :=
  (s.applet, s.pending_dma, s.announced, s.requests, s.requestOf, s.returned, s.objs)

theorem Quiet.refl (s : IspState) : Quiet s s :=
  ⟨rfl, rfl, rfl, rfl, rfl, rfl, fun _ _ => SameRequest.refl _⟩

theorem Quiet.outside (h : s'.requestView = s.requestView) : Quiet s s' := by
  simp only [requestView, Prod.mk.injEq] at h
  obtain ⟨happlet, hpending, hannounced, hrequests, hrequestOf, hreturned, hobjs⟩ := h
  refine ⟨happlet, hpending, hannounced, hrequests, hrequestOf, hreturned, ?_⟩
  intro x _
  rw [hobjs]
  exact SameRequest.refl _

theorem Quiet.trans (h : Quiet s s') (h' : Quiet s' t) : Quiet s t := by
  refine ⟨h'.applet.trans h.applet, h'.pending_dma.trans h.pending_dma,
    h'.announced.trans h.announced, h'.requests.trans h.requests,
    h'.requestOf.trans h.requestOf, h'.returned.trans h.returned, ?_⟩
  intro x hx
  obtain ⟨hcode, hstage⟩ := h.objs x hx
  obtain ⟨hcode', hstage'⟩ := h'.objs x (by rw [h.applet, hx])
  exact ⟨hcode'.trans hcode, fun he => hstage (hstage' he)⟩

/-- A write to an object that is not the request of the applet. -/
theorem Quiet.write {obj : HostDma} (h : s.applet.request ≠ some y) :
    Quiet s (s.writeObj y obj) := by
  refine ⟨rfl, rfl, rfl, rfl, rfl, rfl, ?_⟩
  intro x hx
  have hne : x ≠ y := by
    rintro rfl
    exact h hx
  rw [writeObj_of_ne hne]
  exact SameRequest.refl _

/-- A write that leaves the code and does not complete the object. -/
theorem Quiet.update {obj : HostDma} (h : SameRequest (s.objs y) obj) :
    Quiet s (s.writeObj y obj) := by
  refine ⟨rfl, rfl, rfl, rfl, rfl, rfl, ?_⟩
  intro x _
  by_cases hxy : x = y
  · subst hxy
    rw [writeObj_self]
    exact h
  · rw [writeObj_of_ne hxy]
    exact SameRequest.refl _

theorem Quiet.stage {stage : ReqStage} (h : stage ≠ .ISP_HOST_DMA_REQ_CMPT) :
    Quiet s (s.setStage y stage) := Quiet.update ⟨rfl, fun he => absurd he h⟩

/-- The request of the applet is at no other place. -/
theorem OnePlace.request_alone (hone : OnePlace s) (h : s.applet.request = some x) :
    s.pooled x = 0 ∧ x ∉ s.others ∧ s.ctrl_cmd_req ≠ some x := by
  have hobject : s.applet.object = some x := by
    cases hpc : s.applet <;> simp_all [AppletPc.request, AppletPc.object]
  have hle := hone x
  unfold owners at hle
  rw [hobject, Option.toList_some, List.count_singleton_self] at hle
  refine ⟨by omega, ?_, ?_⟩
  · intro hmem
    have := List.count_pos_iff.mpr hmem
    omega
  · intro hctrl
    rw [hctrl, Option.toList_some, List.count_singleton_self] at hle
    omega

theorem Quiet.malloc (hone : OnePlace s) {obj : HostDma}
    (h : s.sys_malloc_req_obj = some (y, s')) : Quiet s (s'.writeObj y obj) := by
  obtain ⟨rest, hfree, rfl⟩ := malloc_cases h
  have hy : s.applet.request ≠ some y := by
    intro hreq
    have hzero := (OnePlace.request_alone hone hreq).1
    simp [pooled, hfree] at hzero
  have hfree : Quiet s { s with free_req_objs := rest } := .outside rfl
  exact hfree.trans (Quiet.trans (Quiet.write hy) (Quiet.write hy))

theorem Quiet.free (h : s.applet.request ≠ some y) : Quiet s (s.sys_free_req_obj y) := by
  have hfree : Quiet s { s with free_req_objs := s.free_req_objs ++ [y] } := .outside rfl
  exact hfree.trans (Quiet.write h)

theorem Quiet.freeControl (h : ∀ ctrl, s.ctrl_cmd_req = some ctrl → s.applet.request ≠ some ctrl) :
    Quiet s s.freeControl := by
  unfold IspState.freeControl
  split
  · exact Quiet.outside rfl
  · rename_i ctrl hctrl
    have hctrl' : Quiet s { s with ctrl_cmd_req := none } := .outside rfl
    exact hctrl'.trans (Quiet.free (h ctrl hctrl))

theorem Quiet.pool (hone : OnePlace s) (h : PoolMove s s') : Quiet s s' := by
  have hrest := h.rest
  refine ⟨?_, ?_, ?_, ?_, ?_, ?_, ?_⟩
  iterate 6 rw [hrest]
  intro x hx
  rw [h.objs x (OnePlace.request_alone hone hx).1]
  exact SameRequest.refl _

/-! ## The moves of a request -/

/-- What one step does with announcements and with the request of the applet. `ring` is
an announcement out of `pending_dma`, `message` one from a message. -/
inductive RequestMove (s : IspState) : IspAction → IspState → Prop
  | quiet {a : IspAction} {s' : IspState} : Quiet s s' → RequestMove s a s'
  | ring {a : IspAction} {s' : IspState} {x : Nat} {rest : List Nat} : s.pending_dma = x :: rest →
      Quiet { s with pending_dma := rest, announced := s.announced ++ [s.announcement x] } s' →
      RequestMove s a s'
  | message {s' : IspState} {x req : Nat} {rest : List MsgOut} : s.nvme = .free →
      s.msg_out_q = .host_dma x :: rest → s.ctrl_cmd_req = some req →
      RequestMove s (.nvme .msg_out) s'
  | complete {x : Nat} : s.nvme = .transfer_complete x →
      RequestMove s .nvme_continue (s.transfer_complete x)
  | applet {s' : IspState} : s.appletStep = some s' → RequestMove s .applet s'
  | function {a : IspAction} {s' : IspState} : s.applet.request = none → s'.applet.request = none →
      Quiet s { s' with applet := s.applet } → RequestMove s a s'

theorem isp_io_quiet {opcode req : Nat} {cmd : IspCommand}
    (hctrl : ∀ ctrl, s.ctrl_cmd_req = some ctrl → s.applet.request ≠ some ctrl)
    (h : s.isp_io c opcode req cmd = some s') : Quiet s s' := by
  unfold isp_io at h
  split at h
  · cases h
    have hfirst : Quiet s { s with
        ftn_id := cmd.scmd.ftn_id.toNat, arg_size := cmd.scmd.agument_size.toNat,
        function_exited := false, nvme := .execute_objects req cmd } := .outside rfl
    exact hfirst.trans (Quiet.freeControl hctrl)
  · cases h
    unfold control_command
    split <;> exact Quiet.outside rfl
  · obtain ⟨y, -, hws⟩ := Option.bind_eq_some_iff.mp h
    obtain ⟨ws, -, rfl⟩ := Option.map_eq_some_iff.mp hws
    have hlog : Quiet s { s with
        nvme := .transfer_wait req y cmd.ccmd_dw0
          (s.dataTransfer y cmd.scmd.scmdarg.cdw11.toNat ws) } := .outside rfl
    exact hlog.trans (Quiet.stage (by decide))
  · cases h
    exact Quiet.outside rfl

theorem Quiet.then_outside (h : Quiet s s') (h' : t.requestView = s'.requestView) : Quiet s t :=
  h.trans (.outside h')

theorem take_request {task : NvmeTask} (hone : OnePlace s) (hn : s.nvme = .free)
    (h : s.take c task = some s') : RequestMove s (.nvme task) s' := by
  cases task with
  | isp_io opcode cmd obj =>
    obtain ⟨⟨req, s1⟩, hmalloc, hrest⟩ := Option.bind_eq_some_iff.mp h
    have hquiet : Quiet s (s1.writeObj req obj) := .malloc hone hmalloc
    obtain ⟨rest, -, rfl⟩ := malloc_cases hmalloc
    apply RequestMove.quiet
    apply hquiet.trans
    apply isp_io_quiet _ hrest
    intro ctrl hctrl hreq
    exact (OnePlace.request_alone hone hreq).2.2 hctrl
  | msg_out =>
    simp only [take] at h
    split at h
    · cases h
      exact .quiet (.refl s)
    · rename_i m rest hq
      cases m with
      | host_dma x =>
        simp only [msg_cbk] at h
        split at h
        · split at h
          · cases h
            exact .quiet (.outside rfl)
          · rename_i req hctrl
            exact .message hn hq hctrl
        · cases h
      | nand_op x =>
        cases h
        exact .quiet (.outside rfl)
      | execution_exit =>
        simp only [msg_cbk] at h
        split at h <;> cases h <;> exact .quiet (.outside rfl)
  | recycle =>
    simp only [take] at h
    split at h
    · cases h
      exact .quiet (.refl s)
    · cases h
      unfold recycle_control_command
      split
      · exact .quiet (.outside rfl)
      · split
        · rename_i x rest hpending
          exact .ring hpending (.outside rfl)
        · exact .quiet (.outside rfl)
  | fw_download num_dwords dword_off cmd =>
    obtain ⟨ws, -, hws⟩ := Option.bind_eq_some_iff.mp h
    split at hws
    · cases hws
      exact .quiet (.outside rfl)
    · cases hws
  | fw_activate =>
    cases h
    unfold add_applet
    simp only
    split <;> exact .quiet (.outside rfl)
  | other_malloc obj =>
    obtain ⟨⟨x, s1⟩, hmalloc, rfl⟩ := Option.map_eq_some_iff.mp h
    have hquiet : Quiet s (s1.writeObj x obj) := .malloc hone hmalloc
    exact .quiet (hquiet.then_outside rfl)
  | other_write x obj =>
    simp only [take] at h
    split at h <;> cases h
    · rename_i hx
      exact .quiet (.write fun hreq => (OnePlace.request_alone hone hreq).2.1 hx)
    · exact .quiet (.refl _)
  | other_free x =>
    simp only [take] at h
    split at h <;> cases h
    · rename_i hx
      have hquiet : Quiet s { s with others := s.others.erase x } := .outside rfl
      exact .quiet (hquiet.trans (.free fun hreq => (OnePlace.request_alone hone hreq).2.1 hx))
    · exact .quiet (.refl _)

theorem nvmeContinue_request (hone : OnePlace s) (h : s.nvmeContinue c = some s') :
    RequestMove s .nvme_continue s' := by
  unfold nvmeContinue at h
  split at h
  · cases h
    exact .quiet (.refl s)
  · obtain ⟨t, hmove, rfl⟩ := execute_objects_move h
    exact .quiet ((Quiet.pool hone hmove).then_outside rfl)
  · unfold execute_arguments at h
    split at h
    · obtain ⟨ws, -, rfl⟩ := Option.map_eq_some_iff.mp h
      exact .quiet (.outside rfl)
    · cases h
      exact .quiet (.outside rfl)
  · unfold execute_transfer at h
    split at h <;> cases h
    exact .quiet (.outside rfl)
  · cases h
    exact .quiet (.outside rfl)
  · cases h
    exact .quiet (.outside rfl)
  · cases h
    unfold control_pending
    split
    · rename_i x rest hpending
      exact .ring hpending (.outside rfl)
    · exact .quiet (.outside rfl)
  · obtain ⟨req, -, rfl⟩ := Option.map_eq_some_iff.mp h
    exact .quiet (.outside rfl)
  · rename_i req x dw0 transfer hn
    cases h
    have hquiet : Quiet s (s.writeObj x { s.objs x with
        transfered_size := ((s.objs x).transfered_size + transfer.size) % 2 ^ 32 }) :=
      .update ⟨rfl, id⟩
    exact .quiet (hquiet.then_outside rfl)
  · rename_i x hn
    cases h
    exact .complete hn

/-- What a step can do with announcements and with the request of the applet. -/
theorem ispStep_request (hone : OnePlace s) (h : ispStep c s a = some s') : RequestMove s a s' := by
  cases a with
  | nvme task =>
    simp only [ispStep] at h
    split at h
    · rename_i hn
      exact take_request hone hn h
    · cases h
      exact .quiet (.refl s)
  | nvme_continue => exact nvmeContinue_request hone h
  | applet => exact .applet h
  | call low =>
    simp only [ispStep] at h
    split at h <;> cases h
    · rename_i hpc
      exact .function (by rw [hpc]; rfl) rfl (.outside rfl)
    · exact .quiet (.refl _)
  | host_dma start_mem_page ssd_addr size write =>
    simp only [ispStep] at h
    split at h <;> cases h
    · rename_i hpc
      exact .function (by rw [hpc]; rfl) rfl (.outside rfl)
    · exact .quiet (.refl _)
  | nand_op op =>
    simp only [ispStep] at h
    split at h
    · rename_i hpc
      obtain ⟨x, -, rfl⟩ := Option.map_eq_some_iff.mp h
      have hnone : s.applet.request = none := by rw [hpc]; rfl
      have hquiet : Quiet s (s.writeObj x { op with req_stage := .other }) :=
        .write (by simp [hnone])
      exact .function hnone rfl (hquiet.then_outside rfl)
    · cases h
      exact .quiet (.refl _)
  | return_function =>
    simp only [ispStep] at h
    split at h <;> cases h
    · rename_i hpc
      exact .function (by rw [hpc]; rfl) rfl (.outside rfl)
    · exact .quiet (.refl _)
  | ftl =>
    simp only [ispStep] at h
    split at h <;> cases h
    · exact .quiet (.refl _)
    · rename_i x rest hq
      have hquiet : Quiet s { s with ftl_in_q := rest } := .outside rfl
      exact .quiet (hquiet.trans (.stage (by decide)))

/-! ## The invariant -/

/-- `x` holds the newest request, which the host has not heard of. -/
def Untold (s : IspState) (x : Nat) : Prop :=
  ∃ n r, s.requestOf x = some n ∧ s.requests.length = n + 1 ∧ s.timesAnnounced n = 0 ∧
    s.requests[n]? = some r ∧ (s.objs x).request_code = r.request_code ∧
    (s.objs x).req_stage ≠ .ISP_HOST_DMA_REQ_CMPT

/-- `x` holds the newest request, which was announced once. -/
def Told (s : IspState) (x : Nat) : Prop :=
  ∃ n, s.requestOf x = some n ∧ s.requests.length = n + 1 ∧ s.timesAnnounced n = 1

/-- `pending_dma` holds just the request that the host has yet to hear of. -/
def CurrentRequest (s : IspState) : Prop :=
  match s.applet with
  | .filled x _ => s.pending_dma = [] ∧ s.Untold x
  | .queued x _ | .waiting x _ =>
    (s.pending_dma = [x] ∧ s.Untold x) ∨ (s.pending_dma = [] ∧ s.Told x)
  | .completed x _ => s.pending_dma = [] ∧ s.Told x
  | _ => s.pending_dma = []

/-- The number of requests before the one that the applet waits for. -/
def settled (s : IspState) : Nat :=
  match s.applet.request with
  | none => s.requests.length
  | some _ => s.requests.length - 1

structure Announcing (s : IspState) : Prop where
  good : ∀ a ∈ s.announced, s.GoodAnnouncement a
  settled : ∀ n, n < s.settled → s.timesAnnounced n = 1
  returned : ∀ n ∈ s.returned, n < s.settled
  current : s.CurrentRequest

theorem Announcing.beyond (h : s.Announcing) {n : Nat} (hn : s.requests.length ≤ n) :
    s.timesAnnounced n = 0 := by
  unfold timesAnnounced
  rw [List.count_eq_zero]
  intro hmem
  obtain ⟨a, ha, hrequest⟩ := List.mem_map.mp hmem
  obtain ⟨m, r, hm, hr, -⟩ := h.good a ha
  rw [hrequest] at hm
  cases hm
  have := (List.getElem?_eq_some_iff.mp hr).1
  omega

theorem Announcing.announcedOnce (h : s.Announcing) : s.AnnouncedOnce := by
  refine ⟨?_, fun n hn => h.settled n (h.returned n hn), h.good⟩
  intro n
  by_cases hlt : n < s.settled
  · exact (h.settled n hlt).le
  · by_cases hle : s.requests.length ≤ n
    · rw [h.beyond hle]
      omega
    · -- The newest request, which the applet waits for.
      have hcurrent := h.current
      unfold CurrentRequest at hcurrent
      unfold IspState.settled at hlt
      have huntold : ∀ x, s.Untold x → n + 1 = s.requests.length → s.timesAnnounced n ≤ 1 := by
        rintro x ⟨m, r, -, hlen, hzero, -⟩ hn
        obtain rfl : n = m := by omega
        omega
      have htold : ∀ x, s.Told x → n + 1 = s.requests.length → s.timesAnnounced n ≤ 1 := by
        rintro x ⟨m, -, hlen, hone⟩ hn
        obtain rfl : n = m := by omega
        omega
      split at hcurrent <;> rename_i hpc <;> simp only [hpc, AppletPc.request] at hlt
      · exact huntold _ hcurrent.2 (by omega)
      · rcases hcurrent with hcurrent | hcurrent
        · exact huntold _ hcurrent.2 (by omega)
        · exact htold _ hcurrent.2 (by omega)
      · rcases hcurrent with hcurrent | hcurrent
        · exact huntold _ hcurrent.2 (by omega)
        · exact htold _ hcurrent.2 (by omega)
      · exact htold _ hcurrent.2 (by omega)
      · omega

/-! ## Each move keeps it -/

theorem Quiet.times (h : Quiet s s') (n : Nat) : s'.timesAnnounced n = s.timesAnnounced n := by
  unfold timesAnnounced
  rw [h.announced]

theorem Quiet.settled (h : Quiet s s') : s'.settled = s.settled := by
  unfold IspState.settled
  rw [h.applet, h.requests]

theorem Untold.quiet (h : s.Untold x) (hq : Quiet s s') (hreq : s.applet.request = some x) :
    s'.Untold x := by
  obtain ⟨n, r, hof, hlen, hzero, hr, hcode, hstage⟩ := h
  obtain ⟨hcode', hstage'⟩ := hq.objs x hreq
  refine ⟨n, r, ?_, ?_, ?_, ?_, hcode'.trans hcode, fun he => hstage (hstage' he)⟩
  · rw [hq.requestOf, hof]
  · rw [hq.requests, hlen]
  · rw [hq.times, hzero]
  · rw [hq.requests, hr]

theorem Told.quiet (h : s.Told x) (hq : Quiet s s') : s'.Told x := by
  obtain ⟨n, hof, hlen, hone⟩ := h
  refine ⟨n, ?_, ?_, ?_⟩
  · rw [hq.requestOf, hof]
  · rw [hq.requests, hlen]
  · rw [hq.times, hone]

theorem Announcing.quiet (h : s.Announcing) (hq : Quiet s s') : s'.Announcing := by
  refine ⟨?_, ?_, ?_, ?_⟩
  · intro a ha
    rw [hq.announced] at ha
    unfold GoodAnnouncement
    rw [hq.requests]
    exact h.good a ha
  · intro n hn
    rw [hq.settled] at hn
    rw [hq.times]
    exact h.settled n hn
  · intro n hn
    rw [hq.returned] at hn
    rw [hq.settled]
    exact h.returned n hn
  · have hcurrent := h.current
    unfold CurrentRequest at hcurrent ⊢
    rw [hq.applet, hq.pending_dma]
    split at hcurrent <;> rename_i hpc
    · exact ⟨hcurrent.1, hcurrent.2.quiet hq (by rw [hpc]; rfl)⟩
    · refine hcurrent.imp (fun hu => ⟨hu.1, hu.2.quiet hq ?_⟩) fun ht => ⟨ht.1, ht.2.quiet hq⟩
      rw [hpc]
      rfl
    · refine hcurrent.imp (fun hu => ⟨hu.1, hu.2.quiet hq ?_⟩) fun ht => ⟨ht.1, ht.2.quiet hq⟩
      rw [hpc]
      rfl
    · exact ⟨hcurrent.1, hcurrent.2.quiet hq⟩
    · exact hcurrent

/-- The state after an announcement out of the ring. -/
theorem Announcing.ring {rest : List Nat} (h : s.Announcing)
    (hpending : s.pending_dma = x :: rest) :
    Announcing { s with
      pending_dma := rest, announced := s.announced ++ [s.announcement x] } := by
  have hcurrent := h.current
  unfold CurrentRequest at hcurrent
  rw [hpending] at hcurrent
  -- Only a request that waits for the host is in the ring.
  have hwait : rest = [] ∧ s.Untold x ∧
      ((∃ chunks, s.applet = .queued x chunks) ∨ ∃ chunks, s.applet = .waiting x chunks) := by
    split at hcurrent <;> rename_i hpc
    · cases hcurrent.1
    · rcases hcurrent with ⟨hq, hu⟩ | ⟨hq, -⟩
      · cases hq
        exact ⟨rfl, hu, Or.inl ⟨_, hpc⟩⟩
      · cases hq
    · rcases hcurrent with ⟨hq, hu⟩ | ⟨hq, -⟩
      · cases hq
        exact ⟨rfl, hu, Or.inr ⟨_, hpc⟩⟩
      · cases hq
    · cases hcurrent.1
    · cases hcurrent
  obtain ⟨rfl, ⟨n, r, hof, hlen, hzero, hr, hcode, hstage⟩, hpc⟩ := hwait
  have hreq : s.applet.request = some x := by
    rcases hpc with ⟨chunks, hpc⟩ | ⟨chunks, hpc⟩ <;> rw [hpc] <;> rfl
  have htimes : ∀ m, timesAnnounced { s with
      pending_dma := [], announced := s.announced ++ [s.announcement x] } m =
        s.timesAnnounced m + if m = n then 1 else 0 := by
    intro m
    simp only [timesAnnounced, List.map_append, List.map_singleton, List.count_append,
      List.count_singleton, announcement, hof]
    by_cases hmn : m = n
    · simp [hmn]
    · simp [hmn, Ne.symm hmn]
  have hsettled : s.settled = n := by
    unfold IspState.settled
    rw [hreq, hlen]
    rfl
  refine ⟨?_, ?_, h.returned, ?_⟩
  · intro a ha
    rcases List.mem_append.mp ha with ha | ha
    · exact h.good a ha
    · rw [List.mem_singleton] at ha
      subst ha
      exact ⟨n, r, hof, hr, hcode, hstage, by simp [announcement, hreq]⟩
  · intro m hm
    have hm : m < s.settled := hm
    rw [htimes, h.settled m hm, if_neg (by omega)]
  · have htold : Told { s with
        pending_dma := [], announced := s.announced ++ [s.announcement x] } x := by
      refine ⟨n, hof, hlen, ?_⟩
      rw [htimes, hzero, if_pos rfl]
    unfold CurrentRequest
    rcases hpc with ⟨chunks, hpc⟩ | ⟨chunks, hpc⟩ <;> simp only [hpc] <;>
      exact Or.inr ⟨trivial, htold⟩

/-- The host has not heard of the request that `x` holds. -/
def Unannounced (s : IspState) (x : Nat) : Prop :=
  s.applet.request = some x ∧ ∀ a ∈ s.announced, a.request ≠ s.requestOf x

theorem Untold.unannounced (h : s.Untold x) (hreq : s.applet.request = some x) :
    s.Unannounced x := by
  obtain ⟨n, r, hof, -, hzero, -⟩ := h
  refine ⟨hreq, ?_⟩
  intro a ha he
  unfold timesAnnounced at hzero
  rw [List.count_eq_zero] at hzero
  apply hzero
  rw [← hof, ← he]
  exact List.mem_map_of_mem ha

theorem Announcing.complete (h : s.Announcing) (hok : ¬ s.Unannounced x) :
    (s.transfer_complete x).Announcing := by
  have hcurrent := h.current
  have hkeep : ∀ y, s.applet.request = some y → s.Untold y → (s.transfer_complete x).Untold y := by
    intro y hreq hu
    have hne : y ≠ x := by
      rintro rfl
      exact hok (hu.unannounced hreq)
    obtain ⟨n, r, hof, hlen, hzero, hr, hcode, hstage⟩ := hu
    have hobj : (s.transfer_complete x).objs y = s.objs y := setStage_objs_of_ne hne
    refine ⟨n, r, hof, hlen, hzero, hr, ?_, ?_⟩
    · rw [hobj, hcode]
    · rw [hobj]
      exact hstage
  refine ⟨h.good, h.settled, h.returned, ?_⟩
  unfold CurrentRequest at hcurrent ⊢
  rw [show (s.transfer_complete x).applet = s.applet from rfl]
  split at hcurrent <;> rename_i hpc
  · exact ⟨hcurrent.1, hkeep _ (by rw [hpc]; rfl) hcurrent.2⟩
  · exact hcurrent.imp (fun hu => ⟨hu.1, hkeep _ (by rw [hpc]; rfl) hu.2⟩) id
  · exact hcurrent.imp (fun hu => ⟨hu.1, hkeep _ (by rw [hpc]; rfl) hu.2⟩) id
  · exact hcurrent
  · exact hcurrent

/-- Outside `_do_sync_host_dma_` there is no request to keep. -/
theorem Announcing.function (h : s.Announcing) (hnone : s.applet.request = none)
    (hnone' : s'.applet.request = none) (hq : Quiet s { s' with applet := s.applet }) :
    s'.Announcing := by
  have hmid := h.quiet hq
  have hlen : s'.settled = IspState.settled { s' with applet := s.applet } := by
    simp only [IspState.settled, hnone, hnone']
  have hpending : s'.pending_dma = [] := by
    have hcurrent := hmid.current
    unfold CurrentRequest at hcurrent
    split at hcurrent <;> rename_i hpc <;> first
      | exact hcurrent
      | (have hpc : s.applet = _ := hpc
         rw [hpc] at hnone
         cases hnone)
  refine ⟨hmid.good, ?_, ?_, ?_⟩
  · intro n hn
    rw [hlen] at hn
    exact hmid.settled n hn
  · intro n hn
    rw [hlen]
    exact hmid.returned n hn
  · unfold CurrentRequest
    split <;> rename_i hpc <;> first
      | exact hpending
      | (rw [hpc] at hnone'
         cases hnone')

theorem Announcing.fill {chunk : DmaChunk} {chunks : List DmaChunk} (h : s.Announcing)
    (hpc : s.applet = .dequeued x chunk chunks) : (s.fill_dma_req x chunk chunks).Announcing := by
  have hpending : s.pending_dma = [] := by
    have hcurrent := h.current
    unfold CurrentRequest at hcurrent
    rwa [hpc] at hcurrent
  have hsettled : s.settled = s.requests.length := by
    unfold IspState.settled
    rw [hpc]
    rfl
  have hsettled' : (s.fill_dma_req x chunk chunks).settled = s.requests.length := by
    simp [IspState.settled, fill_dma_req, AppletPc.request]
  refine ⟨?_, ?_, ?_, ?_⟩
  · intro a ha
    obtain ⟨n, r, hn, hr, hrest⟩ := h.good a ha
    refine ⟨n, r, hn, ?_, hrest⟩
    simp only [fill_dma_req]
    rw [List.getElem?_append_left (List.getElem?_eq_some_iff.mp hr).1, hr]
  · intro n hn
    rw [hsettled'] at hn
    exact h.settled n (hsettled ▸ hn)
  · intro n hn
    rw [hsettled', ← hsettled]
    exact h.returned n hn
  · have hlen : (s.fill_dma_req x chunk chunks).requests.length = s.requests.length + 1 := by
      simp only [fill_dma_req, List.length_append, List.length_singleton]
    have hlast : (s.fill_dma_req x chunk chunks).requests[s.requests.length]? =
        some (newRequest chunk) := by
      simp only [fill_dma_req]
      rw [List.getElem?_append_right le_rfl, Nat.sub_self]
      rfl
    have hobj : (s.fill_dma_req x chunk chunks).objs x = newRequest chunk := writeObj_self
    refine ⟨hpending, s.requests.length, newRequest chunk, ?_, hlen, h.beyond le_rfl, hlast, ?_, ?_⟩
    · simp only [fill_dma_req, Function.update_self]
    · rw [hobj]
    · simp [hobj, newRequest]

/-- The applet gets its object back when the host has heard of the request. -/
theorem Announcing.return {chunks : List DmaChunk} (h : s.Announcing)
    (hpc : s.applet = .completed x chunks) : (s.return_dma_req x chunks).Announcing := by
  have hcurrent := h.current
  unfold CurrentRequest at hcurrent
  rw [hpc] at hcurrent
  obtain ⟨hpending, n, hof, hlen, hone⟩ := hcurrent
  have hsettled : s.settled = n := by
    unfold IspState.settled
    rw [hpc, hlen]
    rfl
  have hsettled' : (s.return_dma_req x chunks).settled = n + 1 := hlen
  refine ⟨h.good, ?_, ?_, hpending⟩
  · intro m hm
    by_cases hmn : m = n
    · rw [hmn]
      exact hone
    · exact h.settled m (by omega)
  · intro m hm
    rw [hsettled']
    rcases List.mem_append.mp hm with hm | hm
    · have := h.returned m hm
      omega
    · rw [hof, Option.toList_some, List.mem_singleton] at hm
      omega

theorem Announcing.applet (h : s.Announcing) (hstep : s.appletStep = some s') :
    s'.Announcing := by
  have hcurrent := h.current
  unfold CurrentRequest at hcurrent
  unfold appletStep at hstep
  split at hstep <;> rename_i hpc <;> rw [hpc] at hcurrent
  · split at hstep <;> cases hstep
    · exact h
    · exact h.function (by rw [hpc]; rfl) rfl (.outside rfl)
  · cases hstep
    exact h
  · cases hstep
    exact h
  · unfold dequeue_dma_req at hstep
    split at hstep <;> cases hstep
    exact h.function (by rw [hpc]; rfl) rfl (.outside rfl)
  · cases hstep
    exact h.fill hpc
  · rename_i x chunks
    cases hstep
    have hsettled : (s.enqueue_dma_req x chunks).settled = s.settled := by
      simp only [IspState.settled, enqueue_dma_req, hpc, AppletPc.request]
    refine ⟨h.good, fun n hn => h.settled n (hsettled ▸ hn),
      fun n hn => hsettled ▸ h.returned n hn, Or.inl ⟨?_, hcurrent.2⟩⟩
    simp only [enqueue_dma_req, hcurrent.1]
    rfl
  · rename_i x chunks
    cases hstep
    have hsettled : (s.push_dma_req x chunks).settled = s.settled := by
      simp only [IspState.settled, push_dma_req, hpc, AppletPc.request]
    exact ⟨h.good, fun n hn => h.settled n (hsettled ▸ hn),
      fun n hn => hsettled ▸ h.returned n hn, hcurrent⟩
  · rename_i x chunks
    cases hstep
    unfold wait_dma_req
    split
    · rename_i hcmpt
      have hsettled : IspState.settled { s with applet := .completed x chunks } = s.settled := by
        simp only [IspState.settled, hpc, AppletPc.request]
      refine ⟨h.good, fun n hn => h.settled n (hsettled ▸ hn),
        fun n hn => hsettled ▸ h.returned n hn, ?_⟩
      rcases hcurrent with ⟨-, n, r, -, -, -, -, -, hstage⟩ | htold
      · exact absurd hcmpt hstage
      · exact htold
    · exact h
  · cases hstep
    exact h.return hpc
  · obtain ⟨x, -, rfl⟩ := Option.map_eq_some_iff.mp hstep
    exact h.function (by rw [hpc]; rfl) rfl (.outside rfl)
  · obtain ⟨x, -, rfl⟩ := Option.map_eq_some_iff.mp hstep
    split
    · exact h.function (by rw [hpc]; rfl) rfl (.outside rfl)
    · exact h
  · cases hstep
    exact h.function (by rw [hpc]; rfl) rfl (.outside rfl)

/-! ## The law -/

/-- A message of a request finds no control command, and a request that the host has not
heard of is not completed. -/
def AnnounceOk (s : IspState) : IspAction → Prop
  | .nvme .msg_out =>
    match s.nvme, s.msg_out_q with
    | .free, .host_dma _ :: _ => s.ctrl_cmd_req = none
    | _, _ => True
  | .nvme_continue =>
    match s.nvme with
    | .transfer_complete x => ¬ s.Unannounced x
    | _ => True
  | _ => True

theorem Announcing.step (h : s.Announcing) (hone : OnePlace s) (hok : AnnounceOk s a)
    (hstep : ispStep c s a = some s') : s'.Announcing := by
  rcases ispStep_request hone hstep with hq | ⟨hpending, hq⟩ | ⟨hn, hmsg, hctrl⟩ | hn | ha |
    ⟨hnone, hnone', hq⟩
  · exact h.quiet hq
  · exact (h.ring hpending).quiet hq
  · simp only [AnnounceOk, hn, hmsg] at hok
    rw [hok] at hctrl
    cases hctrl
  · simp only [AnnounceOk, hn] at hok
    exact h.complete hok
  · exact h.applet ha
  · exact h.function hnone hnone' hq

instance (s : IspState) (x : Nat) : Decidable (s.Unannounced x) :=
  inferInstanceAs (Decidable (_ ∧ _))

instance (s : IspState) (a : IspAction) : Decidable (AnnounceOk s a) := by
  unfold AnnounceOk
  split
  · split <;> infer_instance
  · split <;> infer_instance
  · infer_instance

end IspState

open IspState

/-- Each request is announced once, in every run in which no message of a request finds a
control command and no request is completed before it is announced. -/
theorem requests_are_announced_once_while_messages_find_no_control_command {c : Config}
    {objs : Nat → HostDma} {arg_buffer code : Nat → UInt8} {acts : List IspAction} {s : IspState}
    (hok : AllSteps (ispStep c) AnnounceOk (initialIsp objs arg_buffer code) acts)
    (hrun : run (ispStep c) (initialIsp objs arg_buffer code) acts = some s) :
    s.AnnouncedOnce := by
  have hinv := run_invariant_of_ok (I := fun _ s => OnePlace s ∧ s.Announcing)
    ⟨onePlace_initial objs arg_buffer code, ?_⟩ ?_ hok hrun
  · exact hinv.2.announcedOnce
  · exact ⟨nofun, nofun, nofun, rfl⟩
  · intro acts t a u _ ht ha hstep
    exact ⟨ht.1.step hstep, ht.2.step ht.1 ha hstep⟩

/-- The message comes first, then the control command takes the request from the ring. -/
theorem a_request_is_announced_once_when_its_message_comes_first :
    ∃ s, run (ispStep smallDevice) zeroIsp (runExecute 1 0 ⟨0, 0, 0, 0, 0, 0⟩ ++ startFunction ++
        askHost 4096 16 ++ [.nvme .msg_out] ++ runControl ++ runTransfer 16 ++
        [.applet, .applet]) = some s ∧
      s.returned = [0] ∧ s.AnnouncedOnce := by
  have hrun : (run (ispStep smallDevice) zeroIsp (runExecute 1 0 ⟨0, 0, 0, 0, 0, 0⟩ ++
      startFunction ++ askHost 4096 16 ++ [.nvme .msg_out] ++ runControl ++ runTransfer 16 ++
      [.applet, .applet])).map IspState.returned = some [0] := by
    decide +kernel
  obtain ⟨s, hs, hreturned⟩ := Option.map_eq_some_iff.mp hrun
  exact ⟨s, hs, hreturned, requests_are_announced_once_while_messages_find_no_control_command
    (by decide +kernel) hs⟩

/-- The message finds a control command, and the request stays in the ring: after its
transfer the next control command announces it again. -/
theorem a_message_that_finds_a_control_command_announces_twice :
    ∃ s, run (ispStep smallDevice) zeroIsp (runExecute 1 0 ⟨0, 0, 0, 0, 0, 0⟩ ++ startFunction ++
        runControl ++ askHost 4096 16 ++ [.nvme .msg_out] ++ runTransfer 16 ++ runControl) =
          some s ∧
      ¬ s.AnnouncedOnce := by
  have hrun : (run (ispStep smallDevice) zeroIsp (runExecute 1 0 ⟨0, 0, 0, 0, 0, 0⟩ ++
      startFunction ++ runControl ++ askHost 4096 16 ++ [.nvme .msg_out] ++ runTransfer 16 ++
      runControl)).map (fun s => s.timesAnnounced 0) = some 2 := by
    decide +kernel
  obtain ⟨s, hs, htwice⟩ := Option.map_eq_some_iff.mp hrun
  refine ⟨s, hs, ?_⟩
  intro honce
  have := honce.once 0
  omega

end S4Sim
