-- The law of ISP control commands: while the rings of pending completions have room,
-- each of them is completed at most once, and before the next I/O entry is fetched. A
-- control command that no message answers is stored with a callback that recycles it, and
-- that callback is queued before the next `check_door_bell`.
import S4Sim.Firmware.OneCompletion

open Runs

namespace S4Sim

/-- An entry with the opcode of an ISP control command. -/
def Fetch.isControl (f : Fetch) : Bool := f.sqid != 0 && f.scmd.opcode.toNat == 0x81

variable (c : Config)

/-- The ring of each completion that the step enqueues has room. -/
def CompletionHasRoom (s : State) : Action → Prop
  | .nvme env => ∀ q ∈ completesTo c env s, (s.driver.cqs q).pendingFull = false
  | _ => True

instance (s : State) : (a : Action) → Decidable (CompletionHasRoom c s a)
  | .nvme env => inferInstanceAs
      (Decidable (∀ q ∈ completesTo c env s, (s.driver.cqs q).pendingFull = false))
  | .dma _ | .ftl .. | .isp_exit | .isp_host_dma _ | .isp_nand_op .. | .isp_function_exited
  | .isp_pending_dma _ | .isp_msg_out _ =>
    inferInstanceAs (Decidable True)

/-! ## The invariant -/

/-- How often the command with the number is completed. -/
def completions (uid : Nat) (enqueued : List (Nat × Req)) : Nat :=
  enqueued.countP fun e => e.2.uid == uid

/-- Whether the stored control command has the number. -/
def storedAs (uid : Nat) (ctrl : Option Req) : Nat :=
  (ctrl.any fun req => req.uid == uid).toNat

/-- Each control command is completed or stored, once. The requests that wait for a
transfer are of other commands. -/
structure Books.Controls (b : Books) (st : Stage) : Prop where
  uids : b.fetched.map Fetch.uid = List.range b.fetched.length
  one : ∀ f ∈ b.fetched, f.isControl = true →
    completions f.uid b.enqueued + storedAs f.uid b.ctrl_cmd_req = 1
  old : ∀ e ∈ b.enqueued, e.2.uid < b.fetched.length
  stored : ∀ req ∈ b.ctrl_cmd_req, req.uid < b.fetched.length
  held : ∀ req ∈ st.held, ∃ f ∈ b.fetched, f.uid = req.uid ∧ f.isControl = false

section Steps

variable {c : Config} {s s' : State} {st st' : Stage} {env : Env} {req : Req} {f : Fetch}
  {b b' : Books}

theorem completions_append (uid : Nat) (l : List (Nat × Req)) (e : Nat × Req) :
    completions uid (l ++ [e]) = completions uid l + (e.2.uid == uid).toNat := by
  unfold completions
  rw [List.countP_append, List.countP_singleton]
  cases e.2.uid == uid <;> rfl

/-- No request with a number from `n` on is enqueued. -/
theorem completions_eq_zero {uid n : Nat} {l : List (Nat × Req)} (h : ∀ e ∈ l, e.2.uid < n)
    (huid : n ≤ uid) : completions uid l = 0 := by
  unfold completions
  rw [List.countP_eq_zero]
  intro e he heq
  have := h e he
  rw [beq_iff_eq] at heq
  omega

theorem storedAs_eq_zero {uid n : Nat} {ctrl : Option Req} (h : ∀ req ∈ ctrl, req.uid < n)
    (huid : n ≤ uid) : storedAs uid ctrl = 0 := by
  unfold storedAs
  cases ctrl with
  | none => rfl
  | some req =>
    have := h req rfl
    have hne : (req.uid == uid) = false := beq_false_of_ne (by omega)
    simp [hne]

theorem uid_lt (h : b.Controls st) (hf : f ∈ b.fetched) : f.uid < b.fetched.length := by
  have hmem : f.uid ∈ b.fetched.map Fetch.uid := List.mem_map_of_mem hf
  rw [h.uids] at hmem
  exact List.mem_range.mp hmem

/-- Two fetched commands with one number are one. -/
theorem eq_of_uid (h : b.Controls st) {f' : Fetch} (hf : f ∈ b.fetched) (hf' : f' ∈ b.fetched)
    (he : f.uid = f'.uid) : f = f' := by
  have hnodup : (b.fetched.map Fetch.uid).Nodup := by
    rw [h.uids]
    exact List.nodup_range
  exact List.inj_on_of_nodup_map hnodup hf hf' he

theorem Books.Controls.congr (h : b.Controls st) (hf : b'.fetched = b.fetched)
    (he : b'.enqueued = b.enqueued) (hc : b'.ctrl_cmd_req = b.ctrl_cmd_req)
    (hst : ∀ req ∈ st'.held, req ∈ st.held) : b'.Controls st' := by
  obtain ⟨huids, hone, hold, hstored, hheld⟩ := h
  refine ⟨by rwa [hf], by rwa [hf, he, hc], by rwa [hf, he], by rwa [hf, hc], ?_⟩
  intro req hreq
  rw [hf]
  exact hheld req (hst req hreq)

/-- A step that fetches an entry. What it adds to the completions and what it stores is
about the new entry, once when that is a control command. -/
theorem Books.Controls.fetch (new : List (Nat × Req)) (h : b.Controls .polling)
    (hf : b'.fetched = b.fetched ++ [f]) (huid : f.uid = b.fetched.length)
    (he : b'.enqueued = b.enqueued ++ new) (hnew : ∀ e ∈ new, e.2.uid = f.uid)
    (hc : b'.ctrl_cmd_req = b.ctrl_cmd_req ∨ ∃ req, b'.ctrl_cmd_req = some req ∧
      req.uid = f.uid ∧ b.ctrl_cmd_req = none)
    (hone : f.isControl = true →
      completions f.uid b'.enqueued + storedAs f.uid b'.ctrl_cmd_req = 1)
    (hst : ∀ req ∈ st'.held, req.uid = f.uid ∧ f.isControl = false) : b'.Controls st' := by
  have hlen : b'.fetched.length = b.fetched.length + 1 := by rw [hf]; simp
  refine ⟨?_, ?_, ?_, ?_, ?_⟩
  · rw [hf]
    exact uids_snoc h.uids huid
  · intro f' hf' hctl
    rw [hf] at hf'
    rcases List.mem_append.mp hf' with hmem | hmem
    · -- An older command: nothing about it changes.
      have hlt := uid_lt h hmem
      have hsame : completions f'.uid b'.enqueued = completions f'.uid b.enqueued := by
        unfold completions
        rw [he, List.countP_append, Nat.add_eq_left, List.countP_eq_zero]
        intro e hmem heq
        rw [beq_iff_eq, hnew e hmem] at heq
        omega
      have hstored : storedAs f'.uid b'.ctrl_cmd_req = storedAs f'.uid b.ctrl_cmd_req := by
        rcases hc with hc | ⟨req, hc, hr, hnone⟩
        · rw [hc]
        · have hne : (req.uid == f'.uid) = false := beq_false_of_ne (by omega)
          rw [hc, hnone]
          simp [storedAs, hne]
      rw [hsame, hstored]
      exact h.one f' hmem hctl
    · rw [List.mem_singleton.mp hmem] at hctl ⊢
      exact hone hctl
  · intro e hmem
    rw [he] at hmem
    rw [hlen]
    rcases List.mem_append.mp hmem with hmem | hmem
    · have := h.old e hmem
      omega
    · have := hnew e hmem
      omega
  · intro req hreq
    rw [hlen]
    rcases hc with hc | ⟨r, hc, hr, -⟩
    · rw [hc] at hreq
      have := h.stored req hreq
      omega
    · rw [hc, Option.mem_some_iff] at hreq
      subst hreq
      omega
  · intro req hreq
    obtain ⟨hr, hctl⟩ := hst req hreq
    exact ⟨f, by simp [hf], hr.symm, hctl⟩

/-- A step that completes a request in hand, which was not stored. -/
theorem Books.Controls.finish {q : Nat} (req : Req) (h : b.Controls st) (hreq : req ∈ st.held)
    (hf : b'.fetched = b.fetched) (he : b'.enqueued = b.enqueued ++ [(q, req)])
    (hc : b'.ctrl_cmd_req = b.ctrl_cmd_req) (hst : st'.held = []) : b'.Controls st' := by
  obtain ⟨g, hg, huid, hctl⟩ := h.held req hreq
  refine ⟨by rw [hf]; exact h.uids, ?_, ?_, by rw [hf, hc]; exact h.stored, by simp [hst]⟩
  · intro f hmem hfctl
    rw [hf] at hmem
    have hne : (req.uid == f.uid) = false := by
      apply beq_false_of_ne
      intro heq
      rw [eq_of_uid h hg hmem (huid.trans heq), hfctl] at hctl
      cases hctl
    rw [he, hc, completions_append, hne]
    exact h.one f hmem hfctl
  · intro e hmem
    rw [he] at hmem
    rw [hf]
    rcases List.mem_append.mp hmem with hmem | hmem
    · exact h.old e hmem
    · rw [List.mem_singleton.mp hmem, ← huid]
      exact uid_lt h hg

/-- A step that completes the stored control command. -/
theorem Books.Controls.recycle {e : Nat × Req} (h : b.Controls .polling)
    (hreq : b.ctrl_cmd_req = some req) (hf : b'.fetched = b.fetched)
    (he : b'.enqueued = b.enqueued ++ [e]) (huid : e.2.uid = req.uid)
    (hc : b'.ctrl_cmd_req = none) : b'.Controls .polling := by
  have hlt := h.stored req hreq
  refine ⟨by rw [hf]; exact h.uids, ?_, ?_, by simp [hc], by simp [Stage.held]⟩
  · intro f hmem hctl
    rw [hf] at hmem
    have hone := h.one f hmem hctl
    rw [he, hc, completions_append, huid]
    rw [hreq] at hone
    simpa [storedAs] using hone
  · intro x hmem
    rw [he] at hmem
    rw [hf]
    rcases List.mem_append.mp hmem with hmem | hmem
    · exact h.old x hmem
    · rw [List.mem_singleton.mp hmem, huid]
      exact hlt

/-- A command that is completed when it is fetched. -/
theorem Books.Controls.answer {e : Nat × Req} (h : b.Controls .polling)
    (hf : b'.fetched = b.fetched ++ [f]) (huid : f.uid = b.fetched.length)
    (he : b'.enqueued = b.enqueued ++ [e]) (hnew : e.2.uid = f.uid)
    (hc : b'.ctrl_cmd_req = b.ctrl_cmd_req) (hst : st'.held = []) : b'.Controls st' := by
  refine h.fetch [e] hf huid he (by simpa using hnew) (Or.inl hc) ?_ (by simp [hst])
  intro _
  rw [he, hc, completions_append, completions_eq_zero h.old huid.ge,
    storedAs_eq_zero h.stored huid.ge, hnew]
  simp

theorem fetchOf_control (hop : (fetchOf s.driver env).isRead = true ∨
    (fetchOf s.driver env).isWrite = true) : (fetchOf s.driver env).isControl = false := by
  unfold Fetch.isRead Fetch.isWrite at hop
  unfold Fetch.isControl
  rcases hop with hop | hop <;> simp at hop <;> simp [hop.2]

theorem unanswered_control (h : unanswered env = true) :
    (fetchOf s.driver env).isControl = false := by
  unfold unanswered at h
  by_cases hq : env.Qindex = 0
  · simp [Fetch.isControl, fetchOf, hq]
  · rw [if_neg hq] at h
    simp at h
    simp [Fetch.isControl, fetchOf, h]

/-- A move keeps the invariant while the rings have room. -/
theorem NvmeMove.controls (hmove : NvmeMove c env s st st' b)
    (hroom : CompletionHasRoom c s (.nvme env)) (h : s.books.Controls st) : b.Controls st' := by
  cases hmove with
  | quiet => exact h
  | shutdown => exact h.congr rfl rfl rfl fun _ hreq => hreq
  | isp_job => exact h.congr rfl rfl rfl fun _ hreq => hreq
  | unanswered hf hun =>
    refine h.fetch [] rfl rfl (by simp [State.books]) (by simp) (Or.inl rfl) ?_
      (by simp [Stage.held])
    intro hctl
    rw [unanswered_control hun] at hctl
    cases hctl
  | @admin req hf hq huid hcid hcq =>
    exact h.answer rfl rfl rfl huid rfl rfl
  | @answered req hf hto hask =>
    exact h.answer rfl rfl (enqueuedAfter_room (hroom _ hto)) hask.uid rfl rfl
  | @rejected req hf hto hask hrw hbad =>
    exact h.answer rfl rfl (enqueuedAfter_room (hroom _ hto)) hask.uid rfl rfl
  | @stored req hf hask hnone =>
    refine h.fetch [] rfl rfl (by simp [State.books]) (by simp)
      (Or.inr ⟨req, rfl, hask.uid, hnone⟩) ?_ (by simp [Stage.held])
    intro _
    have hzero : completions (fetchOf s.driver env).uid s.driver.enqueued = 0 :=
      completions_eq_zero h.old (Nat.le_refl _)
    have huid : req.uid = (fetchOf s.driver env).uid := hask.uid
    simp [State.books, hzero, storedAs, huid]
  | @recycled req dw0 hreq hto =>
    exact h.recycle hreq rfl (enqueuedAfter_room (hroom _ hto)) rfl rfl
  | @write req hf hask hop =>
    refine h.fetch [] rfl rfl (by simp [State.books]) (by simp) (Or.inl rfl) ?_ ?_
    · intro hctl
      rw [fetchOf_control (Or.inr hop)] at hctl
      cases hctl
    · intro r hr
      rw [List.mem_singleton.mp hr]
      exact ⟨hask.uid, fetchOf_control (Or.inr hop)⟩
  | @read req hf hask hop =>
    refine h.fetch [] rfl rfl (by simp [State.books]) (by simp) (Or.inl rfl) ?_ ?_
    · intro hctl
      rw [fetchOf_control (Or.inl hop)] at hctl
      cases hctl
    · intro r hr
      rw [List.mem_singleton.mp hr]
      exact ⟨hask.uid, fetchOf_control (Or.inl hop)⟩
  | @received req hdma hto =>
    exact h.finish req (by simp [Stage.held]) rfl (enqueuedAfter_room (hroom _ hto)) rfl rfl
  | programmed => exact h.congr rfl rfl rfl fun _ hreq => absurd hreq (by simp [Stage.held])
  | loaded => exact h.congr rfl rfl rfl fun _ hreq => hreq
  | @sent req hdma hto =>
    exact h.finish req (by simp [Stage.held]) rfl (enqueuedAfter_room (hroom _ hto)) rfl rfl
  | resumed => exact h.congr rfl rfl rfl fun _ hreq => hreq

/-- The firmware is at a stage whose books have each control command once. -/
def ControlsOnce (s : State) : Prop := ∃ st, At s st ∧ s.books.Controls st

theorem controlsOnce_step {a : Action} (h : ControlsOnce s) (hroom : CompletionHasRoom c s a)
    (hstep : fwStep c s a = some s') : ControlsOnce s' := by
  obtain ⟨st, hat, hctl⟩ := h
  rcases fwStep_at hat hstep with ⟨env, st', rfl, hat', hmove⟩ | ⟨hat', hsame⟩
  · exact ⟨st', hat', hmove.controls hroom hctl⟩
  · exact ⟨st, hat', hctl.congr hsame.fetched hsame.enqueued hsame.ctrl fun _ hreq => hreq⟩

/-- At a poll, no control command is stored. -/
theorem At.ctrl_of_poll (h : At s st) (hpoll : aboutToPoll s = true) :
    s.isp.ctrl_cmd_req = none := by
  have hnil := h.inFlight_nil hpoll
  rw [h.inFlight_eq, List.append_eq_nil_iff] at hnil
  exact Option.toList_eq_nil_iff.mp hnil.2

end Steps

/-! ## The law -/

theorem completionsOf_length (s : State) (f : Fetch) :
    (completionsOf s f).length = completions f.uid s.driver.enqueued := by
  unfold completionsOf completions
  rw [List.countP_eq_length_filter]

/-- A control command has at most one completion, and exactly one at each poll, where the
next entry is fetched. There no control command is stored, so `control_command` overwrites
none and `execute_command` frees none. What is stored has no completion yet. -/
theorem each_control_command_is_completed_before_the_next_entry {asqs acqs asq acq : Nat}
    {flash : Ppa → Nat → UInt8} {acts : List Action} {s : State}
    (hok : AllSteps (fwStep c) (CompletionHasRoom c) (initialState c asqs acqs asq acq flash) acts)
    (h : run (fwStep c) (initialState c asqs acqs asq acq flash) acts = some s) :
    (∀ f ∈ s.driver.fetched, f.isControl = true → (completionsOf s f).length ≤ 1) ∧
    (aboutToPoll s = true → s.isp.ctrl_cmd_req = none ∧
      ∀ f ∈ s.driver.fetched, f.isControl = true → (completionsOf s f).length = 1) ∧
    (∀ req ∈ s.isp.ctrl_cmd_req, ∀ f ∈ s.driver.fetched, f.isControl = true →
      req.uid = f.uid → completionsOf s f = []) := by
  have hinit : ControlsOnce (initialState c asqs acqs asq acq flash) := by
    refine ⟨.polling, at_initialState c asqs acqs asq acq flash, rfl, ?_, ?_, ?_, ?_⟩ <;>
      simp [State.books, initialState, initialize_nvme, Driver.zero, Stage.held]
  obtain ⟨st, hat, hctl⟩ := run_invariant_of_ok (I := fun _ s => ControlsOnce s) hinit
    (fun _ _ _ _ _ ht hroom hstep => controlsOnce_step ht hroom hstep) hok h
  have hone : ∀ f ∈ s.driver.fetched, f.isControl = true →
      (completionsOf s f).length + storedAs f.uid s.isp.ctrl_cmd_req = 1 := by
    intro f hf hfctl
    rw [completionsOf_length]
    exact hctl.one f hf hfctl
  refine ⟨?_, ?_, ?_⟩
  · intro f hf hfctl
    have := hone f hf hfctl
    omega
  · intro hpoll
    have hnone := hat.ctrl_of_poll hpoll
    refine ⟨hnone, fun f hf hfctl => ?_⟩
    have := hone f hf hfctl
    rw [hnone] at this
    simpa [storedAs] using this
  · intro req hreq f hf hfctl huid
    have := hone f hf hfctl
    rw [Option.mem_def.mp hreq] at this
    apply List.eq_nil_of_length_eq_zero
    simpa [storedAs, huid] using this

/-- An execute command, and a control command that nothing answers, up to the next poll. -/
def executeAndControl : List Action :=
  roundFor (ringFor 1 1 { readBlock 1 with opcode := 0x80 }) ++
    roundFor (ringFor 1 2 { readBlock 1 with opcode := 0x81, cid := 4 }) ++
    List.replicate 5 (.nvme noRing)

/-- The control command is stored and recycled, and the next poll finds it completed. -/
theorem each_control_command_is_completed_before_the_next_entry_after_a_recycling :
    ∃ s f, run (fwStep smallDevice) bootState (createQueues ++ executeAndControl) = some s ∧
      f ∈ s.driver.fetched ∧ f.isControl = true ∧ aboutToPoll s = true ∧
      (completionsOf s f).length = 1 := by
  have hrun : (run (fwStep smallDevice) bootState (createQueues ++ executeAndControl)).map
      (fun s => (s.driver.fetched.any Fetch.isControl, aboutToPoll s)) = some (true, true) := by
    decide +kernel
  obtain ⟨s, hs, hpoll⟩ := Option.map_eq_some_iff.mp hrun
  obtain ⟨hctl, hpoll⟩ := Prod.mk.inj hpoll
  obtain ⟨f, hf, hctl⟩ := List.any_eq_true.mp hctl
  have hlaw := each_control_command_is_completed_before_the_next_entry smallDevice
    (by decide +kernel) hs
  exact ⟨s, f, hs, hf, hctl, hpoll, (hlaw.2.1 hpoll).2 f hf hctl⟩

end S4Sim
