-- One I/O completion queue and the host that polls it. The host accepts the entry
-- at its head when the phase bit of the entry is the phase it expects, and its
-- head door bells lag behind. It receives every completion once, in order.
import S4Sim.Nvme.Driver
import S4Sim.Lib.Run
import Mathlib.Data.List.Forall2

open Runs

namespace S4Sim

/-- The queue of the firmware, its slots in host memory, and the host. The last
three fields are logs: what was enqueued and posted, and how many entries the
host has released. -/
structure PollSystem where
  cq : NvmeCQueue
  slots : Nat → NvmeCCmd
  hostHead : Nat
  hostPhase : Bool
  received : List NvmeCCmd
  enqueued : List Req
  posted : List Posting
  released : Nat

inductive PollAction
  /-- The ring takes a request, in `enqueue_io_ccmd`. -/
  | enqueue (req : Req)
  /-- One turn of the loop of `post_io_ccmds`. -/
  | post (sqhd : Req → Nat)
  /-- The host looks at the slot at its head. -/
  | poll
  /-- A head door bell for `k` more entries, which the host has received. -/
  | door_bell (k : Nat)

namespace PollSystem

variable (s : PollSystem)

/-- The phase bit of the slot at the head is the phase that the host expects. -/
def accepts : Bool := (s.slots s.hostHead).status_p % 2 == s.hostPhase.toNat

/-- The host takes the entry and steps its head. -/
def take : PollSystem :=
  let s := { s with received := s.received ++ [s.slots s.hostHead] }
  if s.hostHead + 1 ≥ s.cq.size then { s with hostHead := 0, hostPhase := !s.hostPhase }
  else { s with hostHead := s.hostHead + 1 }

end PollSystem

/-- What `sync_post_ccmd` writes to the host. -/
def writeSlots (slots : Nat → NvmeCCmd) (postings : List Posting) : Nat → NvmeCCmd :=
  postings.foldl (fun m p => Function.update m p.cqe p.ccmd) slots

/-- One step. `none`: the ring is full, or the door bell is not for entries that
the host has received. -/
def pollStep (s : PollSystem) : PollAction → Option PollSystem
  | .enqueue req =>
    if s.cq.pendingFull then none
    else (s.cq.pushPending req).map fun cq => { s with cq, enqueued := s.enqueued ++ [req] }
  | .post sqhd =>
    (post_ccmds sqhd s.cq 1).map fun (cq, postings) =>
      { s with cq, slots := writeSlots s.slots postings, posted := s.posted ++ postings }
  | .poll => some (if s.accepts then s.take else s)
  | .door_bell k =>
    if s.released + k ≤ s.received.length then
      let cq := { s.cq with head := (s.released + k) % s.cq.size }
      some { s with cq, released := s.released + k }
    else none

/-- The queue after `nvme_create_cq`, in memory that the host has zeroed. -/
def createdQueue (old : NvmeCQueue) (cqid n hostAddr irq_enabled vector : Nat) : PollSystem where
  cq := old.setUp cqid n hostAddr irq_enabled vector
  slots _ := ⟨0, 0, 0, 0⟩
  hostHead := 0
  hostPhase := true
  received := []
  enqueued := []
  posted := []
  released := 0

/-- The entry is a completion of the request. -/
def CompletionOf (e : NvmeCCmd) (req : Req) : Prop := ∃ phase sqhd, e = ccmdOf phase sqhd req

/-- No entry that is posted and not yet released lies in the slot. -/
def SlotReleased (s : PollSystem) (slot : Nat) : Prop :=
  ∀ i (hi : i < s.posted.length), s.released ≤ i → s.posted[i].cqe ≠ slot

/-! ## The invariant -/

/-- The state by its counters: `posted` entries, of which the host has received
the first `received.length` and released the first `released`. Each slot has the
newest entry that was posted to it. -/
structure InStep (n : Nat) (s : PollSystem) : Prop where
  size : s.cq.size = n
  counters : CQAt s.cq s.posted.length s.released s.cq.pending.contents
  order : s.posted.map Posting.req ++ s.cq.pending.contents = s.enqueued
  lag : s.released ≤ s.received.length
  ahead : s.received.length ≤ s.posted.length
  hostHead : s.hostHead = s.received.length % n
  hostPhase : s.hostPhase = phaseAt n s.received.length
  entry : ∀ i (hi : i < s.posted.length), s.posted[i].cqe = i % n ∧
    ∃ sqhd, s.posted[i].ccmd = ccmdOf (phaseAt n i) sqhd s.posted[i].req
  newest : ∀ i (hi : i < s.posted.length), s.posted.length ≤ i + n →
    s.slots (i % n) = s.posted[i].ccmd
  unused : ∀ j < n, s.posted.length ≤ j → (s.slots j).status_p = 0
  received : s.received = (s.posted.take s.received.length).map Posting.ccmd

section Steps

variable {n : Nat} {s s' : PollSystem}

theorem inStep_createdQueue (old : NvmeCQueue) (cqid hostAddr irq_enabled vector : Nat)
    (hn : 2 ≤ n) : InStep n (createdQueue old cqid n hostAddr irq_enabled vector) := by
  have hat := cqAt_setUp old cqid hostAddr irq_enabled vector hn
  have hnil := hat.pending.contents_eq
  refine ⟨rfl, ?_, ?_, le_refl _, le_refl _, (Nat.zero_mod n).symm, ?_, ?_, ?_, fun _ _ _ => rfl,
    rfl⟩
  · simp only [createdQueue, hnil, List.length_nil]
    exact hat
  · simp [createdQueue, hnil]
  · simp [createdQueue, phaseAt]
  · intro i hi
    simp [createdQueue] at hi
  · intro i hi
    simp [createdQueue] at hi

theorem InStep.two_le (h : InStep n s) : 2 ≤ n := h.size ▸ h.counters.size

/-- The slot at the head of the host: an entry that it has not received, an
entry of the turn before, or memory that was never written. -/
theorem InStep.accepts_iff (h : InStep n s) :
    s.accepts = true ↔ s.received.length < s.posted.length := by
  have hn := h.two_le
  have hroom := h.counters.room
  rw [h.size] at hroom
  have hlag := h.lag
  have hahead := h.ahead
  unfold PollSystem.accepts
  rw [beq_iff_eq, h.hostHead, h.hostPhase]
  rcases Nat.lt_or_ge s.received.length s.posted.length with hlt | hge
  · obtain ⟨-, sqhd, hentry⟩ := h.entry _ hlt
    rw [h.newest _ hlt (by omega), hentry, phase_bit]
    simp [hlt]
  · have hall : s.received.length = s.posted.length := by omega
    refine iff_of_false ?_ (by omega)
    rcases Nat.lt_or_ge s.posted.length n with hfirst | hlater
    · rw [hall, Nat.mod_eq_of_lt hfirst, h.unused _ hfirst le_rfl]
      simp [phaseAt, Nat.div_eq_of_lt hfirst]
    · -- The slot holds the entry of the turn before, with the other phase.
      obtain ⟨k, hk⟩ := Nat.exists_eq_add_of_le hlater
      obtain ⟨-, sqhd, hentry⟩ := h.entry k (by omega)
      rw [hall, show s.posted.length % n = k % n by rw [hk, Nat.add_mod_left],
        h.newest k (by omega) (by omega), hentry, phase_bit, hk, Nat.add_comm n k,
        phaseAt_add_size (by omega)]
      cases phaseAt n k <;> decide

theorem InStep.enqueue {req : Req} {cq : NvmeCQueue} (h : InStep n s)
    (hfull : s.cq.pendingFull = false) (hpush : s.cq.pushPending req = some cq) :
    InStep n { s with cq, enqueued := s.enqueued ++ [req] } := by
  have hlt := h.counters.pending_length_lt
  have hne := mt h.counters.pendingFull_iff.mpr (by simp [hfull])
  have hin : s.cq.pending.tail < INTERNAL_IO_REQ_QUEUE := by
    unfold NvmeCQueue.pushPending at hpush
    split at hpush
    · rename_i hc
      exact hc.1
    · cases hpush
  obtain ⟨cq', hpush', hsame, hat⟩ := CQAt.pushPending req h.counters (by omega) hin
  rw [hpush] at hpush'
  cases hpush'
  have hcontents := hat.pending.contents_eq
  refine ⟨hsame.size.trans h.size, ?_, ?_, h.lag, h.ahead, h.hostHead, h.hostPhase, h.entry,
    h.newest, h.unused, h.received⟩
  · show CQAt cq _ _ cq.pending.contents
    rw [hcontents]
    exact hat
  · show _ ++ cq.pending.contents = _
    rw [hcontents, ← List.append_assoc, h.order]

/-- One posting goes to the slot of its number, and the newest entry of every
other slot stays. -/
theorem InStep.postOne {sqhd : Req → Nat} {cq : NvmeCQueue} {req : Req} {l : List Req}
    (h : InStep n s)
    (hcontents : s.cq.pending.contents = req :: l) (hsame : SameQueue s.cq cq)
    (hat : CQAt cq (s.posted.length + 1) s.released l) :
    InStep n { s with
      cq
      slots := writeSlots s.slots [postingAt s.cq sqhd s.posted.length req]
      posted := s.posted ++ [postingAt s.cq sqhd s.posted.length req] } := by
  have hn := h.two_le
  let posting := postingAt s.cq sqhd s.posted.length req
  have hcqe : posting.cqe = s.posted.length % n := by
    show s.posted.length % s.cq.size = _
    rw [h.size]
  have hslots : ∀ j, writeSlots s.slots [posting] j =
      if j = s.posted.length % n then posting.ccmd else s.slots j := by
    intro j
    show Function.update s.slots posting.cqe posting.ccmd j = _
    rw [hcqe, Function.update_apply]
  refine ⟨hsame.size.trans h.size, ?_, ?_, h.lag, ?_, h.hostHead, h.hostPhase, ?_, ?_, ?_, ?_⟩
  · simp only [List.length_append, List.length_singleton, hat.pending.contents_eq]
    exact hat
  · simp only [List.map_append, List.map_cons, List.map_nil, hat.pending.contents_eq,
      ← h.order, hcontents, List.append_assoc, List.singleton_append]
    rfl
  · simp only [List.length_append, List.length_singleton]
    have := h.ahead
    omega
  · intro i hi
    rcases Nat.lt_or_ge i s.posted.length with hlt | hge
    · simp only [List.getElem_append_left hlt]
      exact h.entry i hlt
    · have hlast : i = s.posted.length := by
        simp only [List.length_append, List.length_singleton] at hi
        omega
      subst hlast
      simp only [List.getElem_concat_length]
      exact ⟨hcqe, sqhd req, by rw [← h.size]; rfl⟩
  · intro i hi hnew
    have hi' : i < s.posted.length + 1 := by simpa using hi
    have hnew' : s.posted.length + 1 ≤ i + n := by simpa using hnew
    show writeSlots s.slots [posting] (i % n) = _
    rw [hslots]
    rcases Nat.lt_or_ge i s.posted.length with hlt | hge
    · -- Two entries less than one turn apart lie in different slots.
      obtain ⟨k, hk⟩ := Nat.exists_eq_add_of_le hlt.le
      have hne : i % n ≠ s.posted.length % n := by
        intro he
        rw [hk] at he
        have := Rings.wrap_inj (n := n) (a := i) (i := 0) (j := k) (by omega) (by omega)
          (by simpa using he)
        omega
      rw [if_neg hne, h.newest i hlt (by omega)]
      simp only [List.getElem_append_left hlt]
    · have hlast : i = s.posted.length := by omega
      subst hlast
      rw [if_pos rfl]
      simp only [List.getElem_concat_length]
      rfl
  · intro j hj hpast
    simp only [List.length_append, List.length_singleton] at hpast
    show (writeSlots s.slots [posting] j).status_p = 0
    rw [hslots, if_neg, h.unused j hj (by omega)]
    rw [Nat.mod_eq_of_lt (by omega)]
    omega
  · show s.received = _
    rw [List.take_append_of_le_length h.ahead]
    exact h.received

/-- One turn of the loop ends it, or posts the oldest pending request. -/
theorem InStep.turn (h : InStep n s) (sqhd : Req → Nat) :
    post_ccmds sqhd s.cq 1 = some (s.cq, []) ∨
    ∃ cq req l, s.cq.pending.contents = req :: l ∧ SameQueue s.cq cq ∧
      CQAt cq (s.posted.length + 1) s.released l ∧
      s.posted.length + 1 < s.released + s.cq.size ∧
      post_ccmds sqhd s.cq 1 =
        some (cq, [postingAt s.cq sqhd s.posted.length req]) := by
  have hsize := h.counters.size
  have hlen := h.counters.pending_length_lt
  have hroom := h.counters.room
  have hat := h.counters
  cases hcontents : s.cq.pending.contents with
  | nil =>
    left
    rw [post_ccmds, if_pos (hat.pending.empty_iff.mpr hcontents)]
  | cons req l =>
    rw [hcontents] at hat
    have hne : s.cq.pending.head ≠ s.cq.pending.tail := by
      simp [hat.pending.empty_iff]
    rw [post_ccmds, if_neg hne, if_neg (by omega)]
    by_cases hfull : s.cq.nvme_cq_full = true
    · left
      rw [if_pos hfull]
    · right
      have hfree := mt hat.full_iff.mpr hfull
      refine ⟨s.cq.takePending, req, l, rfl, sameQueue_takePending s.cq,
        hat.takePending (by omega), by omega, ?_⟩
      have hposting := hat.postingOf_eq sqhd req
      rw [if_neg hfull, post_ccmds, ← hposting]
      simp only [Option.map_some, hat.pending.head_eq]

theorem InStep.post {sqhd : Req → Nat} (h : InStep n s) (hs : pollStep s (.post sqhd) = some s') :
    InStep n s' := by
  rw [pollStep] at hs
  rcases h.turn sqhd with hend | ⟨cq, req, l, hcontents, hsame, hat, -, hpost⟩
  · simp only [hend, Option.map_some, Option.some.injEq] at hs
    subst hs
    simpa [writeSlots] using h
  · simp only [hpost, Option.map_some, Option.some.injEq] at hs
    subst hs
    exact h.postOne hcontents hsame hat

theorem InStep.poll (h : InStep n s) (hacc : s.accepts = true) : InStep n s.take := by
  have hn := h.two_le
  have hlt := h.accepts_iff.mp hacc
  have hroom := h.counters.room
  rw [h.size] at hroom
  have hlag := h.lag
  have hread : s.slots s.hostHead = s.posted[s.received.length].ccmd := by
    rw [h.hostHead]
    exact h.newest _ hlt (by omega)
  have hmod := Nat.mod_lt s.received.length (show 0 < n by omega)
  have hreceived : s.received ++ [s.slots s.hostHead] =
      (s.posted.take (s.received.length + 1)).map Posting.ccmd := by
    rw [List.take_succ_eq_append_getElem hlt, List.map_append, ← h.received, hread]
    rfl
  unfold PollSystem.take
  simp only [h.size, h.hostHead]
  split
  · have hwrap : s.received.length % n + 1 = n := by omega
    refine ⟨h.size, h.counters, h.order, ?_, ?_, ?_, ?_, h.entry, h.newest, h.unused, ?_⟩
    · simp only [List.length_append, List.length_singleton]
      omega
    · simp only [List.length_append, List.length_singleton]
      omega
    · simp only [List.length_append, List.length_singleton]
      rw [Nat.add_mod, Nat.mod_eq_of_lt (show 1 < n by omega), hwrap, Nat.mod_self]
    · simp only [List.length_append, List.length_singleton]
      rw [h.hostPhase, phaseAt_succ_of_wrap (by omega) hwrap]
    · rw [h.hostHead] at hreceived
      simpa using hreceived
  · have hstay : s.received.length % n + 1 < n := by omega
    refine ⟨h.size, h.counters, h.order, ?_, ?_, ?_, ?_, h.entry, h.newest, h.unused, ?_⟩
    · simp only [List.length_append, List.length_singleton]
      omega
    · simp only [List.length_append, List.length_singleton]
      omega
    · simp only [List.length_append, List.length_singleton]
      rw [Nat.add_mod, Nat.mod_eq_of_lt (show 1 < n by omega), Nat.mod_eq_of_lt hstay]
    · simp only [List.length_append, List.length_singleton]
      rw [h.hostPhase, phaseAt_succ_of_lt hstay]
    · rw [h.hostHead] at hreceived
      simpa using hreceived

theorem InStep.door_bell {k : Nat} (h : InStep n s)
    (hle : s.released + k ≤ s.received.length) :
    InStep n { s with
      cq := { s.cq with head := (s.released + k) % s.cq.size }
      released := s.released + k } := by
  obtain ⟨hsize, htail, hphase, -, -, hroom, hpsize, hpend⟩ := h.counters
  have hahead := h.ahead
  exact ⟨h.size, ⟨hsize, htail, hphase, rfl, by simp only; omega, by simp only; omega, hpsize,
    hpend⟩, h.order, hle, hahead, h.hostHead, h.hostPhase, h.entry, h.newest, h.unused,
    h.received⟩

theorem inStep_step {a : PollAction} (h : InStep n s) (hs : pollStep s a = some s') :
    InStep n s' := by
  cases a with
  | enqueue req =>
    simp only [pollStep] at hs
    split at hs
    · cases hs
    · rename_i hfull
      obtain ⟨cq, hpush, rfl⟩ := Option.map_eq_some_iff.mp hs
      rw [Bool.not_eq_true] at hfull
      exact h.enqueue hfull hpush
  | post sqhd => exact h.post hs
  | poll =>
    cases hs
    split
    · rename_i hacc
      exact h.poll hacc
    · exact h
  | door_bell k =>
    simp only [pollStep] at hs
    split at hs
    · rename_i hle
      cases hs
      exact h.door_bell hle
    · cases hs

/-- A posting goes to a slot that the host has released. -/
theorem InStep.slotReleased {sqhd : Req → Nat} {cq : NvmeCQueue} {ps : List Posting}
    (h : InStep n s)
    (hpost : post_ccmds sqhd s.cq 1 = some (cq, ps)) :
    ∀ posting ∈ ps, SlotReleased s posting.cqe := by
  rcases h.turn sqhd with hend | ⟨cq', req, l, -, -, -, hfree, hpost'⟩
  · rw [hend] at hpost
    cases hpost
    simp
  · rw [hpost'] at hpost
    cases hpost
    intro posting hmem i hi hrel he
    rw [List.mem_singleton] at hmem
    subst hmem
    rw [(h.entry i hi).1] at he
    replace he : i % n = s.posted.length % n := by
      rw [he]
      show s.posted.length % s.cq.size = _
      rw [h.size]
    rw [h.size] at hfree
    obtain ⟨k, hk⟩ := Nat.exists_eq_add_of_le hi.le
    rw [hk] at he
    have := Rings.wrap_inj (n := n) (a := i) (i := 0) (j := k) (by omega) (by omega)
      (by simpa using he)
    omega

theorem InStep.received_completions (h : InStep n s) :
    List.Forall₂ CompletionOf s.received (s.enqueued.take s.received.length) := by
  have hahead := h.ahead
  have hreq : s.enqueued.take s.received.length =
      (s.posted.take s.received.length).map Posting.req := by
    rw [← h.order, List.take_append_of_le_length (by simpa using hahead), List.map_take]
  rw [hreq]
  conv_lhs => rw [h.received]
  rw [List.forall₂_map_left_iff, List.forall₂_map_right_iff, List.forall₂_same]
  intro posting hmem
  obtain ⟨i, hi, rfl⟩ := List.mem_iff_getElem.mp (List.mem_of_mem_take hmem)
  obtain ⟨-, sqhd, hentry⟩ := h.entry i hi
  exact ⟨_, sqhd, hentry⟩

/-- With `n ≤ 128` the ring never leaves its array, so no step is undefined. -/
theorem InStep.returns (h : InStep n s) (hn : n ≤ INTERNAL_IO_REQ_QUEUE) :
    (∀ sqhd, (pollStep s (.post sqhd)).isSome) ∧
      (s.cq.pendingFull = false → ∀ req, (pollStep s (.enqueue req)).isSome) := by
  constructor
  · intro sqhd
    rw [pollStep]
    rcases h.turn sqhd with hend | ⟨cq, req, l, -, -, -, -, hpost⟩
    · rw [hend]
      rfl
    · rw [hpost]
      rfl
  · intro hfull req
    have htail : s.cq.pending.tail < s.cq.pending.size := by
      rw [h.counters.pending.2.2.1]
      exact Rings.wrap_lt (Nat.zero_lt_of_lt h.counters.pending.2.1)
    have hsize := h.counters.pending_size
    have := h.size
    rw [pollStep, NvmeCQueue.pushPending, hfull, if_neg Bool.false_ne_true,
      if_pos ⟨by omega, by omega⟩]
    rfl

end Steps

/-- A call of `post_io_ccmds` is a run of turns. -/
theorem run_posts {sqhd : Req → Nat} {k : Nat} {s : PollSystem} {cq : NvmeCQueue}
    {ps : List Posting} (h : post_ccmds sqhd s.cq k = some (cq, ps)) :
    run pollStep s (List.replicate k (.post sqhd)) =
      some { s with cq, slots := writeSlots s.slots ps, posted := s.posted ++ ps } := by
  induction k generalizing s cq ps with
  | zero =>
    cases h
    simp [writeSlots]
  | succ k ih =>
    rw [Nat.add_comm, post_ccmds_add] at h
    obtain ⟨⟨cq1, ps1⟩, h1, h2⟩ := Option.bind_eq_some_iff.mp h
    obtain ⟨⟨cq2, ps2⟩, h3, h4⟩ := Option.map_eq_some_iff.mp h2
    cases h4
    rw [List.replicate_succ, run_cons, pollStep, h1]
    simp only [Option.map_some, Option.bind_some]
    rw [ih h3]
    simp [writeSlots, List.foldl_append]

/-! ## The law -/

/-- In every run the host has received the completions of the first requests, in
order; it accepts an entry exactly when one is posted that it has not received;
every posting goes to a released slot; and no step is undefined. -/
theorem the_host_receives_every_completion_in_order {n : Nat} (hn : 2 ≤ n)
    (hn' : n ≤ INTERNAL_IO_REQ_QUEUE) (old : NvmeCQueue) (cqid hostAddr irq_enabled vector : Nat)
    {acts : List PollAction} {s : PollSystem}
    (h : run pollStep (createdQueue old cqid n hostAddr irq_enabled vector) acts = some s) :
    List.Forall₂ CompletionOf s.received (s.enqueued.take s.received.length) ∧
      s.posted.map Posting.req ++ s.cq.pending.contents = s.enqueued ∧
      (s.accepts = true ↔ s.received.length < s.posted.length) ∧
      (∀ sqhd cq ps, post_ccmds sqhd s.cq 1 = some (cq, ps) →
        ∀ posting ∈ ps, SlotReleased s posting.cqe) ∧
      (∀ sqhd, (pollStep s (.post sqhd)).isSome) ∧
      (s.cq.pendingFull = false → ∀ req, (pollStep s (.enqueue req)).isSome) := by
  have hstep : InStep n s := run_keeps (I := InStep n) (fun _ _ _ ht ha => inStep_step ht ha)
    (inStep_createdQueue old cqid hostAddr irq_enabled vector hn) h
  exact ⟨hstep.received_completions, hstep.order, hstep.accepts_iff,
    fun _ _ _ hpost => hstep.slotReleased hpost, hstep.returns hn'⟩

/-- A queue of two slots: one completion is received and released, and the next
one goes through the second slot. -/
def twoCompletions : List PollAction :=
  [.enqueue zeroReq, .post fun _ => 0, .poll, .door_bell 1,
    .enqueue { zeroReq with uid := 1 }, .post fun _ => 0, .poll]

theorem the_host_receives_two_completions_in_order :
    ∃ s, run pollStep (createdQueue (Driver.zero.cqs 1) 1 2 0 1 1) twoCompletions = some s ∧
      s.received.length = 2 ∧
      List.Forall₂ CompletionOf s.received (s.enqueued.take s.received.length) := by
  have hlen : (run pollStep (createdQueue (Driver.zero.cqs 1) 1 2 0 1 1) twoCompletions).map
      (fun s => s.received.length) = some 2 := by decide +kernel
  obtain ⟨s, hs, hreceived⟩ := Option.map_eq_some_iff.mp hlen
  exact ⟨s, hs, hreceived, (the_host_receives_every_completion_in_order (by decide) (by decide)
    (Driver.zero.cqs 1) 1 0 1 1 hs).1⟩

end S4Sim
