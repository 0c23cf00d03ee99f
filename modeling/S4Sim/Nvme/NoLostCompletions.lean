-- Runs of the completion side of the driver: requests are enqueued, and the host
-- releases slots and rings the head door bells. While the rings have room and
-- each door bell is for a queue that the retry loop visits, every request is
-- posted once, in order.
import S4Sim.Nvme.Driver
import S4Sim.Lib.Run

open Runs

namespace S4Sim

/-- The driver, and the number of entries of each completion queue that the host
has released. -/
structure CqSystem where
  driver : Driver
  released : Nat → Nat

inductive CqAction
  | enqueue_admin_ccmd (req : Req)
  | enqueue_io_ccmd (cqid : Nat) (req : Req)
  /-- The host releases `k` more entries of queue `q` and rings its door bell. -/
  | head_door_bell (q k : Nat)
  | idle_retry

def cqStep (s : CqSystem) : CqAction → Option CqSystem
  | .enqueue_admin_ccmd req =>
    (s.driver.enqueue_admin_ccmd req).map fun d => { s with driver := d }
  | .enqueue_io_ccmd cqid req =>
    (s.driver.enqueue_io_ccmd cqid req).map fun d => { s with driver := d }
  | .head_door_bell q k =>
    let r := s.released q + k
    (s.driver.cq_door_bell q (r % (s.driver.cqs q).size)).map fun d =>
      { driver := d, released := Function.update s.released q r }
  | .idle_retry => s.driver.retry_io_ccmds.map fun d => { s with driver := d }

/-- Each completion queue was just set up, with two slots or more. -/
structure FreshQueues (d : Driver) : Prop where
  queues : ∀ q ≤ MAX_IO_SQCQ_PAIRS, ∃ (old : NvmeCQueue) (cqid n hostAddr irq vector : Nat),
    2 ≤ n ∧ d.cqs q = old.setUp cqid n hostAddr irq vector
  enqueued : d.enqueued = []
  posted : d.posted = []

/-- The host only releases entries that are posted, of a queue that exists. -/
def HostReleases (s : CqSystem) : CqAction → Prop
  | .enqueue_io_ccmd q _ => q ≤ MAX_IO_SQCQ_PAIRS
  | .head_door_bell q k =>
    q ≤ MAX_IO_SQCQ_PAIRS ∧ s.released q + k ≤ (s.driver.postedTo q).length
  | _ => True

/-- The ring of queue `q` takes one more request. -/
def RingHasRoom (d : Driver) (q : Nat) : Prop :=
  (d.cqs q).pendingFull = false ∧ (d.cqs q).pending.tail < INTERNAL_IO_REQ_QUEUE

/-- The condition on a step: an enqueue finds room in the ring, and the retry
loop visits the queue of a door bell, unless the door bell frees nothing or
nothing is pending there. -/
def RetryReaches (s : CqSystem) : CqAction → Prop
  | .enqueue_admin_ccmd _ => RingHasRoom s.driver 0
  | .enqueue_io_ccmd q _ => RingHasRoom s.driver q
  | .head_door_bell q k => s.driver.iocqCount ≤ MAX_IO_SQCQ_PAIRS ∧
      ((1 ≤ q ∧ q ≤ s.driver.iocqCount) ∨ k = 0 ∨ (s.driver.cqs q).pending.contents = [])
  | .idle_retry => s.driver.iocqCount ≤ MAX_IO_SQCQ_PAIRS

instance (d : Driver) (q : Nat) : Decidable (RingHasRoom d q) := by
  unfold RingHasRoom
  infer_instance

instance (s : CqSystem) : (a : CqAction) → Decidable (HostReleases s a)
  | .enqueue_admin_ccmd _ => inferInstanceAs (Decidable True)
  | .enqueue_io_ccmd q _ => inferInstanceAs (Decidable (q ≤ MAX_IO_SQCQ_PAIRS))
  | .head_door_bell q k => inferInstanceAs (Decidable (q ≤ MAX_IO_SQCQ_PAIRS ∧
      s.released q + k ≤ (s.driver.postedTo q).length))
  | .idle_retry => inferInstanceAs (Decidable True)

/-! ## The claims about a state -/

/-- The requests posted to each queue, in order, and then those still pending
are the requests that were enqueued there. Nothing waits on a free slot. -/
def EachPostedOnce (s : CqSystem) : Prop :=
  ∀ q ≤ MAX_IO_SQCQ_PAIRS,
    (s.driver.postedTo q).map Posting.req ++ (s.driver.cqs q).pending.contents =
      s.driver.enqueuedTo q ∧
    ((s.driver.cqs q).pending.contents = [] ∨ (s.driver.cqs q).nvme_cq_full = true)

/-- A door bell that frees `k` slots posts `min k pending` completions. -/
def DoorBellPosts (s : CqSystem) (q k : Nat) : Prop :=
  ∃ s', cqStep s (.head_door_bell q k) = some s' ∧
    (s'.driver.postedTo q).length = (s.driver.postedTo q).length +
      min k (s.driver.cqs q).pending.contents.length

/-! ## The invariant -/

/-- Each queue is in step with its logs and is settled. -/
def AllSettled (d : Driver) (r : Nat → Nat) : Prop :=
  ∀ q ≤ MAX_IO_SQCQ_PAIRS, ∃ l, QueueAt d q (r q) l ∧ Settled d q (r q) l

section Steps

variable {d d' : Driver} {r : Nat → Nat} {s s' : CqSystem} {q k : Nat} {l : List Req}

theorem QueueAt.contents_eq (h : QueueAt d q k l) : (d.cqs q).pending.contents = l :=
  h.counters.pending.contents_eq

theorem QueueAt.length_eq (h : QueueAt d q k l) :
    (d.postedTo q).length + l.length = (d.enqueuedTo q).length := by
  rw [← h.order, List.length_append, List.length_map]

theorem allSettled_fresh (h : FreshQueues d) : AllSettled d fun _ => 0 := by
  intro q hq
  obtain ⟨old, cqid, n, hostAddr, irq, vector, hn, hset⟩ := h.queues q hq
  have hposted : d.postedTo q = [] := by simp [Driver.postedTo, h.posted]
  have henq : d.enqueuedTo q = [] := by simp [Driver.enqueuedTo, h.enqueued]
  refine ⟨[], ⟨?_, ?_⟩, Or.inl rfl⟩
  · rw [hposted, hset]
    exact cqAt_setUp old cqid hostAddr irq vector hn
  · rw [hposted, henq]
    rfl

theorem AllSettled.of_only (h : AllSettled d r) (honly : OnlyQueue q d d')
    (hq : ∃ l, QueueAt d' q (r q) l ∧ Settled d' q (r q) l) : AllSettled d' r := by
  intro i hi
  by_cases hiq : i = q
  · subst hiq
    exact hq
  · obtain ⟨l, hat, hs⟩ := h i hi
    exact ⟨l, honly.queueAt hiq hat, honly.settled hiq hs⟩

theorem RingHasRoom.length_lt (h : RingHasRoom d q) (hat : QueueAt d q k l) :
    l.length + 1 < (d.cqs q).size := by
  have hne := mt hat.counters.pendingFull_iff.mpr (by simp [h.1])
  have := hat.counters.pending_length_lt
  omega

theorem enqueue_admin_settles (req : Req) (h : AllSettled d r) (hroom : RingHasRoom d 0) :
    ∃ d', d.enqueue_admin_ccmd req = some d' ∧ AllSettled d' r := by
  obtain ⟨l, hat, -⟩ := h 0 (Nat.zero_le _)
  obtain ⟨cq, ps, l', hpost, honly, hat', hs'⟩ :=
    enqueue_spec (fun _ => (d.sqs 0).head) req hat (hroom.length_lt hat) hroom.2
  refine ⟨_, ?_, h.of_only honly ⟨l', hat', hs'⟩⟩
  unfold Driver.enqueue_admin_ccmd NvmeCQueue.enqueueAdmin
  rw [hpost]
  rfl

theorem enqueue_io_settles (req : Req) (h : AllSettled d r) (hq : q ≤ MAX_IO_SQCQ_PAIRS)
    (hroom : RingHasRoom d q) : ∃ d', d.enqueue_io_ccmd q req = some d' ∧ AllSettled d' r := by
  obtain ⟨l, hat, -⟩ := h q hq
  obtain ⟨cq, ps, l', hpost, honly, hat', hs'⟩ :=
    enqueue_spec d.sqhd req hat (hroom.length_lt hat) hroom.2
  refine ⟨_, ?_, h.of_only honly ⟨l', hat', hs'⟩⟩
  have hsize : (d.cqs q).pending.size ≠ 0 := by
    have := hat.counters.pending_size
    have := hat.counters.size
    omega
  unfold Driver.enqueue_io_ccmd NvmeCQueue.enqueueIo
  rw [if_neg (by omega), if_neg hsize, hroom.1, if_neg Bool.false_ne_true, hpost]
  rfl

theorem mem_retried (hcount : d.iocqCount ≤ MAX_IO_SQCQ_PAIRS) :
    ∀ i ∈ List.range' 1 d.iocqCount, i ≤ MAX_IO_SQCQ_PAIRS := by
  intro i hi
  rw [List.mem_range'_1] at hi
  omega

theorem retry_settles (h : AllSettled d r) (hcount : d.iocqCount ≤ MAX_IO_SQCQ_PAIRS) :
    ∃ d', d.retry_io_ccmds = some d' ∧ AllSettled d' r := by
  obtain ⟨d', hfold, hall, -⟩ := retry_spec (r := r) (mem_retried hcount) fun i hi => by
    obtain ⟨l, hat, hs⟩ := h i hi
    exact ⟨l, hat, Or.inr hs⟩
  exact ⟨d', hfold, hall⟩

/-- The host releases `k` more entries of queue `q`. -/
theorem QueueAt.release (h : QueueAt d q (r q) l)
    (hle : r q + k ≤ (d.postedTo q).length) :
    QueueAt (d.setCqHead q ((r q + k) % (d.cqs q).size)) q (r q + k) l := by
  obtain ⟨⟨hsize, htail, hphase, -, -, hroom, hpsize, hpend⟩, horder⟩ := h
  refine ⟨?_, horder⟩
  simp only [Driver.setCqHead, Function.update_self]
  refine ⟨hsize, htail, hphase, rfl, hle, ?_, hpsize, hpend⟩
  simp only [Driver.postedTo] at hroom ⊢
  omega

theorem setCqHead_size (head i : Nat) :
    ((d.setCqHead q head).cqs i).size = (d.cqs i).size := by
  by_cases hi : i = q
  · subst hi
    simp [Driver.setCqHead]
  · simp [Driver.setCqHead, hi]

/-- After the new head, each queue is settled or the retry loop visits it. -/
theorem waits_after_release (h : AllSettled d r) (hle : r q + k ≤ (d.postedTo q).length)
    (hreach : (1 ≤ q ∧ q ≤ d.iocqCount) ∨ k = 0 ∨ (d.cqs q).pending.contents = []) :
    ∀ i ≤ MAX_IO_SQCQ_PAIRS, ∃ l,
      QueueAt (d.setCqHead q ((r q + k) % (d.cqs q).size)) i
        (Function.update r q (r q + k) i) l ∧
      (i ∈ List.range' 1 d.iocqCount ∨
        Settled (d.setCqHead q ((r q + k) % (d.cqs q).size)) i
          (Function.update r q (r q + k) i) l) := by
  intro i hi
  obtain ⟨l, hat, hs⟩ := h i hi
  by_cases hiq : i = q
  · subst hiq
    rw [Function.update_self]
    refine ⟨l, hat.release hle, ?_⟩
    rcases hreach with hin | rfl | hempty
    · left
      rw [List.mem_range'_1]
      omega
    · right
      unfold Settled
      rw [setCqHead_size]
      exact hs
    · rw [hat.contents_eq] at hempty
      exact Or.inr (Or.inl hempty)
  · have hcq : ∀ head, (d.setCqHead q head).cqs i = d.cqs i := fun head =>
      Function.update_of_ne hiq ..
    rw [Function.update_of_ne hiq]
    refine ⟨l, ⟨?_, hat.order⟩, Or.inr ?_⟩
    · rw [hcq]
      exact hat.counters
    · unfold Settled
      rw [hcq]
      exact hs

theorem head_door_bell_settles (h : AllSettled d r) (hq : q ≤ MAX_IO_SQCQ_PAIRS)
    (hle : r q + k ≤ (d.postedTo q).length) (hcount : d.iocqCount ≤ MAX_IO_SQCQ_PAIRS)
    (hreach : (1 ≤ q ∧ q ≤ d.iocqCount) ∨ k = 0 ∨ (d.cqs q).pending.contents = []) :
    ∃ d', d.cq_door_bell q ((r q + k) % (d.cqs q).size) = some d' ∧
      AllSettled d' (Function.update r q (r q + k)) ∧ d'.enqueuedTo q = d.enqueuedTo q ∧
      (d'.cqs q).size = (d.cqs q).size := by
  obtain ⟨d', hfold, hall, henq, -, hsize⟩ :=
    retry_spec (mem_retried hcount) (waits_after_release h hle hreach)
  refine ⟨d', ?_, hall, ?_, ?_⟩
  · unfold Driver.cq_door_bell
    rw [if_neg (by omega)]
    exact hfold
  · unfold Driver.enqueuedTo
    rw [henq]
    rfl
  · rw [hsize q, setCqHead_size]

/-- One step keeps every queue settled. -/
theorem cqStep_settles {a : CqAction} (h : AllSettled s.driver s.released)
    (hhost : HostReleases s a) (hok : RetryReaches s a) :
    ∃ s', cqStep s a = some s' ∧ AllSettled s'.driver s'.released := by
  cases a with
  | enqueue_admin_ccmd req =>
    obtain ⟨d', hd, hall⟩ := enqueue_admin_settles req h hok
    exact ⟨_, by rw [cqStep, hd]; rfl, hall⟩
  | enqueue_io_ccmd q req =>
    obtain ⟨d', hd, hall⟩ := enqueue_io_settles req h hhost hok
    exact ⟨_, by rw [cqStep, hd]; rfl, hall⟩
  | head_door_bell q k =>
    obtain ⟨d', hd, hall, -⟩ := head_door_bell_settles h hhost.1 hhost.2 hok.1 hok.2
    exact ⟨_, by rw [cqStep, hd]; rfl, hall⟩
  | idle_retry =>
    obtain ⟨d', hd, hall⟩ := retry_settles h hok
    exact ⟨_, by rw [cqStep, hd]; rfl, hall⟩

theorem EachPostedOnce.of_settled (h : AllSettled s.driver s.released) : EachPostedOnce s := by
  intro q hq
  obtain ⟨l, hat, hs⟩ := h q hq
  rw [hat.contents_eq]
  refine ⟨hat.order, ?_⟩
  rcases hs with hnil | hfull
  · exact Or.inl hnil
  · exact Or.inr (hat.counters.full_iff.mpr hfull)

/-- The freed slots are taken by as many pending completions as there are. -/
theorem DoorBellPosts.of_settled (h : AllSettled s.driver s.released)
    (hhost : HostReleases s (.head_door_bell q k)) (hok : RetryReaches s (.head_door_bell q k)) :
    DoorBellPosts s q k := by
  obtain ⟨l, hat, hs⟩ := h q hhost.1
  obtain ⟨d', hd, hall, henq, hsize⟩ := head_door_bell_settles h hhost.1 hhost.2 hok.1 hok.2
  obtain ⟨l', hat', hs'⟩ := hall q hhost.1
  refine ⟨⟨d', Function.update s.released q (s.released q + k)⟩, by rw [cqStep, hd]; rfl, ?_⟩
  show (d'.postedTo q).length = _
  rw [hat.contents_eq]
  rw [Function.update_self] at hat' hs'
  -- Both logs have the length of the log of enqueued requests.
  have hlen := hat.length_eq
  have hlen' := hat'.length_eq
  rw [henq] at hlen'
  have hroom := hat.counters.room
  have hroom' := hat'.counters.room
  rw [hsize] at hroom'
  have hk := hhost.2
  simp only [Settled, hsize] at hs hs'
  rcases hs with rfl | hfull
  · simp only [List.length_nil] at hlen ⊢
    rcases hs' with rfl | hfull'
    · simp only [List.length_nil] at hlen'
      omega
    · omega
  · rcases hs' with rfl | hfull'
    · simp only [List.length_nil] at hlen'
      omega
    · omega

end Steps

/-! ## The law -/

/-- From fresh queues, a run whose enqueues find room and whose door bells reach
their queue returns. It posts every request once and in order, and a further
door bell posts as many completions as it frees slots for. -/
theorem no_completion_is_lost_while_the_rings_have_room {d : Driver} (hfresh : FreshQueues d)
    {acts : List CqAction}
    (hok : AllSteps cqStep (fun s a => HostReleases s a ∧ RetryReaches s a)
      ⟨d, fun _ => 0⟩ acts) :
    ∃ s, run cqStep ⟨d, fun _ => 0⟩ acts = some s ∧ EachPostedOnce s ∧
      ∀ q k, HostReleases s (.head_door_bell q k) → RetryReaches s (.head_door_bell q k) →
        DoorBellPosts s q k := by
  obtain ⟨s, hs, hall⟩ : ∃ s, run cqStep ⟨d, fun _ => 0⟩ acts = some s ∧
      AllSettled s.driver s.released := by
    induction acts using List.reverseRecOn with
    | nil => exact ⟨_, rfl, allSettled_fresh hfresh⟩
    | append_singleton acts a ih =>
      obtain ⟨hpre, hlast⟩ := allSteps_snoc.mp hok
      obtain ⟨t, ht, hall⟩ := ih hpre
      obtain ⟨hhost, hreach⟩ := hlast t ht
      obtain ⟨u, hu, hall'⟩ := cqStep_settles hall hhost hreach
      exact ⟨u, run_snoc_eq_some.mpr ⟨t, ht, hu⟩, hall'⟩
  exact ⟨s, hs, EachPostedOnce.of_settled hall, fun q k hhost hreach =>
    DoorBellPosts.of_settled hall hhost hreach⟩

/-- Queues of two slots each, one of them an I/O queue that the retry loop visits. -/
def twoSlots : Driver :=
  { Driver.zero with
    cqs := fun q => (Driver.zero.cqs q).setUp q 2 0 1 q
    iocqCount := 1 }

theorem freshQueues_twoSlots : FreshQueues twoSlots where
  queues q _ := ⟨Driver.zero.cqs q, q, 2, 0, 1, q, le_refl 2, rfl⟩
  enqueued := rfl
  posted := rfl

/-- Two requests for the I/O queue, and the door bell that releases the first. -/
theorem no_completion_is_lost_on_an_io_queue :
    ∃ s, run cqStep ⟨twoSlots, fun _ => 0⟩ [.enqueue_io_ccmd 1 zeroReq,
        .enqueue_io_ccmd 1 { zeroReq with uid := 1 }, .head_door_bell 1 1] = some s ∧
      EachPostedOnce s ∧
      ∀ q k, HostReleases s (.head_door_bell q k) → RetryReaches s (.head_door_bell q k) →
        DoorBellPosts s q k := by
  apply no_completion_is_lost_while_the_rings_have_room freshQueues_twoSlots
  refine ⟨⟨by decide, show RingHasRoom _ 1 by decide⟩, ?_⟩
  rintro s1 ⟨⟩
  refine ⟨⟨by decide, show RingHasRoom _ 1 by decide⟩, ?_⟩
  rintro s2 ⟨⟩
  exact ⟨⟨by decide, show _ ≤ _ by decide, Or.inl (by decide)⟩, fun _ _ => trivial⟩

/-- The loop starts at 1, so the door bell of the admin queue posts nothing: the
second request still waits while its queue is empty. -/
theorem the_admin_queue_is_not_retried :
    ¬ ∀ (d : Driver), FreshQueues d → ∀ acts : List CqAction,
      AllSteps cqStep HostReleases ⟨d, fun _ => 0⟩ acts →
        ∃ s, run cqStep ⟨d, fun _ => 0⟩ acts = some s ∧ EachPostedOnce s ∧
          ∀ q k, HostReleases s (.head_door_bell q k) → DoorBellPosts s q k := by
  intro hall
  let acts : List CqAction := [.enqueue_admin_ccmd zeroReq,
    .enqueue_admin_ccmd { zeroReq with uid := 1 }, .head_door_bell 0 1]
  have hhost : AllSteps cqStep HostReleases ⟨twoSlots, fun _ => 0⟩ acts := by
    refine ⟨trivial, ?_⟩
    rintro s1 ⟨⟩
    refine ⟨trivial, ?_⟩
    rintro s2 ⟨⟩
    exact ⟨by decide, fun _ _ => trivial⟩
  obtain ⟨s, hs, hposted, -⟩ := hall twoSlots freshQueues_twoSlots acts hhost
  obtain ⟨-, hempty | hfull⟩ := hposted 0 (by decide)
  · have hwait : (run cqStep ⟨twoSlots, fun _ => 0⟩ acts).map
        (fun s => (s.driver.cqs 0).pending.contents.length) = some 1 := rfl
    rw [hs, Option.map_some, hempty] at hwait
    cases hwait
  · have hfree : (run cqStep ⟨twoSlots, fun _ => 0⟩ acts).map
        (fun s => (s.driver.cqs 0).nvme_cq_full) = some false := rfl
    rw [hs, Option.map_some, hfull] at hfree
    cases hfree

end S4Sim
