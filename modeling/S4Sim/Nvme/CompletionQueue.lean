-- One completion queue, from nvme_driver.c: the host queue with its head, tail
-- and phase, and the ring of pending completions behind it.
import S4Sim.Lib.Ring
import S4Sim.Nvme.Types

open Rings

namespace S4Sim

structure NvmeCQueue where
  phase : Bool
  irq_enabled : Nat
  cqid : Nat
  head : Nat
  tail : Nat
  vector : Nat
  size : Nat
  hostAddr : Nat
  pending : RingBuffer Req

namespace NvmeCQueue

variable (cq : NvmeCQueue)

/-- The fields that `initialize_nvme` gives the admin queue, and `nvme_create_cq` an
I/O queue. -/
def setUp (cqid size hostAddr irq_enabled vector : Nat) : NvmeCQueue :=
  { phase := true, irq_enabled, cqid, head := 0, tail := 0, vector, size, hostAddr,
    pending := { cq.pending with head := 0, tail := 0, size } }

def inc_cq_tail : NvmeCQueue :=
  if cq.tail + 1 ≥ cq.size then { cq with tail := 0, phase := !cq.phase }
  else { cq with tail := cq.tail + 1 }

def nvme_cq_full : Bool := (cq.tail + 1) % cq.size == cq.head

/-- The test of `enqueue_io_ccmd` on the ring of pending completions. -/
def pendingFull : Bool := cq.pending.head == (cq.pending.tail + 1) % cq.pending.size

/-- The write to the ring. `none`: the write is outside the array `objs`, or the
size of the ring is 0, the modulus of the next statement. -/
def pushPending (req : Req) : Option NvmeCQueue :=
  if cq.pending.tail < INTERNAL_IO_REQ_QUEUE ∧ 0 < cq.pending.size then
    some { cq with pending := cq.pending.push req }
  else none

/-- The head of the ring is taken and the tail of the queue steps. -/
def takePending : NvmeCQueue := { cq with pending := cq.pending.pop }.inc_cq_tail

end NvmeCQueue

/-- The completion entry of a request. -/
def ccmdOf (phase : Bool) (sqhd : Nat) (req : Req) : NvmeCCmd where
  cdw0 := req.ccmd_dw0
  sqhd := sqhd % 2 ^ 16
  cid := req.scmd.cid.toNat
  status_p := (req.status <<< 1 ||| phase.toNat) % 2 ^ 16

def postingOf (cq : NvmeCQueue) (sqhd : Nat) (req : Req) : Posting where
  cqid := cq.cqid
  cqe := cq.tail
  hostAddr := cq.hostAddr
  ccmd := ccmdOf cq.phase sqhd req
  vector := cq.vector
  irq_enabled := cq.irq_enabled
  req := req

/-- The loop of `post_admin_ccmds` and `post_io_ccmds`, for at most the given
number of turns: the queue after it and the entries it posted. `sqhd` is the
head of the queue that a request came from. -/
def post_ccmds (sqhd : Req → Nat) (cq : NvmeCQueue) : Nat → Option (NvmeCQueue × List Posting)
  | 0 => some (cq, [])
  | n + 1 =>
    if cq.pending.head = cq.pending.tail then some (cq, [])
    -- The size of a deleted queue is 0, and it is a modulus in `nvme_cq_full`.
    else if cq.size = 0 then none
    else if cq.nvme_cq_full then some (cq, [])
    else
      let req := cq.pending.objs cq.pending.head
      (post_ccmds sqhd cq.takePending n).map fun (cq', postings) =>
        (cq', postingOf cq (sqhd req) req :: postings)

/-- `post_admin_ccmds` and `post_io_ccmds`. Each turn takes one pending request, so
`pending.size` turns are enough. -/
def postAll (sqhd : Req → Nat) (cq : NvmeCQueue) : Option (NvmeCQueue × List Posting) :=
  post_ccmds sqhd cq cq.pending.size

/-- `enqueue_admin_ccmd` on its queue: it does not look whether the ring is full. -/
def NvmeCQueue.enqueueAdmin (sqhd : Req → Nat) (req : Req) (cq : NvmeCQueue) :
    Option (NvmeCQueue × List Posting) :=
  (cq.pushPending req).bind (postAll sqhd)

/-- `enqueue_io_ccmd` on its queue: on a full ring it prints an error and drops
the request. -/
def NvmeCQueue.enqueueIo (sqhd : Req → Nat) (req : Req) (cq : NvmeCQueue) :
    Option (NvmeCQueue × List Posting) :=
  if cq.pending.size = 0 then none
  else if cq.pendingFull then some (cq, [])
  else (cq.pushPending req).bind (postAll sqhd)

/-! ## The queue by its counters -/

/-- The phase of posting number `p`: 1 on the first turn of the queue. -/
def phaseAt (n p : Nat) : Bool := p / n % 2 == 0

/-- The queue has had `p` postings, the host has released `d` of them, and the
requests of `l` are pending. -/
structure CQAt (cq : NvmeCQueue) (p d : Nat) (l : List Req) : Prop where
  size : 2 ≤ cq.size
  tail : cq.tail = p % cq.size
  phase : cq.phase = phaseAt cq.size p
  head : cq.head = d % cq.size
  released : d ≤ p
  room : p < d + cq.size
  pending_size : cq.pending.size = cq.size
  pending : cq.pending.Holds l

section Counters

variable {cq : NvmeCQueue} {p d : Nat} {l : List Req} {req : Req}

theorem phaseAt_succ_of_wrap {n : Nat} (hn : 0 < n) (h : p % n + 1 = n) :
    phaseAt n (p + 1) = !phaseAt n p := by
  have hdiv : (p + 1) / n = p / n + 1 := by
    have hp := Nat.div_add_mod p n
    rw [show p + 1 = n * (p / n + 1) by rw [Nat.mul_succ]; omega, Nat.mul_div_cancel_left _ hn]
  unfold phaseAt
  rw [hdiv]
  rcases Nat.mod_two_eq_zero_or_one (p / n) with h2 | h2
  · simp [h2, Nat.add_mod]
  · simp [h2, Nat.add_mod]

theorem phaseAt_succ_of_lt {n : Nat} (h : p % n + 1 < n) : phaseAt n (p + 1) = phaseAt n p := by
  have hn : 0 < n := by omega
  have hdiv : (p + 1) / n = p / n := by
    have hp := Nat.div_add_mod p n
    rw [show p + 1 = n * (p / n) + (p % n + 1) by omega, Nat.mul_add_div hn,
      Nat.div_eq_of_lt h, Nat.add_zero]
  unfold phaseAt
  rw [hdiv]

/-- One turn of the queue flips the phase. -/
theorem phaseAt_add_size {n : Nat} (hn : 0 < n) (p : Nat) : phaseAt n (p + n) = !phaseAt n p := by
  unfold phaseAt
  rw [Nat.add_div_right p hn]
  rcases Nat.mod_two_eq_zero_or_one (p / n) with h2 | h2
  · simp [h2, Nat.add_mod]
  · simp [h2, Nat.add_mod]

theorem CQAt.full_iff (h : CQAt cq p d l) : cq.nvme_cq_full = true ↔ p + 1 = d + cq.size := by
  obtain ⟨hsize, htail, -, hhead, hle, hroom, -, -⟩ := h
  unfold NvmeCQueue.nvme_cq_full
  rw [beq_iff_eq, htail, hhead, Nat.mod_add_mod]
  -- Two counters less than one turn apart, so the equality is an equality of places.
  constructor
  · intro he
    obtain ⟨k, rfl⟩ := Nat.exists_eq_add_of_le hle
    rcases Nat.lt_or_ge (k + 1) cq.size with hlt | hge
    · have : (d + (k + 1)) % cq.size = (d + 0) % cq.size := by rwa [Nat.add_zero, ← Nat.add_assoc]
      have := wrap_inj hlt (by omega) this
      omega
    · omega
  · intro he
    rw [he, Nat.add_mod_right]

/-- One posting: the tail and the phase follow the counter. -/
theorem CQAt.takePending (h : CQAt cq p d (req :: l)) (hroom : p + 1 < d + cq.size) :
    CQAt cq.takePending (p + 1) d l := by
  obtain ⟨hsize, htail, hphase, hhead, hle, -, hpsize, hpend⟩ := h
  have hmod := Nat.mod_lt p (show 0 < cq.size by omega)
  unfold NvmeCQueue.takePending NvmeCQueue.inc_cq_tail
  by_cases hwrap : p % cq.size + 1 = cq.size
  · rw [if_pos (show cq.tail + 1 ≥ cq.size by omega)]
    refine ⟨hsize, ?_, ?_, hhead, by omega, hroom, hpsize, hpend.pop⟩
    · show 0 = (p + 1) % cq.size
      rw [Nat.add_mod, Nat.mod_eq_of_lt (show 1 < cq.size by omega), hwrap, Nat.mod_self]
    · show (!cq.phase) = _
      rw [hphase, phaseAt_succ_of_wrap (by omega) hwrap]
  · rw [if_neg (show ¬ cq.tail + 1 ≥ cq.size by omega)]
    refine ⟨hsize, ?_, ?_, hhead, by omega, hroom, hpsize, hpend.pop⟩
    · show cq.tail + 1 = (p + 1) % cq.size
      rw [htail, Nat.add_mod p, Nat.mod_eq_of_lt (show 1 < cq.size by omega),
        Nat.mod_eq_of_lt (show p % cq.size + 1 < cq.size by omega)]
    · show cq.phase = _
      rw [hphase, phaseAt_succ_of_lt (show p % cq.size + 1 < cq.size by omega)]

end Counters

/-! ## The posting loop -/

/-- The fields that no posting changes. -/
structure SameQueue (cq cq' : NvmeCQueue) : Prop where
  irq_enabled : cq'.irq_enabled = cq.irq_enabled
  cqid : cq'.cqid = cq.cqid
  head : cq'.head = cq.head
  vector : cq'.vector = cq.vector
  size : cq'.size = cq.size
  hostAddr : cq'.hostAddr = cq.hostAddr
  pending_size : cq'.pending.size = cq.pending.size

theorem SameQueue.refl (cq : NvmeCQueue) : SameQueue cq cq := ⟨rfl, rfl, rfl, rfl, rfl, rfl, rfl⟩

theorem SameQueue.trans {a b c : NvmeCQueue} (h : SameQueue a b) (h' : SameQueue b c) :
    SameQueue a c :=
  ⟨h'.1.trans h.1, h'.2.trans h.2, h'.3.trans h.3, h'.4.trans h.4, h'.5.trans h.5,
    h'.6.trans h.6, h'.7.trans h.7⟩

theorem sameQueue_takePending (cq : NvmeCQueue) : SameQueue cq cq.takePending := by
  unfold NvmeCQueue.takePending NvmeCQueue.inc_cq_tail
  split <;> exact ⟨rfl, rfl, rfl, rfl, rfl, rfl, rfl⟩

/-- Posting number `p` of the queue. -/
def postingAt (cq : NvmeCQueue) (sqhd : Req → Nat) (p : Nat) (req : Req) : Posting :=
  { postingOf cq (sqhd req) req with
    cqe := p % cq.size, ccmd := ccmdOf (phaseAt cq.size p) (sqhd req) req }

/-- The postings of the requests of a list, from number `p` on. -/
def postingsFrom (cq : NvmeCQueue) (sqhd : Req → Nat) (p : Nat) : List Req → List Posting
  | [] => []
  | req :: l => postingAt cq sqhd p req :: postingsFrom cq sqhd (p + 1) l

section Loop

variable {cq cq' : NvmeCQueue} {p d n : Nat} {l : List Req} {req : Req} {sqhd : Req → Nat}

/-- A queue that was just set up has no postings and nothing pending. -/
theorem cqAt_setUp (old : NvmeCQueue) (cqid hostAddr irq_enabled vector : Nat) (hn : 2 ≤ n) :
    CQAt (old.setUp cqid n hostAddr irq_enabled vector) 0 0 [] := by
  refine ⟨hn, (Nat.zero_mod n).symm, ?_, (Nat.zero_mod n).symm, le_refl 0, ?_, rfl, ?_⟩
  · simp [NvmeCQueue.setUp, phaseAt]
  · show 0 < 0 + n
    omega
  · apply RingBuffer.holds_nil
    · show 0 < n
      omega
    · show 0 < n
      omega
    · rfl

theorem SameQueue.postingAt (h : SameQueue cq cq') : postingAt cq' sqhd p req =
    S4Sim.postingAt cq sqhd p req := by
  simp [S4Sim.postingAt, postingOf, h.size, h.cqid, h.hostAddr, h.vector, h.irq_enabled]

theorem SameQueue.postingsFrom (h : SameQueue cq cq') :
    postingsFrom cq' sqhd p l = S4Sim.postingsFrom cq sqhd p l := by
  induction l generalizing p with
  | nil => rfl
  | cons req l ih => rw [S4Sim.postingsFrom, S4Sim.postingsFrom, h.postingAt, ih]

theorem CQAt.postingOf_eq (h : CQAt cq p d l) (sqhd : Req → Nat) (req : Req) :
    postingOf cq (sqhd req) req = postingAt cq sqhd p req := by
  simp [postingAt, postingOf, h.tail, h.phase]

theorem map_req_postingsFrom : (postingsFrom cq sqhd p l).map Posting.req = l := by
  induction l generalizing p with
  | nil => rfl
  | cons req l ih => rw [postingsFrom, List.map_cons, ih]; rfl

/-- The number of pending requests that the loop posts: as many as the queue has
free slots. -/
def postable (cq : NvmeCQueue) (p d : Nat) (l : List Req) : Nat :=
  min (d + cq.size - 1 - p) l.length

theorem post_ccmds_spec (h : CQAt cq p d l) (hn : l.length ≤ n) :
    ∃ cq', post_ccmds sqhd cq n =
        some (cq', postingsFrom cq sqhd p (l.take (postable cq p d l))) ∧
      SameQueue cq cq' ∧ CQAt cq' (p + postable cq p d l) d (l.drop (postable cq p d l)) := by
  induction n generalizing cq p l with
  | zero =>
    have hnil := List.length_eq_zero_iff.mp (Nat.le_zero.mp hn)
    subst hnil
    exact ⟨cq, by simp [post_ccmds, postingsFrom], .refl cq, by simpa [postable] using h⟩
  | succ n ih =>
    have hsize := h.size
    cases l with
    | nil =>
      refine ⟨cq, ?_, .refl cq, by simpa [postable] using h⟩
      rw [post_ccmds, if_pos (h.pending.empty_iff.mpr rfl)]
      simp [postingsFrom]
    | cons req l =>
      have hne : cq.pending.head ≠ cq.pending.tail := by
        simp [h.pending.empty_iff]
      rw [post_ccmds, if_neg hne, if_neg (by omega)]
      by_cases hfull : cq.nvme_cq_full = true
      · have hzero : postable cq p d (req :: l) = 0 := by
          have := h.full_iff.mp hfull
          unfold postable
          omega
        rw [if_pos hfull, hzero]
        exact ⟨cq, by simp [postingsFrom], .refl cq, by simpa using h⟩
      · have hlt : p + 1 < d + cq.size := by
          have := h.room
          have := mt h.full_iff.mpr hfull
          omega
        have hnext := h.takePending hlt
        have hsame := sameQueue_takePending cq
        have hsucc : postable cq p d (req :: l) = postable cq.takePending (p + 1) d l + 1 := by
          unfold postable
          rw [hsame.size, List.length_cons]
          omega
        obtain ⟨cq', hpost, hsame', hat⟩ := ih hnext (by simpa using hn)
        rw [if_neg hfull, hpost, hsucc]
        refine ⟨cq', ?_, hsame.trans hsame', ?_⟩
        · simp only [Option.map_some, List.take_succ_cons, postingsFrom, h.pending.head_eq,
            h.postingOf_eq, hsame.postingsFrom]
        · rw [List.drop_succ_cons, show p + (postable cq.takePending (p + 1) d l + 1) =
            p + 1 + postable cq.takePending (p + 1) d l by omega]
          exact hat

theorem postAll_spec (sqhd : Req → Nat) (h : CQAt cq p d l) :
    ∃ cq', postAll sqhd cq = some (cq', postingsFrom cq sqhd p (l.take (postable cq p d l))) ∧
      SameQueue cq cq' ∧ CQAt cq' (p + postable cq p d l) d (l.drop (postable cq p d l)) := by
  apply post_ccmds_spec h
  have := h.pending.1
  omega

theorem CQAt.pushPending (req : Req) (h : CQAt cq p d l) (hroom : l.length + 1 < cq.size)
    (hin : cq.pending.tail < INTERNAL_IO_REQ_QUEUE) :
    ∃ cq', cq.pushPending req = some cq' ∧ SameQueue cq cq' ∧ CQAt cq' p d (l ++ [req]) := by
  obtain ⟨hsize, htail, hphase, hhead, hle, hlt, hpsize, hpend⟩ := h
  refine ⟨{ cq with pending := cq.pending.push req }, ?_, ⟨rfl, rfl, rfl, rfl, rfl, rfl, rfl⟩,
    hsize, htail, hphase, hhead, hle, hlt, hpsize, hpend.push (by omega)⟩
  unfold NvmeCQueue.pushPending
  rw [if_pos ⟨hin, by omega⟩]

/-- The ring is full when it holds one request less than the queue has slots. -/
theorem CQAt.pendingFull_iff (h : CQAt cq p d l) :
    cq.pendingFull = true ↔ l.length + 1 = cq.size := by
  unfold NvmeCQueue.pendingFull
  rw [beq_iff_eq, h.pending.full_iff, h.pending_size]

theorem CQAt.pending_length_lt (h : CQAt cq p d l) : l.length < cq.size := by
  have := h.pending.1
  have := h.pending_size
  omega

/-- A call of `m + n` turns is a call of `m` turns and then one of `n` turns. -/
theorem post_ccmds_add (m n : Nat) :
    post_ccmds sqhd cq (m + n) = (post_ccmds sqhd cq m).bind fun (cq', ps) =>
      (post_ccmds sqhd cq' n).map fun (cq'', ps') => (cq'', ps ++ ps') := by
  induction m generalizing cq with
  | zero => simp [post_ccmds]
  | succ m ih =>
    rw [Nat.add_right_comm, post_ccmds, post_ccmds]
    -- A loop that has ended does not start again.
    by_cases hempty : cq.pending.head = cq.pending.tail
    · cases n <;> simp [hempty, post_ccmds]
    · by_cases hsize : cq.size = 0
      · simp [hempty, hsize]
      · by_cases hfull : cq.nvme_cq_full = true
        · cases n <;> simp [hempty, hsize, hfull, post_ccmds]
        · rw [if_neg hempty, if_neg hsize, if_neg hfull, if_neg hempty, if_neg hsize, if_neg hfull,
            ih]
          cases post_ccmds sqhd cq.takePending m with
          | none => rfl
          | some r =>
            obtain ⟨cq1, ps1⟩ := r
            cases h : post_ccmds sqhd cq1 n <;> simp [h]

theorem phase_bit (phase : Bool) (sqhd : Nat) :
    (ccmdOf phase sqhd req).status_p % 2 = phase.toNat := by
  show (req.status <<< 1 ||| phase.toNat) % 2 ^ 16 % 2 = phase.toNat
  have hlt : phase.toNat < 2 ^ 1 := by cases phase <;> decide
  rw [← Nat.shiftLeft_add_eq_or_of_lt hlt, Nat.shiftLeft_eq]
  omega

end Loop

end S4Sim
