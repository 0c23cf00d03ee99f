-- The queue between two threads on two cores, from issd_kernel.h and
-- issd_kernel.c. One thread pushes and one thread pops, and every assignment to
-- an entry, to `tail` or to `head` is a step of its own. Both indices advance
-- in two assignments, so the other thread can see the value `MSG_Q_SIZE`. Each
-- test is right as long as it does not meet that value at the wrap.
import S4Sim.Lib.Run

open Runs

namespace S4Sim

/-- The entries of a queue between two threads. -/
def MSG_Q_SIZE : Nat := 256

/-! ## The queue -/

/-- An entry of `obj_queue_t`. -/
structure QueueEntry where
  obj_ptr : Nat
  obj_type : Nat
  deriving DecidableEq, Repr

/-- The next assignment of `__push_obj_to_queue`. -/
inductive PushPc
  | idle
  | set_obj_ptr (x : QueueEntry)
  | set_obj_type (x : QueueEntry)
  | inc_tail (x : QueueEntry)
  | wrap_tail
  deriving DecidableEq, Repr

/-- The next assignment of `__pop_obj_from_queue`, and then of `run_thread`, which
reads the entry. -/
inductive PopPc
  | idle
  | inc_head (entry_index : Nat)
  | wrap_head (entry_index : Nat)
  | read_obj_ptr (entry_index : Nat)
  | read_obj_type (entry_index obj_ptr : Nat)
  deriving DecidableEq, Repr

/-- `tail` is between its two assignments. -/
def PushPc.wrapping : PushPc → Bool
  | .wrap_tail => true
  | .idle | .set_obj_ptr _ | .set_obj_type _ | .inc_tail _ => false

theorem PushPc.eq_wrap_tail {pc : PushPc} (h : pc.wrapping = true) : pc = .wrap_tail := by
  cases pc <;> first | rfl | cases h

/-- `head` is between its two assignments. -/
def PopPc.wrapping : PopPc → Bool
  | .wrap_head _ => true
  | .idle | .inc_head _ | .read_obj_ptr _ | .read_obj_type .. => false

/-- The queue with its two threads. `pushed` and `popped` are not in the source: the
pairs in the order of the steps `tail ++`, and the pairs that `run_thread` has read. -/
structure MsgQueue where
  tail : Nat
  head : Nat
  entries : Nat → QueueEntry
  pusher : PushPc
  popper : PopPc
  pushed : List QueueEntry
  popped : List QueueEntry

namespace MsgQueue

/-- The queue after `sys_create_obj_queue`. The entries hold anything. -/
def create (entries : Nat → QueueEntry) : MsgQueue := ⟨0, 0, entries, .idle, .idle, [], []⟩

variable (q : MsgQueue)

def setEntry (i : Nat) (x : QueueEntry) : MsgQueue :=
  { q with entries := Function.update q.entries i x }

/-- A step of the pushing thread. `x` is what it pushes when no push is under way. A push
to a full queue returns -1. -/
def pushStep (x : QueueEntry) : MsgQueue :=
  match q.pusher with
  | .idle =>
    if q.head = (q.tail + 1) % MSG_Q_SIZE then q else { q with pusher := .set_obj_ptr x }
  | .set_obj_ptr x =>
    { q.setEntry q.tail { q.entries q.tail with obj_ptr := x.obj_ptr } with
      pusher := .set_obj_type x }
  | .set_obj_type x =>
    { q.setEntry q.tail { q.entries q.tail with obj_type := x.obj_type } with
      pusher := .inc_tail x }
  | .inc_tail x => { q with tail := q.tail + 1, pusher := .wrap_tail, pushed := q.pushed ++ [x] }
  | .wrap_tail => { q with tail := q.tail % MSG_Q_SIZE, pusher := .idle }

/-- A step of the popping thread. A pop from an empty queue returns -1. -/
def popStep : MsgQueue :=
  match q.popper with
  | .idle => if q.head = q.tail then q else { q with popper := .inc_head q.head }
  | .inc_head i => { q with head := q.head + 1, popper := .wrap_head i }
  | .wrap_head i => { q with head := q.head % MSG_Q_SIZE, popper := .read_obj_ptr i }
  | .read_obj_ptr i => { q with popper := .read_obj_type i (q.entries i).obj_ptr }
  | .read_obj_type i obj_ptr =>
    { q with popper := .idle, popped := q.popped ++ [⟨obj_ptr, (q.entries i).obj_type⟩] }

end MsgQueue

inductive QueueAction
  | push (x : QueueEntry)
  | pop

def msgQueueStep (q : MsgQueue) : QueueAction → Option MsgQueue
  | .push x => some (q.pushStep x)
  | .pop => some q.popStep

/-! ## The invariant -/

namespace MsgQueue

/-- The number of the entries that `head` has passed. -/
def taken (q : MsgQueue) : Nat :=
  match q.popper with
  | .idle | .inc_head _ => q.popped.length
  | .wrap_head _ | .read_obj_ptr _ | .read_obj_type .. => q.popped.length + 1

/-- A prefix goes on with the next item of the list. -/
theorem prefix_snoc {α : Type*} {l m : List α} {x : α} (h : l <+: m) (hx : m[l.length]? = some x) :
    l ++ [x] <+: m := by
  obtain ⟨r, rfl⟩ := h
  rw [List.getElem?_append_right (Nat.le_refl _), Nat.sub_self] at hx
  cases r with
  | nil => cases hx
  | cons y r =>
    cases hx
    exact ⟨r, by simp⟩

theorem taken_pos {q : MsgQueue} (h : q.popper.wrapping = true) : 0 < q.taken := by
  unfold taken
  cases hpc : q.popper with
  | wrap_head i => exact Nat.succ_pos _
  | _ => rw [hpc] at h; cases h

/-- The value of an index that has passed `n` entries. Between its two assignments it
can be `MSG_Q_SIZE`. -/
def indexAt (wrapping : Bool) (n : Nat) : Nat :=
  if wrapping then (n - 1) % MSG_Q_SIZE + 1 else n % MSG_Q_SIZE

/-- There is a free entry, and what the push under way has written to it. -/
def PusherGood (q : MsgQueue) : Prop :=
  match q.pusher with
  | .idle | .wrap_tail => True
  | .set_obj_ptr _ => q.pushed.length + 1 < q.taken + MSG_Q_SIZE
  | .set_obj_type x =>
    q.pushed.length + 1 < q.taken + MSG_Q_SIZE ∧ (q.entries q.tail).obj_ptr = x.obj_ptr
  | .inc_tail x => q.pushed.length + 1 < q.taken + MSG_Q_SIZE ∧ q.entries q.tail = x

/-- The popping thread has an entry that was pushed. -/
def PopperGood (q : MsgQueue) : Prop :=
  match q.popper with
  | .idle => True
  | .inc_head i => i = q.popped.length % MSG_Q_SIZE ∧ q.popped.length < q.pushed.length
  | .wrap_head i | .read_obj_ptr i => i = q.popped.length % MSG_Q_SIZE
  | .read_obj_type i obj_ptr =>
    i = q.popped.length % MSG_Q_SIZE ∧ obj_ptr = (q.entries i).obj_ptr

/-- The entries from the first one that is not read up to `tail` hold what was pushed. -/
structure Fifo (q : MsgQueue) : Prop where
  head : q.head = indexAt q.popper.wrapping q.taken
  tail : q.tail = indexAt q.pusher.wrapping q.pushed.length
  started : q.pusher = .wrap_tail → 0 < q.pushed.length
  taken_le : q.taken ≤ q.pushed.length
  room : q.pushed.length < q.taken + MSG_Q_SIZE
  entries : ∀ j, q.popped.length ≤ j → j < q.pushed.length →
    q.pushed[j]? = some (q.entries (j % MSG_Q_SIZE))
  popped : q.popped <+: q.pushed
  pusher : q.PusherGood
  popper : q.PopperGood

theorem fifo_create (entries : Nat → QueueEntry) : (create entries).Fifo := by
  refine ⟨rfl, rfl, by simp [create], Nat.le_refl _, ?_, ?_, List.prefix_rfl, trivial,
    trivial⟩
  · show 0 < 0 + MSG_Q_SIZE
    decide
  · intro j _ hj
    exact absurd hj (Nat.not_lt_zero j)

variable {q : MsgQueue}

theorem taken_le_popped (q : MsgQueue) : q.taken ≤ q.popped.length + 1 := by
  unfold taken
  split <;> omega

/-- The entry at `tail` holds no pair that is still to be read. -/
theorem Fifo.tail_free (h : q.Fifo) (hw : q.pusher.wrapping = false)
    (hroom : q.pushed.length + 1 < q.taken + MSG_Q_SIZE) {j : Nat} (hj : q.popped.length ≤ j)
    (hlt : j < q.pushed.length) : j % MSG_Q_SIZE ≠ q.tail := by
  have htail := h.tail
  have htaken := q.taken_le_popped
  rw [hw] at htail
  simp only [indexAt, MSG_Q_SIZE, Bool.false_eq_true, if_false] at htail hroom ⊢
  omega

/-- The full test of a push, when it does not meet `head` at the wrap with one entry left. -/
theorem Fifo.push_test (h : q.Fifo) (hpc : q.pusher = .idle)
    (hsettled : ¬ (q.head = MSG_Q_SIZE ∧ q.tail + 1 = MSG_Q_SIZE))
    (htest : q.head ≠ (q.tail + 1) % MSG_Q_SIZE) :
    q.pushed.length + 1 < q.taken + MSG_Q_SIZE := by
  have hhead := h.head
  have htail := h.tail
  have hle := h.taken_le
  have hroom := h.room
  rw [hpc] at htail
  cases hw : q.popper.wrapping with
  | false =>
    rw [hw] at hhead
    simp only [indexAt, MSG_Q_SIZE, PushPc.wrapping, Bool.false_eq_true, if_false] at *
    omega
  | true =>
    rw [hw] at hhead
    simp only [indexAt, MSG_Q_SIZE, PushPc.wrapping, Bool.false_eq_true, if_false, if_true] at *
    have hpos := taken_pos hw
    omega

/-- The empty test of a pop, when it does not meet `tail` at the wrap with nothing left. -/
theorem Fifo.pop_test (h : q.Fifo) (hpc : q.popper = .idle)
    (hsettled : ¬ (q.tail = MSG_Q_SIZE ∧ q.head = 0)) (htest : q.head ≠ q.tail) :
    q.popped.length < q.pushed.length := by
  have hhead := h.head
  have htail := h.tail
  have hle := h.taken_le
  have htaken : q.taken = q.popped.length := by
    unfold taken
    rw [hpc]
  rw [hpc, htaken] at hhead
  rw [htaken] at hle
  by_contra hge
  have heq : q.pushed.length = q.popped.length := by omega
  cases hw : q.pusher.wrapping with
  | false =>
    rw [hw, heq] at htail
    exact htest (hhead.trans htail.symm)
  | true =>
    have hpos := h.started (PushPc.eq_wrap_tail hw)
    rw [hw, heq] at htail
    rw [heq] at hpos
    simp only [indexAt, MSG_Q_SIZE, PopPc.wrapping, Bool.false_eq_true, if_false, if_true] at *
    omega

/-! ## One step -/

theorem Fifo.set_tail_entry (h : q.Fifo) (hw : q.pusher.wrapping = false)
    (hroom : q.pushed.length + 1 < q.taken + MSG_Q_SIZE) (x : QueueEntry) :
    ∀ j, q.popped.length ≤ j → j < q.pushed.length →
      q.pushed[j]? = some (Function.update q.entries q.tail x (j % MSG_Q_SIZE)) := by
  intro j hj hlt
  rw [Function.update_of_ne (h.tail_free hw hroom hj hlt)]
  exact h.entries j hj hlt

/-- The popping thread does not see what is written to the entry at `tail`. -/
theorem Fifo.popper_set_tail (h : q.Fifo) (hw : q.pusher.wrapping = false)
    (hroom : q.pushed.length + 1 < q.taken + MSG_Q_SIZE) (x : QueueEntry) (pc : PushPc) :
    PopperGood { q.setEntry q.tail x with pusher := pc } := by
  have hpopper := h.popper
  cases hpc : q.popper with
  | read_obj_type i obj_ptr =>
    simp only [PopperGood, setEntry, hpc] at hpopper ⊢
    obtain ⟨hi, hptr⟩ := hpopper
    refine ⟨hi, ?_⟩
    have hle := h.taken_le
    have htaken : q.taken = q.popped.length + 1 := by simp [taken, hpc]
    have hne := h.tail_free hw hroom (Nat.le_refl _) (by omega)
    rw [hptr, hi, Function.update_of_ne hne]
  | idle => simp only [PopperGood, setEntry, hpc]
  | _ => simpa only [PopperGood, setEntry, hpc] using hpopper

theorem fifo_pushStep (h : q.Fifo) (x : QueueEntry)
    (hsettled : q.pusher = .idle → ¬ (q.head = MSG_Q_SIZE ∧ q.tail + 1 = MSG_Q_SIZE)) :
    (q.pushStep x).Fifo := by
  have hpusher := h.pusher
  unfold PusherGood at hpusher
  have htail := h.tail
  cases hpc : q.pusher with
  | idle =>
    simp only [pushStep, hpc]
    split
    · exact h
    · rename_i htest
      rw [hpc] at htail
      exact ⟨h.head, htail, by simp, h.taken_le, h.room, h.entries, h.popped,
        h.push_test hpc (hsettled hpc) htest, h.popper⟩
  | set_obj_ptr y =>
    have hw : q.pusher.wrapping = false := by rw [hpc]; rfl
    rw [hpc] at hpusher htail
    simp only [pushStep, hpc]
    exact ⟨h.head, htail, by simp, h.taken_le, h.room, h.set_tail_entry hw hpusher _, h.popped,
      ⟨hpusher, by simp [setEntry]⟩, h.popper_set_tail hw hpusher _ _⟩
  | set_obj_type y =>
    have hw : q.pusher.wrapping = false := by rw [hpc]; rfl
    rw [hpc] at hpusher htail
    obtain ⟨hroom, hptr⟩ := hpusher
    simp only [pushStep, hpc]
    refine ⟨h.head, htail, by simp, h.taken_le, h.room, h.set_tail_entry hw hroom _, h.popped,
      ⟨hroom, ?_⟩, h.popper_set_tail hw hroom _ _⟩
    simp [setEntry, hptr]
  | inc_tail y =>
    have hlen := h.taken_le
    rw [hpc] at hpusher htail
    obtain ⟨hroom, hentry⟩ := hpusher
    have htail' : q.tail = q.pushed.length % MSG_Q_SIZE := htail
    simp only [pushStep, hpc]
    refine ⟨h.head, ?_, by simp, ?_, ?_, ?_, h.popped.trans (List.prefix_append _ _), trivial, ?_⟩
    · simp [indexAt, PushPc.wrapping, htail']
    · show q.taken ≤ (q.pushed ++ [y]).length
      rw [List.length_append]
      omega
    · show (q.pushed ++ [y]).length < q.taken + MSG_Q_SIZE
      rw [List.length_append, List.length_singleton]
      exact hroom
    · intro j hj hlt
      simp only [List.length_append, List.length_singleton] at hlt
      simp only at hj
      rcases Nat.lt_or_ge j q.pushed.length with hold | hge
      · rw [List.getElem?_append_left hold]
        exact h.entries j hj hold
      · have hj' : j = q.pushed.length := by omega
        rw [hj', List.getElem?_concat_length, ← htail', hentry]
    · have hpopper := h.popper
      unfold PopperGood at hpopper ⊢
      cases hpop : q.popper with
      | inc_head i =>
        simp only [hpop, List.length_append] at hpopper ⊢
        exact ⟨hpopper.1, by omega⟩
      | idle => trivial
      | _ => simpa only [hpop] using hpopper
  | wrap_tail =>
    have hpos := h.started hpc
    rw [hpc] at htail
    simp only [pushStep, hpc]
    refine ⟨h.head, ?_, by simp, h.taken_le, h.room, h.entries, h.popped, trivial, h.popper⟩
    simp only [indexAt, PushPc.wrapping, MSG_Q_SIZE, if_true, Bool.false_eq_true, if_false] at *
    omega

theorem fifo_popStep (h : q.Fifo)
    (hsettled : q.popper = .idle → ¬ (q.tail = MSG_Q_SIZE ∧ q.head = 0)) : q.popStep.Fifo := by
  have hpopper := h.popper
  have hpusher := h.pusher
  have hhead := h.head
  have hroom := h.room
  have hle := h.taken_le
  unfold PopperGood at hpopper
  unfold PusherGood at hpusher
  cases hpc : q.popper with
  | idle =>
    have htaken : q.taken = q.popped.length := by simp [taken, hpc]
    simp only [popStep, hpc]
    split
    · exact h
    · rename_i htest
      rw [hpc, htaken] at hhead
      rw [htaken] at hroom hle hpusher
      have hlt := h.pop_test hpc (hsettled hpc) htest
      exact ⟨hhead, h.tail, h.started, hle, hroom, h.entries, h.popped, hpusher, hhead, hlt⟩
  | inc_head i =>
    have htaken : q.taken = q.popped.length := by simp [taken, hpc]
    simp only [hpc] at hpopper
    rw [hpc, htaken] at hhead
    rw [htaken] at hroom hpusher
    simp only [popStep, hpc]
    refine ⟨?_, h.tail, h.started, hpopper.2, ?_, h.entries, h.popped, ?_, hpopper.1⟩
    · simpa [indexAt, PopPc.wrapping, taken] using hhead
    · show q.pushed.length < q.popped.length + 1 + MSG_Q_SIZE
      omega
    · unfold PusherGood
      cases hpush : q.pusher with
      | idle | wrap_tail => trivial
      | set_obj_ptr x =>
        simp only [hpush, taken] at hpusher ⊢
        omega
      | set_obj_type x | inc_tail x =>
        simp only [hpush, taken] at hpusher ⊢
        exact ⟨by omega, hpusher.2⟩
  | wrap_head i =>
    have htaken : q.taken = q.popped.length + 1 := by simp [taken, hpc]
    simp only [hpc] at hpopper
    rw [hpc, htaken] at hhead
    rw [htaken] at hroom hle hpusher
    simp only [popStep, hpc]
    refine ⟨?_, h.tail, h.started, hle, hroom, h.entries, h.popped, hpusher, hpopper⟩
    simp only [indexAt, PopPc.wrapping, MSG_Q_SIZE, taken, if_true, Bool.false_eq_true,
      if_false] at *
    omega
  | read_obj_ptr i =>
    have htaken : q.taken = q.popped.length + 1 := by simp [taken, hpc]
    simp only [hpc] at hpopper
    rw [hpc, htaken] at hhead
    rw [htaken] at hroom hle hpusher
    simp only [popStep, hpc]
    exact ⟨hhead, h.tail, h.started, hle, hroom, h.entries, h.popped, hpusher, hpopper, rfl⟩
  | read_obj_type i obj_ptr =>
    have htaken : q.taken = q.popped.length + 1 := by simp [taken, hpc]
    simp only [hpc] at hpopper
    obtain ⟨hi, hptr⟩ := hpopper
    rw [hpc, htaken] at hhead
    rw [htaken] at hroom hle hpusher
    have hentry := h.entries q.popped.length (Nat.le_refl _) hle
    simp only [popStep, hpc]
    refine ⟨?_, h.tail, h.started, ?_, ?_, ?_, ?_, ?_, trivial⟩
    · simpa [indexAt, PopPc.wrapping, taken] using hhead
    · simpa [taken] using hle
    · simpa [taken] using hroom
    · intro j hj hlt
      simp only [List.length_append, List.length_singleton] at hj
      exact h.entries j (by omega) hlt
    · -- The pair that was read is the next one of those pushed.
      rw [hptr, hi]
      exact prefix_snoc h.popped hentry
    · simpa [PusherGood, taken] using hpusher

end MsgQueue

/-! ## The law -/

/-- No test of a push meets `head` between its assignments at the wrap with `tail` on the
last entry, and no test of a pop meets `tail` there with `head` on the first one. -/
def TestsSettled (q : MsgQueue) : QueueAction → Prop
  | .push _ => q.pusher = .idle → ¬ (q.head = MSG_Q_SIZE ∧ q.tail + 1 = MSG_Q_SIZE)
  | .pop => q.popper = .idle → ¬ (q.tail = MSG_Q_SIZE ∧ q.head = 0)

instance (q : MsgQueue) (a : QueueAction) : Decidable (TestsSettled q a) := by
  cases a <;> exact inferInstanceAs (Decidable (_ → _))

theorem run_fifo {entries : Nat → QueueEntry} {acts : List QueueAction} {q : MsgQueue}
    (hok : AllSteps msgQueueStep TestsSettled (.create entries) acts)
    (h : run msgQueueStep (.create entries) acts = some q) : q.Fifo := by
  refine run_invariant_of_ok (I := fun _ q => q.Fifo) (MsgQueue.fifo_create entries) ?_ hok h
  intro acts t a u _ ht hok ha
  cases a with
  | push x =>
    cases ha
    exact MsgQueue.fifo_pushStep ht x hok
  | pop =>
    cases ha
    exact MsgQueue.fifo_popStep ht hok

/-- The popping thread reads what was pushed, in order, in every run whose tests are
settled. -/
theorem the_queue_is_fifo_while_its_tests_are_settled {entries : Nat → QueueEntry}
    {acts : List QueueAction} {q : MsgQueue}
    (hok : AllSteps msgQueueStep TestsSettled (.create entries) acts)
    (h : run msgQueueStep (.create entries) acts = some q) : q.popped <+: q.pushed :=
  (run_fifo hok h).popped

/-- Four pushes, with a step of the popping thread after each of theirs, and the rest of its
last pop. -/
def fourPairs : List QueueAction :=
  ((List.range 4).flatMap fun k => (List.replicate 5 [.push ⟨k, 10 + k⟩, .pop]).flatten) ++
    List.replicate 4 .pop

theorem the_queue_is_fifo_for_four_pairs :
    ∃ q, run msgQueueStep (.create fun _ => ⟨0, 0⟩) fourPairs = some q ∧
      q.popped = [⟨0, 10⟩, ⟨1, 11⟩, ⟨2, 12⟩, ⟨3, 13⟩] ∧ q.popped <+: q.pushed := by
  have hok : AllSteps msgQueueStep TestsSettled (.create fun _ => ⟨0, 0⟩) fourPairs := by decide
  have hrun : (run msgQueueStep (.create fun _ => ⟨0, 0⟩) fourPairs).map MsgQueue.popped =
      some [⟨0, 10⟩, ⟨1, 11⟩, ⟨2, 12⟩, ⟨3, 13⟩] := by decide +kernel
  obtain ⟨q, hq, hpopped⟩ := Option.map_eq_some_iff.mp hrun
  exact ⟨q, hq, hpopped, the_queue_is_fifo_while_its_tests_are_settled hok hq⟩

/-! ## A pop that meets `tail` at the wrap -/

namespace MsgQueue

/-- Both threads are between two calls, and `k` pairs went through the queue. -/
structure Rested (q : MsgQueue) (k : Nat) : Prop where
  head : q.head = k
  tail : q.tail = k
  pusher : q.pusher = .idle
  popper : q.popper = .idle
  pushed : q.pushed.length = k
  popped : q.popped.length = k

end MsgQueue

/-- A push and then a pop, each with its five steps. -/
def queueRound : List QueueAction :=
  List.replicate 5 (.push ⟨0, 0⟩) ++ List.replicate 5 .pop

theorem rested_round {q : MsgQueue} {k : Nat} (h : q.Rested k) (hk : k + 1 < MSG_Q_SIZE) :
    ∃ u, run msgQueueStep q queueRound = some u ∧ u.Rested (k + 1) := by
  obtain ⟨tail, head, entries, pusher, popper, pushed, popped⟩ := q
  obtain ⟨rfl, htail, rfl, rfl, hpushed, hpopped⟩ := h
  simp only at htail hpushed hpopped
  subst htail
  have hmod : (tail + 1) % MSG_Q_SIZE = tail + 1 := Nat.mod_eq_of_lt hk
  refine ⟨_, rfl, ?_⟩
  simp [MsgQueue.pushStep, MsgQueue.popStep, MsgQueue.setEntry, hmod]
  constructor <;> simp [hpushed, hpopped]

theorem rested_rounds (k : Nat) (hk : k < MSG_Q_SIZE) :
    ∃ u, run msgQueueStep (.create fun _ => ⟨0, 0⟩) (List.replicate k queueRound).flatten = some u ∧
      u.Rested k := by
  induction k with
  | zero => exact ⟨_, rfl, rfl, rfl, rfl, rfl, rfl, rfl⟩
  | succ k ih =>
    obtain ⟨t, ht, hrested⟩ := ih (by omega)
    obtain ⟨u, hu, hrested'⟩ := rested_round hrested hk
    refine ⟨u, ?_, hrested'⟩
    rw [List.replicate_succ', List.flatten_append, List.flatten_singleton]
    exact run_append_eq_some.mpr ⟨t, ht, hu⟩

/-- After 255 rounds `tail` is on the last entry. A push stops before its last assignment,
and two pops read its pair and then the first entry once more. -/
def wrapActions : List QueueAction :=
  (List.replicate (MSG_Q_SIZE - 1) queueRound).flatten ++
    (List.replicate 4 (.push ⟨0, 0⟩) ++ List.replicate 10 .pop)

theorem a_pop_at_the_wrap_reads_an_old_entry :
    ¬ ∀ (entries : Nat → QueueEntry) (acts : List QueueAction) (q : MsgQueue),
      run msgQueueStep (.create entries) acts = some q → q.popped <+: q.pushed := by
  intro hall
  obtain ⟨t, ht, hrested⟩ := rested_rounds (MSG_Q_SIZE - 1) (by decide)
  obtain ⟨tail, head, entries, pusher, popper, pushed, popped⟩ := t
  obtain ⟨rfl, rfl, rfl, rfl, hpushed, hpopped⟩ := hrested
  have hlen := (hall _ wrapActions _ (run_append_eq_some.mpr ⟨_, ht, rfl⟩)).length_le
  simp [MsgQueue.pushStep, MsgQueue.popStep, MsgQueue.setEntry, MSG_Q_SIZE] at hlen hpushed hpopped
  omega

end S4Sim
