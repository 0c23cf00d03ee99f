-- Tail door bells. The host submits entries and rings once for one or more of
-- them; `check_door_bell` fetches one entry for each ring. So it fetches all
-- entries exactly when each ring is for one entry.
import S4Sim.Nvme.Driver
import S4Sim.Lib.Run

open Runs

namespace S4Sim

/-- The driver, and the number of entries that the host has submitted to each
submission queue. -/
structure SqSystem where
  driver : Driver
  submitted : Nat → Nat

/-- The host submits `k` entries to queue `q` and rings. `scmd` and `mem` are the
entry that the firmware finds at its head and the host memory then. -/
structure TailUpdate where
  q : Nat
  k : Nat
  scmd : NvmeSCmd
  mem : Mem

/-- The submission queue branch of `check_door_bell`, up to the switch over the opcode. -/
def sqStep (s : SqSystem) (u : TailUpdate) : Option SqSystem :=
  let m := s.submitted u.q + u.k
  ((s.driver.sq_door_bell u.q (m % (s.driver.sqs u.q).size)).bind fun d =>
    d.read_scmd u.q u.scmd u.mem).map fun d =>
      { driver := d, submitted := Function.update s.submitted u.q m }

/-- Each submission queue was just created, and nothing is fetched yet. -/
structure FreshSqs (d : Driver) : Prop where
  size : ∀ q ≤ MAX_IO_SQCQ_PAIRS, 0 < (d.sqs q).size
  head : ∀ q ≤ MAX_IO_SQCQ_PAIRS, (d.sqs q).head = 0
  tail : ∀ q ≤ MAX_IO_SQCQ_PAIRS, (d.sqs q).tail = 0
  fetched : d.fetched = []

/-- The slots of the first `m` entries of a queue of `n` slots. -/
def firstSlots (n m : Nat) : List Nat := (List.range m).map (· % n)

/-- Every submitted entry of queue `q` was fetched once, in queue order, and the
head is the last tail value. -/
def AllFetched (s : SqSystem) (q : Nat) : Prop :=
  s.driver.fetchedFrom q = firstSlots (s.driver.sqs q).size (s.submitted q) ∧
    (s.driver.sqs q).head = (s.driver.sqs q).tail

/-! ## The invariant -/

/-- Queue `q` has had `c` fetches and `m` submissions. -/
structure SqAt (s : SqSystem) (q c m : Nat) : Prop where
  size : 0 < (s.driver.sqs q).size
  fetched : s.driver.fetchedFrom q = firstSlots (s.driver.sqs q).size c
  head : (s.driver.sqs q).head = c % (s.driver.sqs q).size
  tail : (s.driver.sqs q).tail = m % (s.driver.sqs q).size
  submitted : s.submitted q = m

/-- The rings for queue `q`. -/
def ringsOf (q : Nat) (us : List TailUpdate) : List TailUpdate := us.filter (·.q == q)

/-- The entries that the host submitted to queue `q`. -/
def entriesOf (q : Nat) (us : List TailUpdate) : Nat := ((ringsOf q us).map TailUpdate.k).sum

section Steps

variable {s : SqSystem} {q c m n : Nat} {u : TailUpdate} {us : List TailUpdate}

theorem firstSlots_length : (firstSlots n m).length = m := by simp [firstSlots]

theorem firstSlots_succ : firstSlots n (c + 1) = firstSlots n c ++ [c % n] := by
  simp [firstSlots, List.range_succ]

theorem sqAt_fresh {d : Driver} (h : FreshSqs d) (hq : q ≤ MAX_IO_SQCQ_PAIRS) :
    SqAt ⟨d, fun _ => 0⟩ q 0 0 := by
  refine ⟨h.size q hq, ?_, ?_, ?_, rfl⟩
  · simp [Driver.fetchedFrom, h.fetched, firstSlots]
  · simp [h.head q hq]
  · simp [h.tail q hq]

/-- A ring for queue `u.q` fetches one entry there, and no other queue changes. -/
theorem sqStep_spec (hq : u.q ≤ MAX_IO_SQCQ_PAIRS) (h : SqAt s u.q c m) :
    ∃ s', sqStep s u = some s' ∧ SqAt s' u.q (c + 1) (m + u.k) ∧
      ∀ i ≠ u.q, ∀ c m, SqAt s i c m → SqAt s' i c m := by
  obtain ⟨hsize, hfetched, hhead, -, hsub⟩ := h
  simp only [sqStep, Driver.sq_door_bell, if_neg (Nat.not_lt.mpr hq), Option.bind_some,
    Driver.read_scmd, inc_sq_head, Function.update_self,
    if_neg (Nat.pos_iff_ne_zero.mp hsize), Option.map_some]
  refine ⟨_, rfl, ⟨?_, ?_, ?_, ?_, ?_⟩, ?_⟩
  · simpa using hsize
  · simp only [Driver.fetchedFrom] at hfetched ⊢
    simp [hfetched, firstSlots_succ, hhead]
  · simp [hhead, Nat.mod_add_mod]
  · simp [hsub]
  · simp [hsub]
  · rintro i hi c m ⟨hsize, hfetched, hhead, htail, hsub⟩
    have hne : u.q ≠ i := hi.symm
    refine ⟨?_, ?_, ?_, ?_, ?_⟩
    · simpa [hi] using hsize
    · simp only [Driver.fetchedFrom] at hfetched ⊢
      simp [hi, hne, hfetched]
    · simpa [hi] using hhead
    · simpa [hi] using htail
    · simpa [hi] using hsub

/-- After the rings of a run each queue has had one fetch for each of its rings. -/
theorem run_fetches {d : Driver} (h : FreshSqs d) (hq : ∀ u ∈ us, u.q ≤ MAX_IO_SQCQ_PAIRS) :
    ∃ s, run sqStep ⟨d, fun _ => 0⟩ us = some s ∧
      ∀ q ≤ MAX_IO_SQCQ_PAIRS, SqAt s q (ringsOf q us).length (entriesOf q us) := by
  induction us using List.reverseRecOn with
  | nil => exact ⟨_, rfl, fun q hq => sqAt_fresh h hq⟩
  | append_singleton us u ih =>
    obtain ⟨t, ht, hall⟩ := ih fun v hv => hq v (List.mem_append_left _ hv)
    have huq := hq u (by simp)
    obtain ⟨s, hs, hself, hother⟩ := sqStep_spec huq (hall u.q huq)
    refine ⟨s, run_snoc_eq_some.mpr ⟨t, ht, hs⟩, fun q hq => ?_⟩
    by_cases hqu : q = u.q
    · subst hqu
      simpa [ringsOf, entriesOf] using hself
    · have hne : u.q ≠ q := fun he => hqu he.symm
      simpa [ringsOf, entriesOf, hne] using hother q hqu _ _ (hall q hq)

/-- The fetches are all the entries exactly when there are as many. -/
theorem SqAt.allFetched_iff (h : SqAt s q c m) : AllFetched s q ↔ c = m := by
  unfold AllFetched
  rw [h.fetched, h.submitted, h.head, h.tail]
  constructor
  · rintro ⟨hslots, -⟩
    simpa [firstSlots_length] using congrArg List.length hslots
  · rintro rfl
    exact ⟨rfl, rfl⟩

theorem length_le_sum (hpos : ∀ u ∈ us, 1 ≤ u.k) :
    us.length ≤ (us.map TailUpdate.k).sum := by
  induction us with
  | nil => simp
  | cons u us ih =>
    have hu := hpos u List.mem_cons_self
    have ih := ih fun v hv => hpos v (List.mem_cons_of_mem _ hv)
    simp only [List.length_cons, List.map_cons, List.sum_cons]
    omega

/-- As many rings as entries: each ring is for one entry. -/
theorem length_eq_sum_iff (hpos : ∀ u ∈ us, 1 ≤ u.k) :
    us.length = (us.map TailUpdate.k).sum ↔ ∀ u ∈ us, u.k = 1 := by
  induction us with
  | nil => simp
  | cons u us ih =>
    have hu := hpos u List.mem_cons_self
    have hrest : ∀ v ∈ us, 1 ≤ v.k := fun v hv => hpos v (List.mem_cons_of_mem _ hv)
    have hle := length_le_sum hrest
    simp only [List.length_cons, List.map_cons, List.sum_cons, List.forall_mem_cons, ← ih hrest]
    omega

end Steps

/-! ## The law -/

/-- Once the rings of the host are processed, every submitted entry of every
queue was fetched in order exactly when each ring was for one entry. -/
theorem all_entries_are_fetched_iff_each_ring_is_for_one {d : Driver} (hfresh : FreshSqs d)
    (us : List TailUpdate) (hq : ∀ u ∈ us, u.q ≤ MAX_IO_SQCQ_PAIRS) (hpos : ∀ u ∈ us, 1 ≤ u.k) :
    ∃ s, run sqStep ⟨d, fun _ => 0⟩ us = some s ∧
      ((∀ q ≤ MAX_IO_SQCQ_PAIRS, AllFetched s q) ↔ ∀ u ∈ us, u.k = 1) := by
  obtain ⟨s, hs, hall⟩ := run_fetches hfresh hq
  refine ⟨s, hs, ?_⟩
  have hiff : ∀ q ≤ MAX_IO_SQCQ_PAIRS, AllFetched s q ↔ ∀ u ∈ ringsOf q us, u.k = 1 := by
    intro q hq
    rw [(hall q hq).allFetched_iff]
    apply length_eq_sum_iff
    intro u hu
    exact hpos u ((List.mem_filter.mp hu).1)
  constructor
  · intro h u hu
    exact (hiff u.q (hq u hu)).mp (h u.q (hq u hu)) u (by simp [ringsOf, hu])
  · intro h q hq
    exact (hiff q hq).mpr fun u hu => h u ((List.mem_filter.mp hu).1)

/-- Queues of four slots. -/
def fourSlots : Driver := { Driver.zero with sqs := fun q => ⟨q, q, 0, 0, 4, 0⟩ }

theorem freshSqs_fourSlots : FreshSqs fourSlots where
  size _ _ := Nat.zero_lt_succ 3
  head _ _ := rfl
  tail _ _ := rfl
  fetched := rfl

/-- Six rings for one entry each on queue 1, more than it has slots, and three on queue 2. -/
def singleRings : List TailUpdate :=
  [1, 2, 1, 1, 2, 1, 1, 2, 1].map fun q => ⟨q, 1, zeroReq.scmd, fun _ => 0⟩

theorem rings_for_one_entry_on_two_queues :
    ∃ s, run sqStep ⟨fourSlots, fun _ => 0⟩ singleRings = some s ∧
      (∀ q ≤ MAX_IO_SQCQ_PAIRS, AllFetched s q) ∧ s.submitted 1 = 6 ∧ s.submitted 2 = 3 := by
  obtain ⟨s, hs, hiff⟩ := all_entries_are_fetched_iff_each_ring_is_for_one freshSqs_fourSlots
    singleRings (by simp [singleRings, MAX_IO_SQCQ_PAIRS]) (by simp [singleRings])
  refine ⟨s, hs, hiff.mpr (by simp [singleRings]), ?_⟩
  cases hs
  exact ⟨rfl, rfl⟩

/-- One ring for two entries: the second one is not fetched. -/
theorem a_ring_for_two_entries_fetches_one :
    ¬ ∀ (d : Driver), FreshSqs d → ∀ us : List TailUpdate,
      (∀ u ∈ us, u.q ≤ MAX_IO_SQCQ_PAIRS) → (∀ u ∈ us, 1 ≤ u.k) →
        ∃ s, run sqStep ⟨d, fun _ => 0⟩ us = some s ∧
          ∀ q ≤ MAX_IO_SQCQ_PAIRS, AllFetched s q := by
  intro hall
  obtain ⟨s, hs, hfetched⟩ := hall fourSlots freshSqs_fourSlots
    [⟨1, 2, zeroReq.scmd, fun _ => 0⟩] (by simp [MAX_IO_SQCQ_PAIRS]) (by simp)
  cases hs
  have hslots := (hfetched 1 (by decide)).1
  have hlen := congrArg List.length hslots
  revert hlen
  decide

end S4Sim
