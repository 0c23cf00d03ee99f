-- The counters of I/O queues. nvme_driver.c moves `iosqCount` and `iocqCount` at every create
-- and delete command, and its retry loops take the queues 1 to `iocqCount`. That is right
-- only when the host creates and deletes completion queues like a stack.
import Mathlib.Order.Interval.Finset.Nat
import S4Sim.Firmware.MissingQueues

open Runs

namespace S4Sim

/-! ## The queues that exist -/

/-- The ids of I/O queues that were created and not deleted after that. -/
def existing (create delete : Nat) (fetched : List Fetch) : Finset Nat :=
  (Finset.Icc 1 MAX_IO_SQCQ_PAIRS).filter fun q => fetched.foldl (queueStep create delete q) false

def existingSqs : List Fetch → Finset Nat := existing 0x01 0x00

def existingCqs : List Fetch → Finset Nat := existing 0x05 0x04

/-- The turns of the loops of `check_door_bell` over pending completions. -/
def retried (d : Driver) : List Nat := List.range' 1 d.iocqCount

/-- The counters are the numbers of existing queues, and the loops visit the existing
completion queues. -/
structure QueuesCounted (d : Driver) : Prop where
  sqs : d.iosqCount = (existingSqs d.fetched).card
  cqs : d.iocqCount = (existingCqs d.fetched).card
  visits : ∀ q, q ∈ retried d ↔ q ≠ 0 ∧ cqExists d.fetched q = true

/-! ## The condition -/

/-- A submission queue is created when it does not exist and deleted when it does. The
completion queues are created in the order of their ids, and the last one is deleted. -/
def QueueIdInTurn (fetched : List Fetch) (scmd : NvmeSCmd) : Prop :=
  match scmd.opcode.toNat with
  | 0x01 => scmd.qid ≠ 0 ∧ sqExists fetched scmd.qid = false
  | 0x00 => scmd.qid ≠ 0 ∧ sqExists fetched scmd.qid = true
  | 0x05 => scmd.qid = (existingCqs fetched).card + 1
  | 0x04 => scmd.qid ≠ 0 ∧ scmd.qid = (existingCqs fetched).card
  | _ => True

/-- An admin command that the step fetches comes in turn. -/
def FetchesInTurn (s : State) : Action → Prop
  | .nvme env => fetches env s = true → env.Qindex = 0 → QueueIdInTurn s.driver.fetched env.scmd
  | _ => True

theorem queueIdInTurn_iff {fetched : List Fetch} {scmd : NvmeSCmd} :
    QueueIdInTurn fetched scmd ↔
      (scmd.opcode.toNat = 0x01 → scmd.qid ≠ 0 ∧ sqExists fetched scmd.qid = false) ∧
      (scmd.opcode.toNat = 0x00 → scmd.qid ≠ 0 ∧ sqExists fetched scmd.qid = true) ∧
      (scmd.opcode.toNat = 0x05 → scmd.qid = (existingCqs fetched).card + 1) ∧
      (scmd.opcode.toNat = 0x04 → scmd.qid ≠ 0 ∧ scmd.qid = (existingCqs fetched).card) := by
  unfold QueueIdInTurn
  split <;> simp_all

instance (fetched : List Fetch) (scmd : NvmeSCmd) : Decidable (QueueIdInTurn fetched scmd) :=
  decidable_of_iff _ queueIdInTurn_iff.symm

instance (s : State) : (a : Action) → Decidable (FetchesInTurn s a)
  | .nvme env =>
    inferInstanceAs (Decidable (fetches env s = true → env.Qindex = 0 →
      QueueIdInTurn s.driver.fetched env.scmd))
  | .dma _ | .ftl _ _ | .isp_exit | .isp_host_dma _ | .isp_nand_op _ _ _ |
      .isp_function_exited | .isp_pending_dma _ | .isp_msg_out _ => inferInstanceAs (Decidable True)

section Existing

variable {create delete q : Nat} {l : List Fetch} {f : Fetch}

theorem mem_existing :
    q ∈ existing create delete l ↔
      (1 ≤ q ∧ q ≤ MAX_IO_SQCQ_PAIRS) ∧ l.foldl (queueStep create delete q) false = true := by
  simp [existing]

theorem card_existing_le : (existing create delete l).card ≤ MAX_IO_SQCQ_PAIRS :=
  (Finset.card_filter_le _ _).trans (by simp)

/-- A command that creates an I/O queue of the array adds its id. -/
theorem existing_create (hsqid : f.sqid = 0) (hop : f.scmd.opcode.toNat = create)
    (h0 : f.scmd.qid ≠ 0) (hq : f.scmd.qid ≤ MAX_IO_SQCQ_PAIRS) :
    existing create delete (l ++ [f]) = insert f.scmd.qid (existing create delete l) := by
  ext q
  rw [Finset.mem_insert, mem_existing, mem_existing, List.foldl_append]
  by_cases he : q = f.scmd.qid
  · subst he
    simp [queueStep, hsqid, hop, hq, Nat.one_le_iff_ne_zero.mpr h0]
  · simp [queueStep, he, Ne.symm he]

/-- A command that deletes a queue removes its id. -/
theorem existing_delete (hne : delete ≠ create) (hsqid : f.sqid = 0)
    (hop : f.scmd.opcode.toNat = delete) :
    existing create delete (l ++ [f]) = (existing create delete l).erase f.scmd.qid := by
  ext q
  rw [Finset.mem_erase, mem_existing, mem_existing, List.foldl_append]
  by_cases he : q = f.scmd.qid
  · subst he
    simp [queueStep, hsqid, hop, hne]
  · simp [queueStep, he, Ne.symm he]

/-- Every other entry leaves the queues that exist. -/
theorem existing_other
    (h : f.sqid = 0 → f.scmd.qid ≠ 0 →
      f.scmd.opcode.toNat ≠ create ∧ f.scmd.opcode.toNat ≠ delete) :
    existing create delete (l ++ [f]) = existing create delete l := by
  ext q
  rw [mem_existing, mem_existing, List.foldl_append]
  refine and_congr_right fun hq => ?_
  rw [List.foldl_cons, List.foldl_nil, queueStep_other]
  intro hsqid he
  exact h hsqid (by omega)

end Existing

/-! ## One command -/

/-- The two drivers have the same counters. -/
structure SameCounts (d d' : Driver) : Prop where
  iosqCount : d'.iosqCount = d.iosqCount
  iocqCount : d'.iocqCount = d.iocqCount

/-- The counters of a driver, with the ids of the completion queues in one interval. -/
structure CountersMatch (d : Driver) : Prop where
  sqs : d.iosqCount = (existingSqs d.fetched).card
  cqs : Finset.Icc 1 d.iocqCount = existingCqs d.fetched

section Commands

variable {c : Config} {env : Env} {s s' : State} {d d' d1 d2 : Driver} {f : Fetch} {q : Nat}
  {scmd : NvmeSCmd} {req : Req}

/-- The ids of existing queues are in the arrays: a command with another id does not return. -/
def IdsInArray (d : Driver) : Prop := ∀ q, cqExists d.fetched q = true → q ≤ MAX_IO_SQCQ_PAIRS

theorem mem_existingCqs (h : IdsInArray d) :
    q ∈ existingCqs d.fetched ↔ q ≠ 0 ∧ cqExists d.fetched q = true := by
  unfold existingCqs
  rw [mem_existing, ← Nat.one_le_iff_ne_zero, and_assoc]
  exact and_congr_right fun _ => and_iff_right_of_imp (h q)

theorem queuesCounted_iff (h : IdsInArray d) : QueuesCounted d ↔ CountersMatch d := by
  have hvisits : (∀ q, q ∈ retried d ↔ q ≠ 0 ∧ cqExists d.fetched q = true) ↔
      Finset.Icc 1 d.iocqCount = existingCqs d.fetched := by
    rw [Finset.ext_iff]
    refine forall_congr' fun q => ?_
    rw [mem_existingCqs h, Finset.mem_Icc, retried, List.mem_range'_1]
    exact iff_congr (by omega) Iff.rfl
  constructor
  · rintro ⟨hsqs, -, hv⟩
    exact ⟨hsqs, hvisits.mp hv⟩
  · rintro ⟨hsqs, hcqs⟩
    refine ⟨hsqs, ?_, hvisits.mpr hcqs⟩
    rw [← hcqs, Nat.card_Icc, Nat.add_sub_cancel]

theorem CountersMatch.congr (h : CountersMatch d) (hcounts : SameCounts d d')
    (hsqs : existingSqs d'.fetched = existingSqs d.fetched)
    (hcqs : existingCqs d'.fetched = existingCqs d.fetched) : CountersMatch d' := by
  refine ⟨?_, ?_⟩
  · rw [hcounts.iosqCount, hsqs]
    exact h.sqs
  · rw [hcounts.iocqCount, hcqs]
    exact h.cqs

/-- One more id makes the interval longer by one exactly when it is the next. -/
theorem Icc_create_iff {n : Nat} (hn : n ≤ MAX_IO_SQCQ_PAIRS) :
    Finset.Icc 1 ((n + 1) % 2 ^ 32) = insert q (Finset.Icc 1 n) ↔ q = n + 1 := by
  rw [Nat.mod_eq_of_lt (by unfold MAX_IO_SQCQ_PAIRS at hn; omega)]
  constructor
  · intro h
    have hmem : n + 1 ∈ insert q (Finset.Icc 1 n) := h ▸ Finset.mem_Icc.mpr ⟨by omega, le_rfl⟩
    rw [Finset.mem_insert, Finset.mem_Icc] at hmem
    omega
  · rintro rfl
    ext i
    rw [Finset.mem_insert, Finset.mem_Icc, Finset.mem_Icc]
    omega

/-- One id less makes the interval shorter by one exactly when it was the last. -/
theorem Icc_delete_iff {n : Nat} (hn : n ≤ MAX_IO_SQCQ_PAIRS) :
    Finset.Icc 1 ((n + (2 ^ 32 - 1)) % 2 ^ 32) = (Finset.Icc 1 n).erase q ↔ q ≠ 0 ∧ q = n := by
  have hmax : n ≤ 4 := hn
  constructor
  · intro h
    have hmem := Finset.ext_iff.mp h
    simp only [Finset.mem_erase, Finset.mem_Icc] at hmem
    -- The counter 0 wraps, and then the interval has the id 1.
    have h1 := hmem 1
    have hlast := hmem n
    omega
  · rintro ⟨hq, rfl⟩
    ext i
    rw [Finset.mem_erase, Finset.mem_Icc, Finset.mem_Icc]
    omega

theorem card_create_iff {ids : Finset Nat} (hids : ids.card ≤ MAX_IO_SQCQ_PAIRS) :
    (ids.card + 1) % 2 ^ 32 = (insert q ids).card ↔ q ∉ ids := by
  rw [Nat.mod_eq_of_lt (by unfold MAX_IO_SQCQ_PAIRS at hids; omega)]
  constructor
  · intro h hmem
    rw [Finset.insert_eq_of_mem hmem] at h
    omega
  · intro h
    exact (Finset.card_insert_of_notMem h).symm

theorem card_delete_iff {ids : Finset Nat} (hids : ids.card ≤ MAX_IO_SQCQ_PAIRS) :
    (ids.card + (2 ^ 32 - 1)) % 2 ^ 32 = (ids.erase q).card ↔ q ∈ ids := by
  have hmax : ids.card ≤ 4 := hids
  by_cases hmem : q ∈ ids
  · have := Finset.card_erase_add_one hmem
    simp only [hmem, iff_true]
    omega
  · rw [Finset.erase_eq_of_notMem hmem]
    simp only [hmem, iff_false]
    omega

theorem queueIdInTurn_other {fetched : List Fetch}
    (h : scmd.opcode.toNat ∉ [0x00, 0x01, 0x04, 0x05]) : QueueIdInTurn fetched scmd := by
  simp only [List.mem_cons, List.not_mem_nil, or_false, not_or] at h
  obtain ⟨h0, h1, h4, h5⟩ := h
  rw [queueIdInTurn_iff]
  exact ⟨fun hop => absurd hop h1, fun hop => absurd hop h0, fun hop => absurd hop h5,
    fun hop => absurd hop h4⟩

/-- The other kind of queues stays. -/
theorem existing_of_ne {create delete : Nat} (hcreate : f.scmd.opcode.toNat ≠ create)
    (hdelete : f.scmd.opcode.toNat ≠ delete) {l : List Fetch} :
    existing create delete (l ++ [f]) = existing create delete l :=
  existing_other fun _ _ => ⟨hcreate, hdelete⟩

theorem card_created_sqs {l : List Fetch} (hsqid : f.sqid = 0) (hop : f.scmd.opcode.toNat = 0x01)
    (hq : f.scmd.qid ≤ MAX_IO_SQCQ_PAIRS) :
    ((existingSqs l).card + 1) % 2 ^ 32 = (existingSqs (l ++ [f])).card ↔
      f.scmd.qid ≠ 0 ∧ sqExists l f.scmd.qid = false := by
  have hmax : (existingSqs l).card ≤ MAX_IO_SQCQ_PAIRS := card_existing_le
  by_cases h0 : f.scmd.qid = 0
  · have hsame : existingSqs (l ++ [f]) = existingSqs l := existing_other fun _ hne => absurd h0 hne
    have : (existingSqs l).card ≤ 4 := hmax
    rw [hsame]
    simp only [h0, ne_eq, not_true, false_and, iff_false]
    omega
  · have hadd : existingSqs (l ++ [f]) = insert f.scmd.qid (existingSqs l) :=
      existing_create hsqid hop h0 hq
    rw [hadd, card_create_iff hmax, existingSqs, mem_existing, ← Bool.not_eq_true]
    have hin : 1 ≤ f.scmd.qid ∧ f.scmd.qid ≤ MAX_IO_SQCQ_PAIRS := ⟨by omega, hq⟩
    simp only [hin, h0, sqExists, true_and, ne_eq, not_false_eq_true]

theorem card_deleted_sqs {l : List Fetch} (hsqid : f.sqid = 0) (hop : f.scmd.opcode.toNat = 0x00)
    (hq : f.scmd.qid ≤ MAX_IO_SQCQ_PAIRS) :
    ((existingSqs l).card + (2 ^ 32 - 1)) % 2 ^ 32 = (existingSqs (l ++ [f])).card ↔
      f.scmd.qid ≠ 0 ∧ sqExists l f.scmd.qid = true := by
  have hdel : existingSqs (l ++ [f]) = (existingSqs l).erase f.scmd.qid :=
    existing_delete (by decide) hsqid hop
  have hmax : (existingSqs l).card ≤ MAX_IO_SQCQ_PAIRS := card_existing_le
  rw [hdel, card_delete_iff hmax, existingSqs, mem_existing, Nat.one_le_iff_ne_zero]
  simp only [hq, sqExists, and_true]

theorem Icc_created_cqs {l : List Fetch} {n : Nat} (hids : Finset.Icc 1 n = existingCqs l)
    (hn : n ≤ MAX_IO_SQCQ_PAIRS) (hsqid : f.sqid = 0) (hop : f.scmd.opcode.toNat = 0x05)
    (hq : f.scmd.qid ≤ MAX_IO_SQCQ_PAIRS) :
    Finset.Icc 1 ((n + 1) % 2 ^ 32) = existingCqs (l ++ [f]) ↔ f.scmd.qid = n + 1 := by
  by_cases h0 : f.scmd.qid = 0
  · have hsame : existingCqs (l ++ [f]) = existingCqs l := existing_other fun _ hne => absurd h0 hne
    have : n ≤ 4 := hn
    rw [hsame, ← hids, h0]
    refine iff_of_false (fun he => ?_) (by omega)
    have hmem := Finset.ext_iff.mp he (n + 1)
    simp only [Finset.mem_Icc] at hmem
    omega
  · have hadd : existingCqs (l ++ [f]) = insert f.scmd.qid (existingCqs l) :=
      existing_create hsqid hop h0 hq
    rw [hadd, ← hids, Icc_create_iff hn]

theorem Icc_deleted_cqs {l : List Fetch} {n : Nat} (hids : Finset.Icc 1 n = existingCqs l)
    (hn : n ≤ MAX_IO_SQCQ_PAIRS) (hsqid : f.sqid = 0) (hop : f.scmd.opcode.toNat = 0x04) :
    Finset.Icc 1 ((n + (2 ^ 32 - 1)) % 2 ^ 32) = existingCqs (l ++ [f]) ↔
      f.scmd.qid ≠ 0 ∧ f.scmd.qid = n := by
  have hdel : existingCqs (l ++ [f]) = (existingCqs l).erase f.scmd.qid :=
    existing_delete (by decide) hsqid hop
  rw [hdel, ← hids, Icc_delete_iff hn]

/-- A command keeps the counters right exactly when it comes in turn. -/
theorem CountersMatch.command (h : CountersMatch d) (hf : d'.fetched = d.fetched ++ [f])
    (hsqid : f.sqid = 0) (hbefore : SameCounts d d1) (hcmd : QueueCommand f.scmd d1 d2)
    (hafter : SameCounts d2 d') : CountersMatch d' ↔ QueueIdInTurn d.fetched f.scmd := by
  obtain ⟨hsqs, hcqs⟩ := h
  have hcard : (existingCqs d.fetched).card = d.iocqCount := by
    rw [← hcqs, Nat.card_Icc, Nat.add_sub_cancel]
  have hle : d.iocqCount ≤ MAX_IO_SQCQ_PAIRS := hcard ▸ card_existing_le
  have hiff : CountersMatch d' ↔ d'.iosqCount = (existingSqs (d.fetched ++ [f])).card ∧
      Finset.Icc 1 d'.iocqCount = existingCqs (d.fetched ++ [f]) := by
    rw [← hf]
    exact ⟨fun h => ⟨h.sqs, h.cqs⟩, fun h => ⟨h.1, h.2⟩⟩
  have hsqs_same (h1 : f.scmd.opcode.toNat ≠ 0x01) (h0 : f.scmd.opcode.toNat ≠ 0x00) :
      existingSqs (d.fetched ++ [f]) = existingSqs d.fetched := existing_of_ne h1 h0
  have hcqs_same (h5 : f.scmd.opcode.toNat ≠ 0x05) (h4 : f.scmd.opcode.toNat ≠ 0x04) :
      existingCqs (d.fetched ++ [f]) = existingCqs d.fetched := existing_of_ne h5 h4
  rw [hiff, hafter.iosqCount, hafter.iocqCount]
  cases hcmd with
  | other hop =>
    have hturn : QueueIdInTurn d.fetched f.scmd := queueIdInTurn_other hop
    simp only [List.mem_cons, List.not_mem_nil, or_false, not_or] at hop
    obtain ⟨h0, h1, h4, h5⟩ := hop
    rw [hsqs_same h1 h0, hcqs_same h5 h4, hbefore.iosqCount, hbefore.iocqCount]
    exact iff_of_true ⟨hsqs, hcqs⟩ hturn
  | create_sq hop hq =>
    simp only [QueueIdInTurn, hop, hbefore.iosqCount, hbefore.iocqCount, hsqs]
    rw [hcqs_same (by omega) (by omega), and_iff_left hcqs]
    exact card_created_sqs hsqid hop hq
  | delete_sq hop hq =>
    simp only [QueueIdInTurn, hop, hbefore.iosqCount, hbefore.iocqCount, hsqs]
    rw [hcqs_same (by omega) (by omega), and_iff_left hcqs]
    exact card_deleted_sqs hsqid hop hq
  | create_cq hop hq =>
    simp only [QueueIdInTurn, hop, hbefore.iosqCount, hbefore.iocqCount, hcard]
    rw [hsqs_same (by omega) (by omega), and_iff_right hsqs]
    exact Icc_created_cqs hcqs hle hsqid hop hq
  | delete_cq hop hq =>
    simp only [QueueIdInTurn, hop, hbefore.iosqCount, hbefore.iocqCount, hcard]
    rw [hsqs_same (by omega) (by omega), and_iff_right hsqs]
    exact Icc_deleted_cqs hcqs hle hsqid hop

/-! ## One step -/

theorem SameCounts.refl : SameCounts d d := ⟨rfl, rfl⟩

theorem SameCounts.trans (h : SameCounts d d1) (h' : SameCounts d1 d2) : SameCounts d d2 :=
  ⟨h'.iosqCount.trans h.iosqCount, h'.iocqCount.trans h.iocqCount⟩

theorem enqueue_io_sameCounts (h : d.enqueue_io_ccmd q req = some d') : SameCounts d d' := by
  unfold Driver.enqueue_io_ccmd at h
  split at h
  · cases h
  · obtain ⟨⟨cq, ps⟩, -, rfl⟩ := Option.map_eq_some_iff.mp h
    exact ⟨rfl, rfl⟩

theorem enqueue_admin_sameCounts (h : d.enqueue_admin_ccmd req = some d') : SameCounts d d' := by
  obtain ⟨⟨cq, ps⟩, -, rfl⟩ := Option.map_eq_some_iff.mp h
  exact ⟨rfl, rfl⟩

theorem retry_sameCounts {L : List Nat}
    (h : L.foldlM (fun d q => d.post_io_ccmds q) d = some d') : SameCounts d d' := by
  induction L generalizing d with
  | nil =>
    cases h
    exact .refl
  | cons q L ih =>
    rw [List.foldlM_cons] at h
    obtain ⟨d1, hd1, hrest⟩ := Option.bind_eq_some_iff.mp h
    refine SameCounts.trans ?_ (ih hrest)
    unfold Driver.post_io_ccmds at hd1
    split at hd1
    · cases hd1
    · obtain ⟨⟨cq, ps⟩, -, rfl⟩ := Option.map_eq_some_iff.mp hd1
      exact ⟨rfl, rfl⟩

theorem read_sameCounts {index tail sqid : Nat} {mem : Mem}
    (hd : d.sq_door_bell index tail = some d1) (h : d1.read_scmd sqid scmd mem = some d') :
    SameCounts d d' := by
  unfold Driver.sq_door_bell at hd
  split at hd
  · cases hd
  · cases hd
    obtain ⟨sq, -, rfl⟩ := Option.map_eq_some_iff.mp h
    exact ⟨rfl, rfl⟩

/-- An admin command is fetched and carried out. -/
structure AdminCounts (env : Env) (s : State) (d1 d2 d' : Driver) : Prop where
  fetched : d'.fetched = s.driver.fetched ++ [fetchOf s.driver env]
  before : SameCounts s.driver d1
  command : QueueCommand env.scmd d1 d2
  after : SameCounts d2 d'

/-- What a step does to the counters and to the log of fetched entries. -/
inductive CountsMove (env : Env) (s : State) (d' : Driver) : Prop
  | unread (hcounts : SameCounts s.driver d') (hfetched : d'.fetched = s.driver.fetched)
  | io (hq : env.Qindex ≠ 0) (hcounts : SameCounts s.driver d')
    (hfetched : d'.fetched = s.driver.fetched ++ [fetchOf s.driver env])
  | admin {d1 d2 : Driver} (hf : fetches env s = true) (hq : env.Qindex = 0)
    (h : AdminCounts env s d1 d2 d')

/-- A door bell of queue 0 that `process_admin_cmd` answers. -/
theorem counts_of_admin {d0 : Driver} {bits : Nat} (hq : env.Qindex = 0)
    (hd : s.driver.sq_door_bell env.Qindex env.db_value = some d0)
    (h : process_admin_cmd bits env d0 = some d') : ∃ d1 d2, AdminCounts env s d1 d2 d' := by
  obtain ⟨d1, hd1, d2, hcmd, hend⟩ := process_admin_cmd_move h
  have hbefore := read_sameCounts hd hd1
  rw [← hq] at hd1
  obtain ⟨-, -, hfetched, -⟩ := read_after_door_bell hd hd1
  refine ⟨d1, d2, ?_, hbefore, hcmd, ?_⟩
  · rw [← hfetched, ← hcmd.fetched]
    rcases hend with rfl | ⟨req, -, h⟩
    · rfl
    · exact (enqueue_admin_sameSqs h).fetched
  · rcases hend with rfl | ⟨req, -, h⟩
    · exact .refl
    · exact enqueue_admin_sameCounts h

theorem DriverMove.counts (h : DriverMove c env s d') : CountsMove env s d' := by
  cases h with
  | same => exact .unread ((.refl)) rfl
  | finished hreq hto hsqid h =>
    exact .unread (enqueue_io_sameCounts h) (enqueue_io_sameSqs h).fetched
  | retried hpoll hbell h => exact .unread (retry_sameCounts h) (retry_sameSqs h).fetched
  | released hpoll hbell h =>
    unfold Driver.cq_door_bell at h
    split at h
    · cases h
    · obtain ⟨hsq, hcq⟩ := retry_sameCounts h
      exact .unread ⟨hsq, hcq⟩ (retry_sameSqs h).fetched
  | fetched hf hq hd h =>
    obtain ⟨-, -, hfetched, -⟩ := read_after_door_bell hd h
    exact .io hq (read_sameCounts hd h) hfetched
  | answered hf hq hd hd1 hask hto h =>
    obtain ⟨-, -, hfetched, -⟩ := read_after_door_bell hd hd1
    exact .io hq ((read_sameCounts hd hd1).trans (enqueue_io_sameCounts h))
      ((enqueue_io_sameSqs h).fetched.trans hfetched)
  | admin hf hq hd h =>
    obtain ⟨d1, d2, h⟩ := counts_of_admin hq hd h
    exact .admin hf hq h

/-- A command that returns names a queue of the arrays. -/
theorem QueueCommand.qid_le (h : QueueCommand scmd d d') (hop : scmd.opcode.toNat = 0x05) :
    scmd.qid ≤ MAX_IO_SQCQ_PAIRS := by
  cases h with
  | other hother => exact absurd hop (by simp at hother; omega)
  | create_cq _ hq => exact hq
  | create_sq _ hq => exact hq
  | delete_sq _ hq => exact hq
  | delete_cq _ hq => exact hq

theorem cqExists_snoc {l : List Fetch} :
    cqExists (l ++ [f]) q = queueStep 0x05 0x04 q (cqExists l q) f := by
  simp [cqExists]

theorem IdsInArray.move (h : IdsInArray s.driver) (hmove : CountsMove env s d') :
    IdsInArray d' := by
  intro q hq
  cases hmove with
  | unread _ hfetched =>
    rw [hfetched] at hq
    exact h q hq
  | io hio _ hfetched =>
    rw [hfetched, cqExists_snoc, queueStep_other] at hq
    · exact h q hq
    · intro h0
      exact absurd h0 hio
  | admin _ _ hmove =>
    rw [hmove.fetched, cqExists_snoc] at hq
    unfold queueStep at hq
    split at hq
    · rename_i hf
      split at hq
      · rename_i hop
        exact hf.2 ▸ hmove.command.qid_le hop
      · split at hq
        · cases hq
        · exact h q hq
    · exact h q hq

/-- A step that fetches no admin command keeps the counters right. -/
theorem CountersMatch.unfetched (h : CountersMatch s.driver) (hmove : CountsMove env s d')
    (hnot : ¬(fetches env s = true ∧ env.Qindex = 0)) : CountersMatch d' := by
  cases hmove with
  | unread hcounts hfetched => exact h.congr hcounts (by rw [hfetched]) (by rw [hfetched])
  | io hq hcounts hfetched =>
    refine h.congr hcounts ?_ ?_
    · rw [hfetched]
      exact existing_other fun h0 => absurd h0 hq
    · rw [hfetched]
      exact existing_other fun h0 => absurd h0 hq
  | admin hf hq => exact absurd ⟨hf, hq⟩ hnot

/-- A step that fetches an admin command has it carried out. -/
theorem nvmeStep_admin (hf : fetches env s = true) (hq : env.Qindex = 0)
    (hs : nvmeStep c env s = some s') : ∃ d1 d2, AdminCounts env s d1 d2 s'.driver := by
  obtain ⟨hpoll, hbell⟩ : aboutToPoll s = true ∧ env.DoorBell = 1 := by simpa [fetches] using hf
  obtain ⟨callbacks, todo, hstep⟩ := nvmeStep_poll c env hpoll
  rw [hstep, check_door_bell, if_pos hbell] at hs
  obtain ⟨d, hd, hs⟩ := Option.bind_eq_some_iff.mp hs
  rw [if_neg (not_not.mpr hq)] at hs
  obtain ⟨d', hd', rfl⟩ := Option.map_eq_some_iff.mp hs
  exact counts_of_admin hq hd hd'

/-- A step keeps the counters right exactly when the command that it fetches comes in turn. -/
theorem countersMatch_step_iff {a : Action} (h : CountersMatch s.driver)
    (hstep : fwStep c s a = some s') : CountersMatch s'.driver ↔ FetchesInTurn s a := by
  by_cases hadmin : ∃ env, a = .nvme env ∧ fetches env s = true ∧ env.Qindex = 0
  · obtain ⟨env, rfl, hf, hq⟩ := hadmin
    obtain ⟨d1, d2, hmove⟩ := nvmeStep_admin (c := c) hf hq hstep
    rw [h.command hmove.fetched hq hmove.before hmove.command hmove.after]
    exact ⟨fun hturn _ _ => hturn, fun hturn => hturn hf hq⟩
  · refine iff_of_true ?_ ?_
    · rcases fwStep_driver hstep with ⟨env, rfl, hmove⟩ | ⟨transfers, hd⟩
      · exact h.unfetched hmove.counts fun hnot => hadmin ⟨env, rfl, hnot⟩
      · rw [hd]
        exact ⟨h.sqs, h.cqs⟩
    · cases a with
      | nvme env => exact fun hf hq => absurd ⟨env, rfl, hf, hq⟩ hadmin
      | _ => trivial

theorem IdsInArray.step {a : Action} (h : IdsInArray s.driver) (hstep : fwStep c s a = some s') :
    IdsInArray s'.driver := by
  rcases fwStep_driver hstep with ⟨env, -, hmove⟩ | ⟨transfers, hd⟩
  · exact h.move hmove.counts
  · rw [hd]
    exact h

theorem idsInArray_initialState (c : Config) (asqs acqs asq acq : Nat)
    (flash : Ppa → Nat → UInt8) : IdsInArray (initialState c asqs acqs asq acq flash).driver := by
  intro q hq
  cases hq

theorem countersMatch_initialState (c : Config) (asqs acqs asq acq : Nat)
    (flash : Ppa → Nat → UInt8) :
    CountersMatch (initialState c asqs acqs asq acq flash).driver := by
  refine ⟨?_, ?_⟩
  · rfl
  · rfl

end Commands

/-! ## The law -/

/-- In a run of the firmware the counters are right in every state, and the retry loops visit
the existing completion queues, exactly when every create and delete command comes in turn. -/
theorem the_queue_counters_are_right_iff_the_ids_come_in_turn (c : Config)
    {asqs acqs asq acq : Nat} {flash : Ppa → Nat → UInt8} {acts : List Action} {s : State}
    (h : run (fwStep c) (initialState c asqs acqs asq acq flash) acts = some s) :
    AllSteps (fwStep c) FetchesInTurn (initialState c asqs acqs asq acq flash) acts ↔
      ∀ pre, pre <+: acts → ∀ t, run (fwStep c) (initialState c asqs acqs asq acq flash) pre =
        some t → QueuesCounted t.driver := by
  refine allSteps_iff_forall_prefix (I := fun s => IdsInArray s.driver) ?_ ?_
    (idsInArray_initialState c asqs acqs asq acq flash)
    ?_ h
  · intro t a u ht hstep
    exact ht.step hstep
  · intro t a u ht hcounted hstep
    rw [queuesCounted_iff (ht.step hstep)]
    exact countersMatch_step_iff ((queuesCounted_iff ht).mp hcounted) hstep
  · rw [queuesCounted_iff (idsInArray_initialState c asqs acqs asq acq flash)]
    exact countersMatch_initialState ..

/-- A host creates completion queue 1 and then submission queue 1. -/
theorem the_queue_counters_are_right_after_the_start :
    ∃ s, run (fwStep smallDevice) bootState createQueues = some s ∧ QueuesCounted s.driver := by
  have hrun : (run (fwStep smallDevice) bootState createQueues).isSome ∧
      AllSteps (fwStep smallDevice) FetchesInTurn bootState createQueues := by
    decide +kernel
  obtain ⟨s, hs⟩ := Option.isSome_iff_exists.mp hrun.1
  exact ⟨s, hs, (the_queue_counters_are_right_iff_the_ids_come_in_turn smallDevice hs).mp hrun.2
    createQueues List.prefix_rfl s hs⟩

/-- Deletes submission queue 1. -/
def deleteFirst : List Action := roundFor (ringFor 0 1 ⟨0x00, 1, 0, 0, 0, 0, 1, 0, 0⟩)

/-- A delete command for a queue that was never created: the counter of submission queues
goes below zero. -/
theorem deleting_a_missing_queue_wraps_the_counter :
    ¬ ∀ (acts : List Action) (s : State), run (fwStep smallDevice) bootState acts = some s →
      QueuesCounted s.driver := by
  intro hall
  have hrun : (run (fwStep smallDevice) bootState deleteFirst).map
      (fun s => (s.driver.iosqCount, (existingSqs s.driver.fetched).card)) =
        some (2 ^ 32 - 1, 0) := by
    decide +kernel
  obtain ⟨s, hs, hvals⟩ := Option.map_eq_some_iff.mp hrun
  simp only [Prod.mk.injEq] at hvals
  have hcount := (hall deleteFirst s hs).sqs
  omega

end S4Sim
