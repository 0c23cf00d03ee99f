-- Which requests a step posts. A ring is not emptied when its queue is created again, so
-- a posting can be of any request that was enqueued before. The request that a step
-- enqueues is the last that it posts.
import S4Sim.Firmware.QueueRules

open Rings

namespace S4Sim

/-- The request was enqueued, or it is the zeroed memory of a ring. -/
def FromLog (d : Driver) (req : Req) : Prop := req = zeroReq ∨ ∃ e ∈ d.enqueued, e.2 = req

/-- The rings and the postings have requests of the log only. -/
structure LogHolds (d : Driver) : Prop where
  rings : ∀ q i, FromLog d ((d.cqs q).pending.objs i)
  posted : ∀ e ∈ d.posted, FromLog d e.2.req

/-- What a step adds to the postings: requests of the log before it, and last perhaps the
request that it enqueues. -/
structure Posts (d d' : Driver) : Prop where
  log : LogHolds d'
  postings : ∃ early last, d'.posted = d.posted ++ (early ++ last) ∧ last.length ≤ 1 ∧
    ∀ e ∈ early, FromLog d e.2.req

section Loop

variable {sqhd : Req → Nat} {cq cq' : NvmeCQueue} {ps : List Posting} {req : Req} {n t : Nat}

/-- The loop leaves the entries of the ring, and it posts some of them. -/
theorem post_ccmds_objs (h : post_ccmds sqhd cq n = some (cq', ps)) :
    cq'.pending.objs = cq.pending.objs ∧ ∀ p ∈ ps, ∃ i, p.req = cq.pending.objs i := by
  induction n generalizing cq ps with
  | zero =>
    cases h
    exact ⟨rfl, nofun⟩
  | succ n ih =>
    unfold post_ccmds at h
    split at h
    · cases h
      exact ⟨rfl, nofun⟩
    · split at h
      · cases h
      · split at h
        · cases h
          exact ⟨rfl, nofun⟩
        · obtain ⟨⟨cq1, ps1⟩, hpost, heq⟩ := Option.map_eq_some_iff.mp h
          cases heq
          obtain ⟨hobjs, hps⟩ := ih hpost
          rw [takePending_pending] at hobjs hps
          refine ⟨hobjs, fun p hp => ?_⟩
          rcases List.mem_cons.mp hp with rfl | hp
          · exact ⟨cq.pending.head, rfl⟩
          · exact hps p hp

/-- The entry before the tail of the ring is posted last: the ring is empty then. -/
theorem post_ccmds_last (htail : cq.pending.tail = (t + 1) % cq.pending.size)
    (h : post_ccmds sqhd cq n = some (cq', ps)) :
    ∃ early last, ps = early ++ last ∧ last.length ≤ 1 ∧
      ∀ p ∈ early, ∃ i ≠ t, p.req = cq.pending.objs i := by
  induction n generalizing cq ps with
  | zero =>
    cases h
    exact ⟨[], [], rfl, by simp, nofun⟩
  | succ n ih =>
    unfold post_ccmds at h
    split at h
    · cases h
      exact ⟨[], [], rfl, by simp, nofun⟩
    · split at h
      · cases h
      · split at h
        · cases h
          exact ⟨[], [], rfl, by simp, nofun⟩
        · obtain ⟨⟨cq1, ps1⟩, hpost, heq⟩ := Option.map_eq_some_iff.mp h
          cases heq
          by_cases ht : cq.pending.head = t
          · -- The head reaches the tail, so the next turn ends the loop.
            have hempty : cq.takePending.pending.head = cq.takePending.pending.tail := by
              rw [takePending_pending]
              simp only [RingBuffer.pop, ht, htail]
            have hnil : ps1 = [] := by
              cases n with
              | zero =>
                cases hpost
                rfl
              | succ n =>
                unfold post_ccmds at hpost
                rw [if_pos hempty] at hpost
                cases hpost
                rfl
            subst hnil
            exact ⟨[], _, rfl, by simp, nofun⟩
          · obtain ⟨early, last, rfl, hlast, hearly⟩ :=
              ih (by rw [takePending_pending]; exact htail) hpost
            rw [takePending_pending] at hearly
            refine ⟨_ :: early, last, rfl, hlast, fun p hp => ?_⟩
            rcases List.mem_cons.mp hp with rfl | hp
            · exact ⟨cq.pending.head, ht, rfl⟩
            · exact hearly p hp

/-- A request is pushed and the loop posts: the entries of the ring before come first. -/
theorem pushed_postings (h : (cq.pushPending req).bind (postAll sqhd) = some (cq', ps)) :
    (∀ i, cq'.pending.objs i = req ∨ cq'.pending.objs i = cq.pending.objs i) ∧
      (∀ p ∈ ps, p.req = req ∨ ∃ i, p.req = cq.pending.objs i) ∧
      ∃ early last, ps = early ++ last ∧ last.length ≤ 1 ∧
        ∀ p ∈ early, ∃ i, p.req = cq.pending.objs i := by
  obtain ⟨cq1, hpush, hpost⟩ := Option.bind_eq_some_iff.mp h
  unfold NvmeCQueue.pushPending at hpush
  split at hpush
  · cases hpush
    obtain ⟨hobjs, hps⟩ := post_ccmds_objs hpost
    obtain ⟨early, last, hsplit, hlast, hearly⟩ := post_ccmds_last (t := cq.pending.tail) rfl hpost
    simp only [RingBuffer.push] at hobjs hps hearly
    have hentry : ∀ i, Function.update cq.pending.objs cq.pending.tail req i = req ∨
        Function.update cq.pending.objs cq.pending.tail req i = cq.pending.objs i := by
      intro i
      by_cases hi : i = cq.pending.tail
      · subst hi
        exact Or.inl (Function.update_self ..)
      · exact Or.inr (Function.update_of_ne hi ..)
    refine ⟨fun i => ?_, fun p hp => ?_, early, last, hsplit, hlast, fun p hp => ?_⟩
    · rw [hobjs]
      exact hentry i
    · obtain ⟨i, hi⟩ := hps p hp
      rw [hi]
      exact (hentry i).imp_right fun he => ⟨i, he⟩
    · obtain ⟨i, hne, hi⟩ := hearly p hp
      exact ⟨i, hi.trans (Function.update_of_ne hne ..)⟩
  · cases hpush

end Loop

section Steps

variable {c : Config} {env : Env} {s s' : State} {d d' d1 : Driver} {req : Req} {q : Nat}

theorem FromLog.mono (h : FromLog d req) (hlog : d.enqueued <+: d'.enqueued) : FromLog d' req :=
  h.imp_right fun ⟨e, he, hreq⟩ => ⟨e, hlog.subset he, hreq⟩

theorem FromLog.congr (h : FromLog d req) (hlog : d'.enqueued = d.enqueued) : FromLog d' req :=
  h.mono (hlog ▸ List.prefix_rfl)

/-- The rings keep their entries, and nothing is posted. -/
theorem LogHolds.congr (h : LogHolds d) (hcqs : ∀ q, (d'.cqs q).pending.objs =
    (d.cqs q).pending.objs) (henq : d'.enqueued = d.enqueued) (hposted : d'.posted = d.posted) :
    LogHolds d' := by
  refine ⟨fun q i => ?_, fun e he => ?_⟩
  · rw [hcqs]
    exact (h.rings q i).congr henq
  · exact (h.posted e (hposted ▸ he)).congr henq

theorem LogHolds.posts (h : LogHolds d') (hposted : d'.posted = d.posted) : Posts d d' :=
  ⟨h, [], [], by simp [hposted], by simp, nofun⟩

/-- The first steps leave the postings and the log. -/
theorem Posts.after (h : Posts d1 d') (hposted : d1.posted = d.posted)
    (henq : d1.enqueued = d.enqueued) : Posts d d' := by
  obtain ⟨hlog, early, last, hps, hlast, hearly⟩ := h
  refine ⟨hlog, early, last, hposted ▸ hps, hlast, fun e he => ?_⟩
  exact (hearly e he).congr henq.symm

/-- A request is enqueued on queue `q`. -/
theorem LogHolds.enqueued (h : LogHolds d) {sqhd : Req → Nat} {cq : NvmeCQueue} {ps : List Posting}
    (hpush : ((d.cqs q).pushPending req).bind (postAll sqhd) = some (cq, ps)) :
    Posts d { d.store q cq ps with enqueued := d.enqueued ++ [(q, req)] } := by
  obtain ⟨hobjs, hps, early, last, rfl, hlast, hearly⟩ := pushed_postings hpush
  have hgrown : d.enqueued <+: d.enqueued ++ [(q, req)] := List.prefix_append _ _
  have hnew : FromLog { d.store q cq (early ++ last) with
      enqueued := d.enqueued ++ [(q, req)] } req :=
    Or.inr ⟨(q, req), by simp, rfl⟩
  refine ⟨⟨fun i j => ?_, fun e he => ?_⟩, early.map (Prod.mk q), last.map (Prod.mk q), ?_, ?_, ?_⟩
  · by_cases hi : i = q
    · subst hi
      have hcq : (d.store i cq (early ++ last)).cqs i = cq := store_cqs_self cq _
      simp only [hcq]
      rcases hobjs j with he | he
      · rw [he]
        exact hnew
      · rw [he]
        exact (h.rings i j).mono hgrown
    · have hcq : (d.store q cq (early ++ last)).cqs i = d.cqs i := store_cqs_of_ne cq _ hi
      simp only [hcq]
      exact (h.rings i j).mono hgrown
  · rcases List.mem_append.mp he with he | he
    · exact (h.posted e he).mono hgrown
    · obtain ⟨p, hp, rfl⟩ := List.mem_map.mp he
      rcases hps p hp with hreq | ⟨i, hreq⟩
      · simp only [hreq]
        exact hnew
      · simp only [hreq]
        exact (h.rings q i).mono hgrown
  · simp [Driver.store]
  · simpa using hlast
  · intro e he
    obtain ⟨p, hp, rfl⟩ := List.mem_map.mp he
    obtain ⟨i, hi⟩ := hearly p hp
    simp only [hi]
    exact h.rings q i

theorem LogHolds.enqueue_io (h : LogHolds d) (hd : d.enqueue_io_ccmd q req = some d') :
    Posts d d' := by
  unfold Driver.enqueue_io_ccmd at hd
  split at hd
  · cases hd
  · obtain ⟨⟨cq, ps⟩, hcq, rfl⟩ := Option.map_eq_some_iff.mp hd
    unfold NvmeCQueue.enqueueIo at hcq
    split at hcq
    · cases hcq
    · split at hcq
      · rename_i hfull
        cases hcq
        simp only [hfull, if_true]
        refine LogHolds.posts (h.congr (fun i => ?_) rfl ?_) ?_
        · simp [Driver.store]
        · simp [Driver.store]
        · simp [Driver.store]
      · rename_i hfull
        simp only [hfull]
        exact h.enqueued hcq

theorem LogHolds.enqueue_admin (h : LogHolds d) (hd : d.enqueue_admin_ccmd req = some d') :
    Posts d d' := by
  obtain ⟨⟨cq, ps⟩, hcq, rfl⟩ := Option.map_eq_some_iff.mp hd
  exact h.enqueued hcq

theorem LogHolds.post_io (h : LogHolds d) (hd : d.post_io_ccmds q = some d') :
    LogHolds d' ∧ ∃ ps, d'.posted = d.posted ++ ps ∧ ∀ e ∈ ps, FromLog d e.2.req := by
  unfold Driver.post_io_ccmds at hd
  split at hd
  · cases hd
  · obtain ⟨⟨cq, ps⟩, hcq, rfl⟩ := Option.map_eq_some_iff.mp hd
    obtain ⟨hobjs, hps⟩ := post_ccmds_objs hcq
    have hnew : ∀ e ∈ ps.map (Prod.mk q), FromLog d e.2.req := by
      intro e he
      obtain ⟨p, hp, rfl⟩ := List.mem_map.mp he
      obtain ⟨i, hi⟩ := hps p hp
      simp only [hi]
      exact h.rings q i
    refine ⟨⟨fun i j => ?_, fun e he => ?_⟩, ps.map (Prod.mk q), rfl, hnew⟩
    · by_cases hi : i = q
      · subst hi
        rw [store_cqs_self, hobjs]
        exact h.rings i j
      · rw [store_cqs_of_ne cq ps hi]
        exact h.rings i j
    · rcases List.mem_append.mp he with he | he
      · exact h.posted e he
      · exact hnew e he

theorem LogHolds.retry {L : List Nat} (h : LogHolds d)
    (hd : L.foldlM (fun d q => d.post_io_ccmds q) d = some d') :
    LogHolds d' ∧ ∃ ps, d'.posted = d.posted ++ ps ∧ ∀ e ∈ ps, FromLog d e.2.req := by
  induction L generalizing d with
  | nil =>
    cases hd
    exact ⟨h, [], by simp, nofun⟩
  | cons q L ih =>
    rw [List.foldlM_cons] at hd
    obtain ⟨d1, hd1, hrest⟩ := Option.bind_eq_some_iff.mp hd
    obtain ⟨h1, ps, hps, hfrom⟩ := h.post_io hd1
    obtain ⟨h2, ps', hps', hfrom'⟩ := ih h1 hrest
    refine ⟨h2, ps ++ ps', by rw [hps', hps, List.append_assoc], fun e he => ?_⟩
    rcases List.mem_append.mp he with he | he
    · exact hfrom e he
    · exact (hfrom' e he).congr (post_io_cases hd1).enqueued.symm

theorem LogHolds.retried {L : List Nat} (h : LogHolds d)
    (hd : L.foldlM (fun d q => d.post_io_ccmds q) d = some d') : Posts d d' := by
  obtain ⟨hlog, ps, hps, hfrom⟩ := h.retry hd
  exact ⟨hlog, ps, [], by rw [hps, List.append_nil], by simp, hfrom⟩

/-- The queues that an admin command sets up or deletes keep the entries of their rings. -/
theorem LogHolds.queueCommand {scmd : NvmeSCmd} (h : LogHolds d) (hcmd : QueueCommand scmd d d') :
    LogHolds d' ∧ d'.posted = d.posted := by
  cases hcmd with
  | other => exact ⟨h, rfl⟩
  | create_sq => exact ⟨h.congr (fun _ => rfl) rfl rfl, rfl⟩
  | delete_sq => exact ⟨h.congr (fun _ => rfl) rfl rfl, rfl⟩
  | create_cq =>
    refine ⟨h.congr (fun q => ?_) rfl rfl, rfl⟩
    by_cases hq : q = scmd.qid
    · subst hq
      simp [createdCq, NvmeCQueue.setUp]
    · simp [Function.update_of_ne hq]
  | delete_cq =>
    refine ⟨h.congr (fun q => ?_) rfl rfl, rfl⟩
    by_cases hq : q = scmd.qid
    · subst hq
      simp [deletedCq]
    · simp [Function.update_of_ne hq]

/-- An entry is read at a door bell: nothing is posted. -/
theorem LogHolds.read (h : LogHolds d) (hd : d.sq_door_bell env.Qindex env.db_value = some d1)
    (hd1 : d1.read_scmd env.Qindex env.scmd env.mem = some d') :
    LogHolds d' ∧ d'.posted = d.posted ∧ d'.enqueued = d.enqueued := by
  obtain ⟨sq, -, rfl⟩ := Option.map_eq_some_iff.mp hd1
  unfold Driver.sq_door_bell at hd
  split at hd
  · cases hd
  · cases hd
    exact ⟨h.congr (fun _ => rfl) rfl rfl, rfl, rfl⟩

/-- Every step of the NVMe thread. -/
theorem DriverMove.posts (hmove : DriverMove c env s d') (h : LogHolds s.driver) :
    Posts s.driver d' := by
  cases hmove with
  | same => exact h.posts rfl
  | finished hreq hto hsqid hd => exact h.enqueue_io hd
  | retried hpoll hbell hd => exact h.retried hd
  | released hpoll hbell hd =>
    unfold Driver.cq_door_bell at hd
    split at hd
    · cases hd
    · have hhead : LogHolds (s.driver.setCqHead env.Qindex env.db_value) := by
        refine h.congr (fun q => ?_) rfl rfl
        by_cases hq : q = env.Qindex
        · subst hq
          simp [Driver.setCqHead]
        · simp [Driver.setCqHead, Function.update_of_ne hq]
      exact (hhead.retried hd).after rfl rfl
  | fetched hf hq hd hd1 =>
    obtain ⟨hlog, hposted, -⟩ := h.read hd hd1
    exact hlog.posts hposted
  | answered hf hq hd hd1 hask hto hpush =>
    obtain ⟨hlog, hposted, henq⟩ := h.read hd hd1
    exact (hlog.enqueue_io hpush).after hposted henq
  | admin hf hq hd hadmin =>
    obtain ⟨d1, hd1, d2, hcmd, hend⟩ := process_admin_cmd_move hadmin
    obtain ⟨hlog, hposted, henq⟩ := h.read hd (hq ▸ hd1)
    obtain ⟨hlog2, hposted2⟩ := hlog.queueCommand hcmd
    rcases hend with rfl | ⟨req, -, hpush⟩
    · exact hlog2.posts (hposted2.trans hposted)
    · exact (hlog2.enqueue_admin hpush).after (hposted2.trans hposted)
        (hcmd.enqueued.trans henq)

end Steps

end S4Sim
