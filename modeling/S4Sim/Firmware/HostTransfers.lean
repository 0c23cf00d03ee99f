-- The transfers of one READ or WRITE. The DMA thread goes through the segments of the
-- request and takes consecutive bytes of the page buffer for them, so the transfers of the
-- command are those of its segments, with the bytes from the first on.
import S4Sim.Firmware.Moves

open Windows

namespace S4Sim

/-- The transfers of a command, oldest first. -/
def transfersOf (ts : List Transfer) (uid : Nat) : List Transfer := ts.filter fun t => t.uid == uid

/-- The transfers of segments in turn, with consecutive bytes of a memory from `offset` on. -/
def segmentTransfers (uid : Nat) (toHost : Bool) (bytes : Nat → UInt8) :
    Nat → List DmaOp → List Transfer
  | _, [] => []
  | offset, e :: ops =>
    ⟨uid, toHost, e.host_p_addr, window bytes offset e.len⟩ ::
      segmentTransfers uid toHost bytes (offset + e.len) ops

/-- Byte `b` of those that were transferred for a command. -/
def transferredBytes (ts : List Transfer) (uid b : Nat) : UInt8 :=
  ((transfersOf ts uid).flatMap Transfer.bytes).getD b 0

section Segments

variable {ts : List Transfer} {t : Transfer} {uid offset : Nat} {toHost : Bool}
  {bytes bytes' : Nat → UInt8} {ops ops' : List DmaOp} {e : DmaOp}

theorem transfersOf_snoc_same (h : t.uid = uid) :
    transfersOf (ts ++ [t]) uid = transfersOf ts uid ++ [t] := by
  simp [transfersOf, h]

/-- A number that no transfer has. -/
theorem transfersOf_eq_nil (h : ∀ t ∈ ts, t.uid ≠ uid) : transfersOf ts uid = [] := by
  apply List.filter_eq_nil_iff.mpr
  intro t ht huid
  exact h t ht (beq_iff_eq.mp huid)

theorem transfersOf_append_other {new : List Transfer} (h : ∀ t ∈ new, t.uid ≠ uid) :
    transfersOf (ts ++ new) uid = transfersOf ts uid := by
  have hnew : transfersOf new uid = [] := transfersOf_eq_nil h
  unfold transfersOf at hnew ⊢
  rw [List.filter_append, hnew, List.append_nil]

theorem segmentTransfers_append :
    segmentTransfers uid toHost bytes offset (ops ++ ops') =
      segmentTransfers uid toHost bytes offset ops ++
        segmentTransfers uid toHost bytes (offset + opsBytes ops) ops' := by
  induction ops generalizing offset with
  | nil => rfl
  | cons e ops ih => simp [segmentTransfers, ih, opsBytes, Nat.add_assoc]

/-- The transfers of the first segments come first. -/
theorem segmentTransfers_take (n : Nat) :
    segmentTransfers uid toHost bytes offset (ops.take n) <+:
      segmentTransfers uid toHost bytes offset ops := by
  have happend : segmentTransfers uid toHost bytes offset (ops.take n ++ ops.drop n) = _ :=
    segmentTransfers_append
  rw [List.take_append_drop] at happend
  rw [happend]
  exact List.prefix_append _ _

theorem segmentTransfers_congr
    (h : ∀ i, offset ≤ i → i < offset + opsBytes ops → bytes i = bytes' i) :
    segmentTransfers uid toHost bytes offset ops =
      segmentTransfers uid toHost bytes' offset ops := by
  induction ops generalizing offset with
  | nil => rfl
  | cons e ops ih =>
    have hsum : opsBytes (e :: ops) = e.len + opsBytes ops := opsBytes_cons
    have hfirst : window bytes offset e.len = window bytes' offset e.len :=
      window_congr fun i hi hlt => h i hi (by omega)
    have hrest : segmentTransfers uid toHost bytes (offset + e.len) ops =
        segmentTransfers uid toHost bytes' (offset + e.len) ops :=
      ih fun i hi hlt => h i (by omega) (by omega)
    simp only [segmentTransfers, hfirst, hrest]

theorem segmentTransfers_bytes :
    (segmentTransfers uid toHost bytes offset ops).flatMap Transfer.bytes =
      window bytes offset (opsBytes ops) := by
  induction ops generalizing offset with
  | nil => rfl
  | cons e ops ih =>
    have hsum : opsBytes (e :: ops) = e.len + opsBytes ops := opsBytes_cons
    rw [segmentTransfers, List.flatMap_cons, ih, hsum, window_add]

theorem transferredBytes_eq
    (h : transfersOf ts uid = segmentTransfers uid toHost bytes 0 ops) {b : Nat}
    (hb : b < opsBytes ops) : transferredBytes ts uid b = bytes b := by
  unfold transferredBytes
  rw [h, segmentTransfers_bytes]
  simp [window, hb]

/-- The segments up to the next one. -/
theorem ops_take_succ {dma : Dma} {ix : Nat} (h : ix < dma.n_ops) :
    dma.ops.take (ix + 1) = dma.ops.take ix ++ [dma.list ix] := by
  have hlen : ix < dma.ops.length := by simpa [Dma.ops] using h
  rw [List.take_succ_eq_append_getElem hlen]
  simp [Dma.ops]

end Segments

/-! ## The DMA thread -/

/-- How far the transfer of the request is: the DMA thread is at a segment, or the transfer
is over. -/
def Transferred (dma : Option DmaJob) (ts : List Transfer) (req : Req) (toHost : Bool)
    (page_buffer : Nat → UInt8) : Prop :=
  match dma with
  | some job => job.offset = opsBytes (req.dma.ops.take job.ix) ∧
      transfersOf ts req.uid =
        segmentTransfers req.uid toHost page_buffer 0 (req.dma.ops.take job.ix)
  | none => transfersOf ts req.uid = segmentTransfers req.uid toHost page_buffer 0 req.dma.ops

section Steps

variable {s : State} {st : Stage} {req : Req} {toHost : Bool} {ts : List Transfer}
  {page_buffer page_buffer' : Nat → UInt8}

/-- A transfer that starts. -/
theorem transferred_start (h : transfersOf ts req.uid = []) :
    Transferred (some ⟨req, toHost, 0, 0⟩) ts req toHost page_buffer := by
  refine ⟨rfl, ?_⟩
  rw [h]
  rfl

/-- Whatever the thread has done, the transfers are the first of the segments. -/
theorem Transferred.isPrefix {dma : Option DmaJob} (h : Transferred dma ts req toHost page_buffer) :
    transfersOf ts req.uid <+: segmentTransfers req.uid toHost page_buffer 0 req.dma.ops := by
  unfold Transferred at h
  split at h
  · rw [h.2]
    exact segmentTransfers_take _
  · exact h ▸ List.prefix_refl _

/-- What a step of the DMA thread does while a request is in hand: it moves the next segment,
or the transfer is over. The other commands have their transfers. -/
theorem Transferred.step (mem : Mem) (hat : At s st) (hst : st.transfer = some (req, toHost))
    (h : Transferred s.dma s.driver.transfers req toHost s.buf.page_buffer) :
    ∃ ts, (dmaThreadStep mem s).driver.transfers = s.driver.transfers ++ ts ∧
      (∀ t ∈ ts, t.uid = req.uid) ∧
      (toHost = true → (dmaThreadStep mem s).buf.page_buffer = s.buf.page_buffer) ∧
      Transferred (dmaThreadStep mem s).dma (dmaThreadStep mem s).driver.transfers req toHost
        (dmaThreadStep mem s).buf.page_buffer := by
  unfold dmaThreadStep
  split
  · exact ⟨[], by simp, List.forall_mem_nil _, fun _ => rfl, h⟩
  · rename_i job hdma
    have hjob := hat.dma job hdma
    rw [hst] at hjob
    cases hjob
    rw [hdma] at h
    obtain ⟨hoffset, hts⟩ := h
    simp only
    split
    · rename_i hix
      refine ⟨_, rfl, by simp, fun hhost => if_pos hhost, ?_, ?_⟩
      · rw [ops_take_succ hix, hoffset, opsBytes_snoc]
      · simp only
        rw [transfersOf_snoc_same rfl, hts, ops_take_succ hix, segmentTransfers_append,
          Nat.zero_add,
          ← hoffset]
        cases htoHost : job.toHost with
        | true => simp [segmentTransfers, window_shift]
        | false =>
          -- The new bytes lie behind those that were moved before.
          have hold : segmentTransfers job.req.uid false s.buf.page_buffer 0
              (job.req.dma.ops.take job.ix) =
              segmentTransfers job.req.uid false (writeWindow s.buf.page_buffer job.offset
                (job.req.dma.list job.ix).len
                fun i => mem ((job.req.dma.list job.ix).host_p_addr + i)) 0
                (job.req.dma.ops.take job.ix) := by
            refine segmentTransfers_congr fun i _ hi => (writeWindow_outside (Or.inl ?_)).symm
            omega
          simp only [Bool.false_eq_true, if_false]
          rw [hold]
          simp [segmentTransfers, window_writeWindow_same]
    · rename_i hix
      refine ⟨[], by simp, List.forall_mem_nil _, fun _ => rfl, ?_⟩
      have hall : job.req.dma.ops.take job.ix = job.req.dma.ops := by
        refine List.take_of_length_le ?_
        simp only [Dma.ops, List.length_map, List.length_range]
        omega
      rw [hall] at hts
      exact hts

end Steps

end S4Sim
