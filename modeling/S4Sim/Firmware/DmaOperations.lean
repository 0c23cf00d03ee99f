-- The two loops of host_dma.c that move data. `do_sync_rw_io_dma_operation` goes through
-- all segments of a READ or WRITE. `do_sync_dma_operation` starts at a segment and stops at
-- a length, both fields of the descriptor. Each turn writes the registers of the host
-- interface and waits until the transfer is complete.
import Mathlib.Data.List.TakeDrop
import S4Sim.Isp.Types

namespace S4Sim

/-- `dma_t` with the fields of the operation. A pointer of the SSD has 32 bits. -/
structure HostDmaMeta extends Dma where
  host_dma_complete : Bool
  buffer_addr : Nat
  c_op_smem_pg : Nat
  c_op_len : Nat

/-- The registers when `cmd` is written, which starts a transfer. -/
structure HostTransfer where
  dma_addr : Nat
  size : Nat
  buffMgtID : Nat
  ssdAddr : Nat
  cmd : Nat
  deriving DecidableEq, Repr

namespace HostDmaMeta

/-- The turns of `do_sync_rw_io_dma_operation`. -/
def rwTurns (op : Nat) : List DmaOp → (next_ssd_addr : Nat) → List HostTransfer
  | [], _ => []
  | e :: rest, next_ssd_addr =>
    ⟨e.host_p_addr, e.len, 0, next_ssd_addr, op⟩ ::
      rwTurns op rest ((next_ssd_addr + e.len) % 2 ^ 32)

/-- The turns of `do_sync_dma_operation`. -/
def syncTurns (op : Nat) : List DmaOp → (next_ssd_addr r_len : Nat) → List HostTransfer
  | [], _, _ => []
  | e :: rest, next_ssd_addr, r_len =>
    if r_len = 0 then []
    else
      let tran_len := min e.len r_len
      ⟨e.host_p_addr, tran_len, 0, next_ssd_addr, op⟩ ::
        syncTurns op rest ((next_ssd_addr + tran_len) % 2 ^ 32) (r_len - tran_len)

variable (dma : HostDmaMeta) (op : Nat)

/-- The transfers in order, and the descriptor after them. -/
def do_sync_rw_io_dma_operation : List HostTransfer × HostDmaMeta :=
  (rwTurns op dma.ops dma.buffer_addr, { dma with host_dma_complete := true })

/-- The first value of `r_len`. -/
def requested : Nat := if dma.c_op_len ≠ 0 then dma.c_op_len else dma.data_size

/-- The segments from `c_op_smem_pg` up to `n_ops`. -/
def segments : List DmaOp := dma.ops.drop dma.c_op_smem_pg

def do_sync_dma_operation : List HostTransfer × HostDmaMeta :=
  (syncTurns op dma.segments dma.buffer_addr dma.requested,
    { dma with c_op_len := 0, c_op_smem_pg := 0, host_dma_complete := true })

end HostDmaMeta

/-! ## The bytes of the transfers -/

/-- The host addresses and the SSD addresses of the bytes that a transfer moves. -/
def HostTransfer.moves (t : HostTransfer) : List (Nat × Nat) :=
  (List.range t.size).map fun k => (t.dma_addr + k, (t.ssdAddr + k) % 2 ^ 32)

/-- The host addresses of the bytes of the segments, in order. -/
def hostBytes (ops : List DmaOp) : List Nat :=
  ops.flatMap fun e => (List.range e.len).map (e.host_p_addr + ·)

/-- Host bytes to or from consecutive SSD addresses. -/
def movesFrom (ssd_addr : Nat) (hosts : List Nat) : List (Nat × Nat) :=
  hosts.mapIdx fun k host => (host, (ssd_addr + k) % 2 ^ 32)

section

variable {op a b r : Nat} {ops : List DmaOp} {xs ys : List Nat}

theorem hostBytes_length : (hostBytes ops).length = opsBytes ops := by
  simp [hostBytes, opsBytes, List.length_flatMap]

theorem movesFrom_append :
    movesFrom a (xs ++ ys) = movesFrom a xs ++ movesFrom (a + xs.length) ys := by
  unfold movesFrom
  rw [List.mapIdx_append]
  congr 2
  funext k host
  rw [Nat.add_assoc, Nat.add_comm k]

theorem movesFrom_mod : movesFrom (a % 2 ^ 32) xs = movesFrom a xs := by
  unfold movesFrom
  simp only [Nat.mod_add_mod]

theorem moves_eq (e : DmaOp) (n : Nat) :
    HostTransfer.moves ⟨e.host_p_addr, n, 0, a, op⟩ =
      movesFrom a ((List.range n).map (e.host_p_addr + ·)) := by
  apply List.ext_getElem
  · simp [HostTransfer.moves, movesFrom]
  · intro i hi hi'
    simp [HostTransfer.moves, movesFrom]

/-! ## The turns of a length -/

/-- The turns take the host bytes segment by segment, up to the length. -/
theorem syncTurns_moves :
    (HostDmaMeta.syncTurns op ops a r).flatMap HostTransfer.moves =
      movesFrom a ((hostBytes ops).take r) := by
  induction ops generalizing a r with
  | nil => simp [HostDmaMeta.syncTurns, hostBytes, movesFrom]
  | cons e ops ih =>
    unfold HostDmaMeta.syncTurns
    by_cases hr : r = 0
    · simp [hr, movesFrom]
    · have hfirst : ((List.range e.len).map (e.host_p_addr + ·)).take r =
          (List.range (min e.len r)).map (e.host_p_addr + ·) := by
        rw [← List.map_take, List.take_range, Nat.min_comm]
      have hrest : r - e.len = r - min e.len r := by omega
      have hbytes : hostBytes (e :: ops) =
          (List.range e.len).map (e.host_p_addr + ·) ++ hostBytes ops := rfl
      rw [if_neg hr, List.flatMap_cons, ih, movesFrom_mod, moves_eq, hbytes, List.take_append,
        movesFrom_append, hfirst, List.length_map, List.length_range, List.length_map,
        List.length_range, hrest]

/-- As many bytes as the length and the segments allow. -/
theorem syncTurns_sizes :
    ((HostDmaMeta.syncTurns op ops a r).map HostTransfer.size).sum = min r (opsBytes ops) := by
  have hmoves : ((HostDmaMeta.syncTurns op ops a r).flatMap HostTransfer.moves).length =
      (movesFrom a ((hostBytes ops).take r)).length := congrArg List.length syncTurns_moves
  rw [List.length_flatMap, movesFrom, List.length_mapIdx, List.length_take, hostBytes_length]
    at hmoves
  simpa [HostTransfer.moves] using hmoves

/-- The turns are those of the first segments, one each. -/
theorem syncTurns_segments :
    (HostDmaMeta.syncTurns op ops a r).map HostTransfer.dma_addr <+:
      ops.map DmaOp.host_p_addr := by
  induction ops generalizing a r with
  | nil => exact List.prefix_refl _
  | cons e ops ih =>
    unfold HostDmaMeta.syncTurns
    by_cases hr : r = 0
    · rw [if_pos hr]
      exact List.nil_prefix
    · rw [if_neg hr, List.map_cons, List.map_cons]
      exact (List.prefix_cons_inj _).mpr ih

theorem syncTurns_cmd : ∀ t ∈ HostDmaMeta.syncTurns op ops a r, t.cmd = op ∧ t.buffMgtID = 0 := by
  induction ops generalizing a r with
  | nil => exact fun t ht => absurd ht List.not_mem_nil
  | cons e ops ih =>
    unfold HostDmaMeta.syncTurns
    by_cases hr : r = 0
    · rw [if_pos hr]
      exact fun t ht => absurd ht List.not_mem_nil
    · rw [if_neg hr]
      exact List.forall_mem_cons.mpr ⟨⟨rfl, rfl⟩, ih⟩

/-- Segments without bytes. -/
theorem rwTurns_empty (h : opsBytes ops = 0) : ∀ t ∈ HostDmaMeta.rwTurns op ops a, t.size = 0 := by
  induction ops generalizing a with
  | nil => exact fun t ht => absurd ht List.not_mem_nil
  | cons e ops ih =>
    have hbytes : opsBytes (e :: ops) = e.len + opsBytes ops := opsBytes_cons
    have hlen : e.len = 0 := by omega
    exact List.forall_mem_cons.mpr ⟨hlen, ih (by omega)⟩

/-- For the length of all segments, both loops make the same transfers but for the empty ones. -/
theorem syncTurns_all :
    (HostDmaMeta.syncTurns op ops a (opsBytes ops)).filter (fun t => t.size ≠ 0) =
      (HostDmaMeta.rwTurns op ops a).filter fun t => t.size ≠ 0 := by
  induction ops generalizing a with
  | nil => rfl
  | cons e ops ih =>
    have hbytes : opsBytes (e :: ops) = e.len + opsBytes ops := opsBytes_cons
    by_cases hzero : opsBytes (e :: ops) = 0
    · have hempty : ∀ t ∈ HostDmaMeta.rwTurns op (e :: ops) a, t.size = 0 := rwTurns_empty hzero
      rw [hzero]
      unfold HostDmaMeta.syncTurns
      rw [if_pos rfl, List.filter_nil, eq_comm, List.filter_eq_nil_iff]
      intro t ht
      simp [hempty t ht]
    · unfold HostDmaMeta.syncTurns HostDmaMeta.rwTurns
      have hmin : min e.len (opsBytes (e :: ops)) = e.len := by omega
      have hrest : opsBytes (e :: ops) - e.len = opsBytes ops := by omega
      rw [if_neg hzero]
      simp only [hmin]
      rw [List.filter_cons, List.filter_cons, hrest, ih]

/-- The turns are those that the ISP driver takes, with addresses of 32 bits. -/
theorem syncTurns_windows :
    (HostDmaMeta.syncTurns op ops (a % 2 ^ 32) r).map
        (fun t => (⟨t.dma_addr, t.ssdAddr, t.size⟩ : DmaWindow)) =
      (dmaWindows ops a r).map fun w => { w with ssd_addr := w.ssd_addr % 2 ^ 32 } := by
  induction ops generalizing a r with
  | nil => rfl
  | cons e ops ih =>
    unfold HostDmaMeta.syncTurns dmaWindows
    by_cases hr : r = 0
    · simp [hr]
    · rw [if_neg hr, if_neg hr, List.map_cons, List.map_cons, Nat.mod_add_mod, ih]

end

/-! ## The two operations -/

theorem dma_operations_agree (dma : HostDmaMeta) (op : Nat) :
    let (issued, dma') := dma.do_sync_dma_operation op
    issued.flatMap HostTransfer.moves =
        movesFrom dma.buffer_addr ((hostBytes dma.segments).take dma.requested) ∧
      (issued.map HostTransfer.size).sum = min dma.requested (opsBytes dma.segments) ∧
      issued.map HostTransfer.dma_addr <+: dma.segments.map DmaOp.host_p_addr ∧
      (∀ t ∈ issued, t.cmd = op ∧ t.buffMgtID = 0) ∧
      dma'.c_op_len = 0 ∧ dma'.c_op_smem_pg = 0 ∧
      (dma.c_op_smem_pg = 0 → dma.requested = opsBytes dma.ops →
        issued.filter (fun t => t.size ≠ 0) =
          (dma.do_sync_rw_io_dma_operation op).1.filter fun t => t.size ≠ 0) := by
  refine ⟨syncTurns_moves, syncTurns_sizes, syncTurns_segments, syncTurns_cmd, rfl, rfl, ?_⟩
  intro hfirst hlen
  show (HostDmaMeta.syncTurns op dma.segments dma.buffer_addr dma.requested).filter _ = _
  rw [HostDmaMeta.segments, hfirst, List.drop_zero, hlen]
  exact syncTurns_all

end S4Sim
