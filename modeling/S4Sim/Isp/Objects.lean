-- Who holds the objects of the pool: each is at one place at most, in every run. The
-- objects of the free queue, of `cmplt_dma`, of other requests, of the applet and of the
-- command that runs never meet.
import S4Sim.Isp.Driver
import S4Sim.Lib.Run
import Mathlib.Data.List.Nodup

open Runs

namespace S4Sim

/-- The request object of the command that the NVMe thread works on. -/
def NvmePc.object : NvmePc → Option Nat
  | execute_objects req _ | execute_arguments req _ | execute_transfer req _ _
  | execute_message req _ | execute_post req _ | control_pending req
  | transfer_wait req _ _ _ => some req
  | free | recycle_exited | transfer_complete _ => none

namespace IspState

/-- The places of the pool and of the objects that a function will use. -/
def pooled (s : IspState) (x : Nat) : Nat :=
  s.free_req_objs.count x + s.cmplt_dma.count x + s.sync_nand_op_req.toList.count x

/-- In how many places the object `x` is. -/
def owners (s : IspState) (x : Nat) : Nat :=
  s.pooled x + s.others.count x + s.ctrl_cmd_req.toList.count x +
    s.applet.object.toList.count x + s.nvme.object.toList.count x

variable {s s' t : IspState} {x y : Nat} {c : Config}

/-! ## The pool -/

theorem malloc_cases (h : s.sys_malloc_req_obj = some (x, s')) :
    ∃ rest, s.free_req_objs = x :: rest ∧
      s' = { s with free_req_objs := rest }.setStage x .REQ_STAGE_INUSE := by
  unfold sys_malloc_req_obj at h
  split at h
  · cases h
  · rename_i y rest hfree
    cases h
    exact ⟨rest, hfree, rfl⟩

theorem enQueue_cases (q : List Nat) (x : Nat) :
    enQueue q x = some (q ++ [x]) ∨ enQueue q x = none := by
  unfold enQueue
  split
  · exact Or.inl rfl
  · exact Or.inr rfl

theorem writeObj_self {obj : HostDma} : (s.writeObj x obj).objs x = obj := Function.update_self ..

theorem writeObj_of_ne {obj : HostDma} (h : y ≠ x) : (s.writeObj x obj).objs y = s.objs y :=
  Function.update_of_ne h ..

theorem setStage_objs_of_ne {stage : ReqStage} (h : y ≠ x) :
    (s.setStage x stage).objs y = s.objs y := writeObj_of_ne h

/-- A change of the objects that no function uses yet. -/
structure PoolMove (s s' : IspState) : Prop where
  pooled : ∀ x, s'.pooled x ≤ s.pooled x
  objs : ∀ x, s.pooled x = 0 → s'.objs x = s.objs x
  rest : s' = { s with
    objs := s'.objs, free_req_objs := s'.free_req_objs, cmplt_dma := s'.cmplt_dma,
    sync_nand_op_req := s'.sync_nand_op_req }

theorem PoolMove.refl (s : IspState) : PoolMove s s := ⟨fun _ => le_rfl, fun _ _ => rfl, rfl⟩

theorem PoolMove.trans (h : PoolMove s s') (h' : PoolMove s' t) : PoolMove s t := by
  refine ⟨fun x => (h'.pooled x).trans (h.pooled x), ?_, ?_⟩
  · intro x hx
    have hx' : s'.pooled x = 0 := Nat.le_zero.mp (hx ▸ h.pooled x)
    rw [h'.objs x hx', h.objs x hx]
  · rw [h'.rest, h.rest]

/-- The loop that frees a list of objects. -/
theorem freeAll_spec (l : List Nat) (s : IspState) :
    (l.foldl sys_free_req_obj s).free_req_objs = s.free_req_objs ++ l ∧
      (∀ x, x ∉ l → (l.foldl sys_free_req_obj s).objs x = s.objs x) ∧
      l.foldl sys_free_req_obj s = { s with
        objs := (l.foldl sys_free_req_obj s).objs
        free_req_objs := (l.foldl sys_free_req_obj s).free_req_objs } := by
  induction l generalizing s with
  | nil => exact ⟨by simp, fun _ _ => rfl, rfl⟩
  | cons y l ih =>
    obtain ⟨hfree, hobjs, hrest⟩ := ih (s.sys_free_req_obj y)
    rw [List.foldl_cons]
    refine ⟨?_, ?_, ?_⟩
    · rw [hfree]
      simp [sys_free_req_obj, setStage, writeObj]
    · intro x hx
      rw [List.mem_cons, not_or] at hx
      rw [hobjs x hx.2]
      exact setStage_objs_of_ne hx.1
    · rw [hrest]
      rfl

theorem freeCompleted_move (s : IspState) : PoolMove s s.freeCompleted := by
  obtain ⟨hfree, hobjs, hrest⟩ := freeAll_spec s.cmplt_dma { s with cmplt_dma := [] }
  refine ⟨?_, ?_, ?_⟩
  · intro x
    unfold freeCompleted pooled
    rw [hrest, hfree]
    simp only [List.count_append, List.count_nil]
    omega
  · intro x hx
    apply hobjs
    intro hmem
    have := List.count_pos_iff.mpr hmem
    unfold pooled at hx
    omega
  · unfold freeCompleted
    rw [hrest]

/-- One turn of the loop that fills `cmplt_dma`. -/
theorem addCompleted_turn (h : s.sys_malloc_req_obj = some (x, s')) :
    PoolMove s (match enQueue s'.cmplt_dma x with
      | some cmplt_dma => { s' with cmplt_dma }
      | none => s'.sys_free_req_obj x) := by
  obtain ⟨rest, hfree, rfl⟩ := malloc_cases h
  have hobjs : ∀ y, s.pooled y = 0 → y ≠ x := by
    rintro y hy rfl
    unfold pooled at hy
    simp [hfree] at hy
  rcases enQueue_cases s.cmplt_dma x with hq | hq
  · rw [show enQueue (setStage { s with free_req_objs := rest } x .REQ_STAGE_INUSE).cmplt_dma x =
      some (s.cmplt_dma ++ [x]) from hq]
    refine ⟨?_, fun y hy => setStage_objs_of_ne (hobjs y hy), rfl⟩
    intro y
    simp only [pooled, setStage, writeObj, hfree, List.count_append, List.count_cons,
      List.count_nil]
    omega
  · rw [show enQueue (setStage { s with free_req_objs := rest } x .REQ_STAGE_INUSE).cmplt_dma x =
      none from hq]
    refine ⟨?_, ?_, rfl⟩
    · intro y
      simp only [pooled, sys_free_req_obj, setStage, writeObj, hfree, List.count_append,
        List.count_cons,
        List.count_nil]
      omega
    · intro y hy
      rw [sys_free_req_obj, setStage_objs_of_ne (hobjs y hy)]
      exact setStage_objs_of_ne (hobjs y hy)

theorem addCompleted_move {n : Nat} (h : addCompleted n s = some s') : PoolMove s s' := by
  induction n generalizing s with
  | zero =>
    cases h
    exact PoolMove.refl _
  | succ n ih =>
    obtain ⟨⟨x, s1⟩, hmalloc, hrest⟩ := Option.bind_eq_some_iff.mp h
    exact (addCompleted_turn hmalloc).trans (ih hrest)

/-- `execute_command` replaces the flash request of the thread slot. -/
theorem newNandOp_move (h : s.freeNandOp.sys_malloc_req_obj = some (x, s')) :
    PoolMove s { s' with sync_nand_op_req := some x } := by
  obtain ⟨rest, hfree, rfl⟩ := malloc_cases h
  unfold freeNandOp at hfree ⊢
  cases hop : s.sync_nand_op_req with
  | none =>
    simp only [hop] at hfree ⊢
    refine ⟨?_, ?_, rfl⟩
    · intro y
      simp only [pooled, setStage, writeObj, hop, hfree, List.count_cons, Option.toList_some,
        Option.toList_none, List.count_nil]
      omega
    · intro y hy
      apply setStage_objs_of_ne
      rintro rfl
      simp [pooled, hfree] at hy
  | some op =>
    simp only [hop] at hfree ⊢
    have hcount : ∀ y, s.pooled y = (x :: rest).count y + s.cmplt_dma.count y := by
      intro y
      rw [← hfree]
      simp only [pooled, sys_free_req_obj, setStage, writeObj, hop, List.count_append,
        Option.toList_some]
      omega
    refine ⟨?_, ?_, rfl⟩
    · intro y
      rw [hcount y]
      simp only [pooled, sys_free_req_obj, setStage, writeObj, List.count_cons, Option.toList_some,
        List.count_nil]
      omega
    · intro y hy
      have hne : y ≠ op ∧ y ≠ x := by
        constructor
        · rintro rfl
          simp [pooled, hop] at hy
        · rintro rfl
          simp [hcount] at hy
      rw [setStage_objs_of_ne hne.2]
      exact setStage_objs_of_ne hne.1

theorem execute_objects_move {req : Nat} {cmd : IspCommand}
    (h : s.execute_objects req cmd = some s') :
    ∃ t, PoolMove s t ∧ s' = { t with nvme := .execute_arguments req cmd } := by
  obtain ⟨s1, hadd, hrest⟩ := Option.bind_eq_some_iff.mp h
  obtain ⟨⟨op, s2⟩, hmalloc, he⟩ := Option.map_eq_some_iff.mp hrest
  refine ⟨_, ((freeCompleted_move s).trans (addCompleted_move hadd)).trans
    (newNandOp_move hmalloc), ?_⟩
  rw [← he]

/-! ## One place for each object -/

theorem PoolMove.owners (h : PoolMove s s') : s'.owners x ≤ s.owners x := by
  have hpooled := h.pooled x
  have hrest : s'.others = s.others ∧ s'.ctrl_cmd_req = s.ctrl_cmd_req ∧
      s'.applet = s.applet ∧ s'.nvme = s.nvme := by
    rw [h.rest]
    exact ⟨rfl, rfl, rfl, rfl⟩
  obtain ⟨hothers, hctrl, happlet, hnvme⟩ := hrest
  unfold IspState.owners
  rw [hothers, hctrl, happlet, hnvme]
  omega

/-- A request object that has no place yet comes to the command that runs. -/
theorem owners_execute_command {req : Nat} {cmd : IspCommand} (hn : s.nvme = .free) :
    (s.execute_command req cmd).owners x = s.owners x + [req].count x := by
  unfold execute_command freeControl
  split
  · rename_i hctrl
    simp only [owners, pooled, hn, NvmePc.object, Option.toList_none, Option.toList_some,
      List.count_nil]
    omega
  · rename_i ctrl hctrl
    have hctrl : s.ctrl_cmd_req = some ctrl := hctrl
    simp only [owners, pooled, sys_free_req_obj, setStage, writeObj, hn, hctrl, NvmePc.object,
      List.count_append, Option.toList_none, Option.toList_some, List.count_nil]
    omega

theorem owners_enqueue {req dw0 : Nat} :
    (s.enqueue_io_ccmd req dw0).owners x = s.owners x + [req].count x := by
  simp only [owners, pooled, enqueue_io_ccmd, List.count_append]
  omega

theorem owners_post_dma_msg {dma_req req : Nat} :
    (s.post_dma_msg dma_req req).owners x = s.owners x + [req].count x := owners_enqueue

theorem owners_control_command {req : Nat} (hn : s.nvme = .free) :
    (s.control_command req).owners x = s.owners x + [req].count x := by
  unfold control_command
  split
  · exact owners_enqueue
  · simp only [owners, pooled, hn, NvmePc.object, Option.toList_none, Option.toList_some,
      List.count_nil]
    omega

theorem owners_data_transfer {req : Nat} {cmd : IspCommand} (hn : s.nvme = .free)
    (h : s.data_transfer_command c req cmd = some s') :
    s'.owners x = s.owners x + [req].count x := by
  obtain ⟨y, -, hws⟩ := Option.bind_eq_some_iff.mp h
  obtain ⟨ws, -, rfl⟩ := Option.map_eq_some_iff.mp hws
  simp only [owners, pooled, setStage, writeObj, hn, NvmePc.object,
    Option.toList_none, Option.toList_some, List.count_nil]
  omega

theorem owners_isp_io {opcode req : Nat} {cmd : IspCommand} (hn : s.nvme = .free)
    (h : s.isp_io c opcode req cmd = some s') : s'.owners x ≤ s.owners x + [req].count x := by
  unfold isp_io at h
  split at h
  · cases h
    exact (owners_execute_command hn).le
  · cases h
    exact (owners_control_command hn).le
  · exact (owners_data_transfer hn h).le
  · cases h
    omega

theorem owners_malloc (h : s.sys_malloc_req_obj = some (y, s')) :
    s'.owners x + [y].count x = s.owners x ∧ s'.nvme = s.nvme := by
  obtain ⟨rest, hfree, rfl⟩ := malloc_cases h
  refine ⟨?_, rfl⟩
  simp only [owners, pooled, setStage, writeObj, hfree, List.count_cons, List.count_nil]
  omega

theorem owners_free : (s.sys_free_req_obj y).owners x = s.owners x + [y].count x := by
  simp only [owners, pooled, sys_free_req_obj, setStage, writeObj, List.count_append]
  omega

theorem owners_writeObj {obj : HostDma} : (s.writeObj y obj).owners x = s.owners x := rfl

theorem owners_msg_cbk {m : MsgOut} (h : s.msg_cbk m = some s') : s'.owners x ≤ s.owners x := by
  unfold msg_cbk at h
  split at h
  · split at h
    · split at h
      · cases h
        exact le_rfl
      · rename_i req hctrl
        cases h
        rw [owners_post_dma_msg]
        simp only [owners, pooled, hctrl, Option.toList_none, Option.toList_some, List.count_nil]
        omega
    · cases h
  · cases h
    exact le_rfl
  · split at h
    · cases h
      exact le_rfl
    · rename_i req hctrl
      cases h
      rw [owners_enqueue]
      simp only [owners, pooled, hctrl, Option.toList_none, Option.toList_some, List.count_nil]
      omega

theorem owners_recycle (hn : s.nvme = .free) :
    s.recycle_control_command.owners x ≤ s.owners x := by
  unfold recycle_control_command
  split
  · exact le_rfl
  · rename_i req hctrl
    split
    · rw [owners_post_dma_msg]
      simp only [owners, pooled, hctrl, Option.toList_none, Option.toList_some, List.count_nil]
      omega
    · simp only [owners, pooled, hn, NvmePc.object]
      omega

theorem owners_take {task : NvmeTask} (hn : s.nvme = .free) (h : s.take c task = some s') :
    s'.owners x ≤ s.owners x := by
  cases task with
  | isp_io opcode cmd obj =>
    obtain ⟨⟨req, s1⟩, hmalloc, hrest⟩ := Option.bind_eq_some_iff.mp h
    obtain ⟨hcount, hnvme⟩ := owners_malloc (x := x) hmalloc
    have hle := owners_isp_io (s := s1.writeObj req obj) (x := x) (hnvme.trans hn) hrest
    rw [owners_writeObj] at hle
    omega
  | msg_out =>
    simp only [take] at h
    split at h
    · cases h
      exact le_rfl
    · rename_i m rest hq
      exact owners_msg_cbk (s := { s with msg_out_q := rest }) h
  | recycle =>
    simp only [take] at h
    split at h
    · cases h
      exact le_rfl
    · cases h
      exact owners_recycle (s := { s with recycles := _ }) hn
  | fw_download num_dwords dword_off cmd =>
    obtain ⟨ws, -, hws⟩ := Option.bind_eq_some_iff.mp h
    split at hws
    · cases hws
      exact le_rfl
    · cases hws
  | fw_activate =>
    cases h
    unfold add_applet
    simp only
    split <;> exact le_rfl
  | other_malloc obj =>
    obtain ⟨⟨y, s1⟩, hmalloc, rfl⟩ := Option.map_eq_some_iff.mp h
    have hcount := (owners_malloc (x := x) hmalloc).1
    simp only [owners, pooled, writeObj, List.count_append] at hcount ⊢
    omega
  | other_write y obj =>
    simp only [take] at h
    split at h <;> cases h <;> exact le_rfl
  | other_free y =>
    simp only [take] at h
    split at h
    · rename_i hy
      cases h
      rw [owners_free]
      have hpos := List.count_pos_iff.mpr hy
      by_cases hxy : y = x
      · subst hxy
        simp only [owners, pooled, List.count_erase_self, List.count_singleton_self]
        omega
      · simp only [owners, pooled, List.count_erase_of_ne (Ne.symm hxy), List.count_singleton,
          beq_iff_eq, hxy, if_false]
        omega
    · cases h
      exact le_rfl

theorem owners_nvmeContinue (h : s.nvmeContinue c = some s') : s'.owners x ≤ s.owners x := by
  unfold nvmeContinue at h
  split at h
  · cases h
    exact le_rfl
  · rename_i req cmd hn
    obtain ⟨t, hmove, rfl⟩ := execute_objects_move h
    have hle := hmove.owners (x := x)
    have hnvme : t.nvme = s.nvme := by rw [hmove.rest]
    simp only [owners, pooled, hnvme, hn, NvmePc.object] at hle ⊢
    exact hle
  · rename_i req cmd hn
    unfold execute_arguments at h
    split at h
    · obtain ⟨ws, -, rfl⟩ := Option.map_eq_some_iff.mp h
      simp only [owners, pooled, hn, NvmePc.object]
      exact le_rfl
    · cases h
      simp only [owners, pooled, hn, NvmePc.object]
      exact le_rfl
  · rename_i req cmd ws hn
    unfold execute_transfer at h
    split at h
    · cases h
      simp only [owners, pooled, hn, NvmePc.object]
      exact le_rfl
    · cases h
  · rename_i req cmd hn
    cases h
    simp only [owners, pooled, execute_message, hn, NvmePc.object]
    exact le_rfl
  · rename_i req cmd hn
    cases h
    unfold execute_post
    rw [owners_enqueue]
    simp only [owners, pooled, hn, NvmePc.object, Option.toList_none, Option.toList_some,
      List.count_nil]
    omega
  · rename_i req hn
    cases h
    unfold control_pending
    split
    · rw [owners_post_dma_msg]
      simp only [owners, pooled, hn, NvmePc.object, Option.toList_none, Option.toList_some,
        List.count_nil]
      omega
    · simp only [owners, pooled, hn, NvmePc.object, Option.toList_none, Option.toList_some,
        List.count_nil]
      omega
  · rename_i hn
    obtain ⟨req, hctrl, rfl⟩ := Option.map_eq_some_iff.mp h
    rw [owners_enqueue]
    simp only [owners, pooled, hn, hctrl, NvmePc.object, Option.toList_none, Option.toList_some,
      List.count_nil]
    omega
  · rename_i req y dw0 transfer hn
    cases h
    unfold transfer_wait
    rw [owners_enqueue]
    simp only [owners, pooled, writeObj, hn, NvmePc.object, Option.toList_none, Option.toList_some,
      List.count_nil]
    omega
  · rename_i y hn
    cases h
    simp only [owners, pooled, transfer_complete, setStage, writeObj, hn, NvmePc.object]
    exact le_rfl

theorem owners_appletStep (h : s.appletStep = some s') : s'.owners x ≤ s.owners x := by
  unfold appletStep at h
  split at h <;> rename_i hpc
  · split at h
    · cases h
      exact le_rfl
    · cases h
      simp only [owners, pooled, hpc, AppletPc.object]
      exact le_rfl
  · cases h
    exact le_rfl
  · cases h
    exact le_rfl
  · unfold dequeue_dma_req at h
    split at h
    · cases h
    · rename_i y rest hq
      cases h
      simp only [owners, pooled, hpc, hq, AppletPc.object, Option.toList_none, Option.toList_some,
        List.count_cons, List.count_nil]
      omega
  · cases h
    simp only [owners, pooled, fill_dma_req, hpc, AppletPc.object]
    exact le_rfl
  · cases h
    simp only [owners, pooled, enqueue_dma_req, hpc, AppletPc.object]
    exact le_rfl
  · cases h
    simp only [owners, pooled, push_dma_req, hpc, AppletPc.object]
    exact le_rfl
  · cases h
    unfold wait_dma_req
    split
    · simp only [owners, pooled, hpc, AppletPc.object]
      exact le_rfl
    · exact le_rfl
  · rename_i y chunks
    cases h
    rcases enQueue_cases s.cmplt_dma y with hq | hq <;>
      simp only [owners, pooled, return_dma_req, hq, hpc, AppletPc.object, Option.getD_some,
        Option.getD_none, List.count_append, Option.toList_none, Option.toList_some,
        List.count_nil] <;>
      omega
  · obtain ⟨y, -, rfl⟩ := Option.map_eq_some_iff.mp h
    simp only [owners, pooled, hpc, AppletPc.object]
    exact le_rfl
  · obtain ⟨y, -, rfl⟩ := Option.map_eq_some_iff.mp h
    split
    · simp only [owners, pooled, hpc, AppletPc.object]
      exact le_rfl
    · exact le_rfl
  · cases h
    simp only [owners, pooled, hpc, AppletPc.object]
    exact le_rfl

/-- No step puts an object at one more place. -/
theorem owners_step {a : IspAction} (h : ispStep c s a = some s') : s'.owners x ≤ s.owners x := by
  cases a with
  | nvme task =>
    simp only [ispStep] at h
    split at h
    · rename_i hn
      exact owners_take hn h
    · cases h
      exact le_rfl
  | nvme_continue => exact owners_nvmeContinue h
  | applet => exact owners_appletStep h
  | call low =>
    simp only [ispStep] at h
    split at h <;> cases h
    · rename_i hpc
      simp only [owners, pooled, call_function, hpc, AppletPc.object]
      exact le_rfl
    · exact le_rfl
  | host_dma start_mem_page ssd_addr size write =>
    simp only [ispStep] at h
    split at h <;> cases h
    · rename_i hpc
      simp only [owners, pooled, do_sync_host_dma, hpc, AppletPc.object]
      exact le_rfl
    · exact le_rfl
  | nand_op op =>
    simp only [ispStep] at h
    split at h
    · rename_i hpc
      obtain ⟨y, -, rfl⟩ := Option.map_eq_some_iff.mp h
      simp only [owners, pooled, hpc, AppletPc.object]
      exact le_rfl
    · cases h
      exact le_rfl
  | return_function =>
    simp only [ispStep] at h
    split at h <;> cases h
    · rename_i hpc
      simp only [owners, pooled, hpc, AppletPc.object]
      exact le_rfl
    · exact le_rfl
  | ftl =>
    simp only [ispStep] at h
    split at h <;> cases h <;> exact le_rfl

end IspState

/-- Each object is at one place at most. -/
def OnePlace (s : IspState) : Prop := ∀ x, s.owners x ≤ 1

theorem onePlace_initial (objs : Nat → HostDma) (arg_buffer code : Nat → UInt8) :
    OnePlace (initialIsp objs arg_buffer code) := by
  intro x
  have hcount := List.nodup_iff_count_le_one.mp (List.nodup_range (n := O_SIZE - 1)) x
  simpa [IspState.owners, IspState.pooled, initialIsp, AppletPc.object, NvmePc.object] using hcount

theorem OnePlace.step {c : Config} {s s' : IspState} {a : IspAction} (hs : OnePlace s)
    (h : ispStep c s a = some s') : OnePlace s' := fun x => (IspState.owners_step h).trans (hs x)

end S4Sim
