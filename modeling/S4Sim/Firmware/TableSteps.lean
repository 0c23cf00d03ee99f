-- What the steps of the firmware do to the mapping tables and the flash. Only two
-- functions change the tables: `make_new_mapping`, on the FTL thread, and
-- `store_mapping_tables`, in an idle poll of the NVMe thread. So the pages that are
-- handed out are those below a number that only grows.
import S4Sim.Firmware.Threads
import S4Sim.Ftl.PageSteps
import S4Sim.Lib.Run

open Runs

namespace S4Sim

variable {c : Config} {env : Env} {s s' t : State} {req : Req}

/-! ## Steps that leave the tables -/

/-- The step leaves the tables, the flash and the counter of idle polls. -/
structure SameTables (s s' : State) : Prop where
  ftl : s'.ftl.ftl = s.ftl.ftl
  flash : s'.ftl.flash = s.ftl.flash
  idle : s'.idleTimeCounter = s.idleTimeCounter

theorem SameTables.refl (s : State) : SameTables s s := ⟨rfl, rfl, rfl⟩

theorem SameTables.trans (h : SameTables s t) (h' : SameTables t s') : SameTables s s' :=
  ⟨h'.ftl.trans h.ftl, h'.flash.trans h.flash, h'.idle.trans h.idle⟩

/-- The step starts in a state with the same tables. -/
theorem SameTables.from_same (h : SameTables t s') (hftl : t.ftl.ftl = s.ftl.ftl)
    (hflash : t.ftl.flash = s.ftl.flash) (hidle : t.idleTimeCounter = s.idleTimeCounter) :
    SameTables s s' := SameTables.trans ⟨hftl, hflash, hidle⟩ h

theorem sameTables_enqueue {q : Nat} (h : s.enqueue_io_ccmd q req = some s') :
    SameTables s s' := by
  obtain ⟨d, -, rfl⟩ := Option.map_eq_some_iff.mp h
  exact ⟨rfl, rfl, rfl⟩

theorem sameTables_read_step_2 : SameTables s (process_read_ios_step_2 s) := by
  unfold process_read_ios_step_2
  generalize s.buf.r_buf_q = l
  induction l generalizing s with
  | nil => exact ⟨rfl, rfl, rfl⟩
  | cons req l ih =>
    unfold read_ios_step_2
    split
    · exact ⟨rfl, rfl, rfl⟩
    · exact SameTables.from_same ih rfl rfl rfl

theorem sameTables_write_step_2 : SameTables s (process_write_ios_step_2 c s) := by
  unfold process_write_ios_step_2
  split
  · exact .refl s
  · split
    · exact .refl s
    · exact ⟨rfl, rfl, rfl⟩

theorem sameTables_read_io (h : process_read_io c env req s = some s') : SameTables s s' := by
  unfold process_read_io at h
  simp only at h
  split at h
  · obtain ⟨req1, -, rfl⟩ := Option.map_eq_some_iff.mp h
    exact SameTables.from_same sameTables_read_step_2 rfl rfl rfl
  · exact sameTables_enqueue h

theorem sameTables_write_io (h : process_write_io c env req s = some s') : SameTables s s' := by
  unfold process_write_io at h
  simp only at h
  split at h
  · obtain ⟨req1, -, rfl⟩ := Option.map_eq_some_iff.mp h
    exact SameTables.from_same sameTables_write_step_2 rfl rfl rfl
  · exact sameTables_enqueue h

theorem sameTables_flush_io (h : process_flush_io env req s = some s') : SameTables s s' := by
  obtain ⟨s1, hs1, rfl⟩ := Option.map_eq_some_iff.mp h
  exact (sameTables_enqueue hs1).trans ⟨rfl, rfl, rfl⟩

/-! ## ISP commands -/

theorem sameTables_post_dma_msg {dma_req : IspDma} (h : post_dma_msg dma_req req s = some s') :
    SameTables s s' := SameTables.from_same (sameTables_enqueue h) rfl rfl rfl

theorem sameTables_execute (h : execute_command c env req s = some s') : SameTables s s' := by
  obtain ⟨req1, -, hs1⟩ := Option.bind_eq_some_iff.mp h
  exact SameTables.from_same (sameTables_enqueue hs1) rfl rfl rfl

theorem sameTables_control (h : control_command req s = some s') : SameTables s s' := by
  unfold control_command at h
  split at h
  · exact sameTables_enqueue h
  · split at h
    · exact SameTables.from_same (sameTables_post_dma_msg h) rfl rfl rfl
    · cases h
      exact ⟨rfl, rfl, rfl⟩

theorem sameTables_data_transfer (h : data_transfer_command c env req s = some s') :
    SameTables s s' := by
  obtain ⟨-, -, hs1⟩ := Option.bind_eq_some_iff.mp h
  obtain ⟨req1, -, henq⟩ := Option.bind_eq_some_iff.mp hs1
  exact sameTables_enqueue henq

theorem sameTables_isp_io (h : process_isp_io c env req s = some s') : SameTables s s' := by
  obtain ⟨s1, hs1, rfl⟩ := Option.map_eq_some_iff.mp h
  have hadd : SameTables s1 (s1.sys_add_callback_ftn .check_door_bell) := ⟨rfl, rfl, rfl⟩
  simp only at hs1
  split at hs1
  · exact (sameTables_execute hs1).trans hadd
  · exact (sameTables_control hs1).trans hadd
  · exact (sameTables_data_transfer hs1).trans hadd

theorem sameTables_recycle (h : recycle_control_command s = some s') : SameTables s s' := by
  unfold recycle_control_command at h
  split at h
  · cases h
    exact .refl s
  · simp only at h
    split at h
    · exact SameTables.from_same (sameTables_post_dma_msg h) rfl rfl rfl
    · split at h
      · exact SameTables.from_same (sameTables_enqueue h) rfl rfl rfl
      · exact SameTables.from_same (sameTables_enqueue h) rfl rfl rfl

theorem sameTables_msg_cbk {msg : IspMsg} (h : msg_cbk s msg = some s') : SameTables s s' := by
  unfold msg_cbk at h
  split at h
  · split at h
    · cases h
      exact .refl s
    · exact SameTables.from_same (sameTables_post_dma_msg h) rfl rfl rfl
  · cases h
    exact ⟨rfl, rfl, rfl⟩
  · split at h
    · cases h
      exact .refl s
    · exact SameTables.from_same (sameTables_enqueue h) rfl rfl rfl

theorem sameTables_io_cmd {sqid : Nat} (h : process_io_cmd c env sqid s = some s') :
    SameTables s s' := by
  obtain ⟨d, -, hs⟩ := Option.bind_eq_some_iff.mp h
  have hd : SameTables s { s with driver := d } := ⟨rfl, rfl, rfl⟩
  simp only at hs
  split at hs
  · obtain ⟨req, -, hs⟩ := Option.bind_eq_some_iff.mp hs
    exact hd.trans (sameTables_read_io hs)
  · obtain ⟨req, -, hs⟩ := Option.bind_eq_some_iff.mp hs
    exact hd.trans (sameTables_write_io hs)
  · obtain ⟨req, -, hs⟩ := Option.bind_eq_some_iff.mp hs
    exact hd.trans (sameTables_flush_io hs)
  · obtain ⟨req, -, hs⟩ := Option.bind_eq_some_iff.mp hs
    exact hd.trans (sameTables_isp_io hs)
  · obtain ⟨req, -, hs⟩ := Option.bind_eq_some_iff.mp hs
    exact hd.trans (sameTables_isp_io hs)
  · obtain ⟨req, -, hs⟩ := Option.bind_eq_some_iff.mp hs
    exact hd.trans (sameTables_isp_io hs)
  · cases hs
    exact ⟨rfl, rfl, rfl⟩

/-! ## The NVMe thread -/

/-- `sys_host_shutdown`, for the FTL: `shutdown_nand_io_driver` and `shutdown_nvme_driver` touch
neither the tables nor the flash. `none`: it does not return. -/
def sys_host_shutdown (c : Config) (f : FtlThread) : Option FtlThread :=
  (store_mapping_tables c.g f.ftl).map fun ftl =>
    { f with ftl, flash := programAll c f.flash ftl }

/-- What a step of the NVMe thread does to the tables and the counter of idle polls: nothing,
or one idle poll, with or without a shutdown. -/
inductive NvmeTables (c : Config) (s s' : State) : Prop
  | same (h : SameTables s s')
  | counted (hlt : s.idleTimeCounter + 1 < 10000)
    (hidle : s'.idleTimeCounter = s.idleTimeCounter + 1) (hftl : s'.ftl = s.ftl)
  | reset (hidle : s'.idleTimeCounter = 0) (hftl : s'.ftl = s.ftl)
  | saved (hidle : s'.idleTimeCounter = 0) (hftl : sys_host_shutdown c s.ftl = some s'.ftl)

theorem NvmeTables.from_same (h : NvmeTables c t s') (hftl : t.ftl = s.ftl)
    (hidle : t.idleTimeCounter = s.idleTimeCounter) : NvmeTables c s s' := by
  cases h with
  | same h => exact .same (h.from_same (by rw [hftl]) (by rw [hftl]) hidle)
  | counted hlt hcount hf =>
    rw [hidle] at hlt hcount
    exact .counted hlt hcount (hf.trans hftl)
  | reset hidle hf => exact .reset hidle (hf.trans hftl)
  | saved hidle hf =>
    rw [hftl] at hf
    exact .saved hidle hf

theorem idle_poll_tables (h : idle_poll c env s = some s') : NvmeTables c s s' := by
  unfold idle_poll at h
  simp only at h
  split at h
  · obtain ⟨d, -, rfl⟩ := Option.map_eq_some_iff.mp h
    split
    · split
      · exact .same ⟨rfl, rfl, rfl⟩
      · rename_i ftl hstore
        have hstore : store_mapping_tables c.g s.ftl.ftl = some ftl := hstore
        apply NvmeTables.saved rfl
        unfold sys_host_shutdown
        rw [hstore]
        rfl
    · exact .reset rfl rfl
  · rename_i hlt
    cases h
    exact .counted (by omega) rfl rfl

theorem check_door_bell_tables (h : check_door_bell c env s = some s') : NvmeTables c s s' := by
  unfold check_door_bell at h
  split at h
  · obtain ⟨d, -, hs⟩ := Option.bind_eq_some_iff.mp h
    split at hs
    · exact .same (SameTables.from_same (sameTables_io_cmd hs) rfl rfl rfl)
    · obtain ⟨d', -, rfl⟩ := Option.map_eq_some_iff.mp hs
      exact .same ⟨rfl, rfl, rfl⟩
  · split at h
    · obtain ⟨d', -, rfl⟩ := Option.map_eq_some_iff.mp h
      exact .same ⟨rfl, rfl, rfl⟩
    · exact idle_poll_tables h

theorem completed_req_cbk_tables (job : FtlJob) : SameTables s (completed_req_cbk s job) := by
  cases job <;> exact ⟨rfl, rfl, rfl⟩

/-- Every step of the NVMe thread is one of these. -/
theorem nvmeStep_tables (h : nvmeStep c env s = some s') : NvmeTables c s s' := by
  unfold nvmeStep at h
  split at h
  · cases h
    exact .same ⟨rfl, rfl, rfl⟩
  · rename_i task rest htodo
    have htask : SameTables s { s with todo := rest } := ⟨rfl, rfl, rfl⟩
    cases task with
    | callback =>
      simp only [runTask] at h
      split at h
      · cases h
        exact .same ⟨rfl, rfl, rfl⟩
      · exact (check_door_bell_tables h).from_same rfl rfl
      · exact .same (SameTables.from_same (sameTables_recycle h) rfl rfl rfl)
    | msg_out =>
      simp only [runTask] at h
      split at h
      · cases h
        exact .same ⟨rfl, rfl, rfl⟩
      · exact .same (SameTables.from_same (sameTables_msg_cbk h) rfl rfl rfl)
    | ftl_out =>
      simp only [runTask] at h
      split at h
      · cases h
        exact .same ⟨rfl, rfl, rfl⟩
      · cases h
        exact .same (SameTables.from_same (completed_req_cbk_tables _) rfl rfl rfl)
    | read_ios_step_2 =>
      cases h
      exact .same (htask.trans sameTables_read_step_2)
    | write_ios_step_2 =>
      cases h
      exact .same (htask.trans sameTables_write_step_2)
    | read_dma req =>
      simp only [runTask] at h
      split at h
      · cases h
        exact .same ⟨rfl, rfl, rfl⟩
      · exact .same (SameTables.from_same (sameTables_enqueue h) rfl rfl rfl)
    | write_dma req =>
      simp only [runTask] at h
      split at h
      · cases h
        exact .same ⟨rfl, rfl, rfl⟩
      · exact .same (SameTables.from_same (sameTables_enqueue h) rfl rfl rfl)
    | add_check_door_bell =>
      cases h
      exact .same ⟨rfl, rfl, rfl⟩

/-! ## The FTL thread -/

/-- What a step of the FTL thread does to the tables: nothing, or one mapping of an LPN inside
`lpa_table`. -/
theorem ftlThreadStep_tables {pick : Nat} {applet : Nat → UInt8}
    (h : ftlThreadStep c pick applet s = some s') :
    s'.idleTimeCounter = s.idleTimeCounter ∧ (s'.ftl.ftl = s.ftl.ftl ∨
      ∃ lpn x, lpn < c.g.total_num_of_pages ∧
        make_new_mapping c.g s.ftl.ftl lpn = some (x, s'.ftl.ftl)) := by
  have hmap : ∀ {lpn : Nat} {next : Ppa → FtlPc}, mapPage c s lpn next = some s' →
      s'.idleTimeCounter = s.idleTimeCounter ∧ (s'.ftl.ftl = s.ftl.ftl ∨
        ∃ lpn x, lpn < c.g.total_num_of_pages ∧
          make_new_mapping c.g s.ftl.ftl lpn = some (x, s'.ftl.ftl)) := by
    intro lpn next hs
    unfold mapPage at hs
    split at hs
    · rename_i hlpn
      split at hs
      · cases hs
        exact ⟨rfl, Or.inl rfl⟩
      · rename_i x ftl hmapped
        cases hs
        exact ⟨rfl, Or.inr ⟨lpn, x, hlpn, hmapped⟩⟩
    · cases hs
  unfold ftlThreadStep at h
  split at h
  · split at h
    · cases h
      exact ⟨rfl, Or.inl rfl⟩
    · cases h
      exact ⟨rfl, Or.inl rfl⟩
  · unfold ftl_process_read_io at h
    simp only at h
    split at h
    · split at h
      · split at h
        · cases h
          exact ⟨rfl, Or.inl rfl⟩
        · cases h
          exact ⟨rfl, Or.inl rfl⟩
      · cases h
    · cases h
      exact ⟨rfl, Or.inl rfl⟩
  · unfold process_wbc at h
    split at h
    · simp only at h
      split at h
      · exact hmap h
      · cases h
        exact ⟨rfl, Or.inl rfl⟩
    · cases h
      exact ⟨rfl, Or.inl rfl⟩
  · unfold sync_isp_pages at h
    simp only at h
    split at h
    · split at h
      · exact hmap h
      · split at h
        · split at h
          · cases h
            exact ⟨rfl, Or.inl rfl⟩
          · cases h
            exact ⟨rfl, Or.inl rfl⟩
        · cases h
    · cases h
      exact ⟨rfl, Or.inl rfl⟩
  · rename_i job hpc
    cases h
    cases job <;> exact ⟨rfl, Or.inl rfl⟩
  · cases h
    unfold nandOp
    simp only
    split
    · exact ⟨rfl, Or.inl rfl⟩
    · split <;> exact ⟨rfl, Or.inl rfl⟩

theorem sameTables_dmaThreadStep {mem : Mem} : SameTables s (dmaThreadStep mem s) := by
  unfold dmaThreadStep
  split
  · exact .refl s
  · simp only
    split <;> exact ⟨rfl, rfl, rfl⟩

/-! ## Every reachable state -/

/-- The pages below `a` are handed out, and the counter of idle polls is below its limit. -/
structure TablesGood (c : Config) (s : State) (a : Nat) : Prop where
  good : Good c.g s.ftl.ftl a
  idle : s.idleTimeCounter < 10000

theorem TablesGood.same {a : Nat} (h : TablesGood c s a) (hftl : s'.ftl.ftl = s.ftl.ftl)
    (hidle : s'.idleTimeCounter < 10000) : TablesGood c s' a := by
  refine ⟨?_, hidle⟩
  rw [hftl]
  exact h.good

/-- A shutdown takes the pages of the mapping tables. -/
theorem good_shutdown {f f' : FtlThread} {a : Nat} (h : Good c.g f.ftl a)
    (hsave : sys_host_shutdown c f = some f') :
    Good c.g f'.ftl (a + (c.g.mapping_table_bytes / c.g.nandPageBytes + 1)) := by
  obtain ⟨ftl, hstore, rfl⟩ := Option.map_eq_some_iff.mp hsave
  exact good_pages (p := (f.ftl, a)) h (ftlStep_pages .store_mapping_tables h hstore)

theorem tablesGood_step {act : Action} {a : Nat} (h : TablesGood c s a)
    (hs : fwStep c s act = some s') : ∃ a', a ≤ a' ∧ TablesGood c s' a' := by
  cases act with
  | nvme env =>
    cases nvmeStep_tables hs with
    | same hsame => exact ⟨a, Nat.le_refl a, h.same hsame.ftl (hsame.idle ▸ h.idle)⟩
    | counted hlt hidle hf => exact ⟨a, Nat.le_refl a, h.same (by rw [hf]) (hidle ▸ hlt)⟩
    | reset hidle hf => exact ⟨a, Nat.le_refl a, h.same (by rw [hf]) (by omega)⟩
    | saved hidle hf => exact ⟨_, Nat.le_add_right a _, good_shutdown h.good hf, by omega⟩
  | ftl pick applet =>
    obtain ⟨hidle, hsame | ⟨lpn, x, hlpn, hmap⟩⟩ := ftlThreadStep_tables hs
    · exact ⟨a, Nat.le_refl a, h.same hsame (hidle ▸ h.idle)⟩
    · obtain ⟨ha, hx, hnum, heq⟩ := make_new_mapping_cases h.good hmap
      refine ⟨a + 1, Nat.le_succ a, ?_, hidle ▸ h.idle⟩
      rw [heq]
      exact good_map_new_page h.good ha hx hnum hlpn
  | dma mem =>
    cases hs
    have hsame : SameTables s (dmaThreadStep mem s) := sameTables_dmaThreadStep
    exact ⟨a, Nat.le_refl a, h.same hsame.ftl (hsame.idle ▸ h.idle)⟩
  | isp_exit | isp_host_dma | isp_nand_op | isp_function_exited | isp_pending_dma | isp_msg_out =>
    cases hs
    exact ⟨a, Nat.le_refl a, h.same rfl h.idle⟩

/-- In every reachable state, the pages up to some number are handed out. -/
theorem tablesGood_run {asqs acqs asq acq : Nat} {flash : Ppa → Nat → UInt8}
    {acts : List Action}
    (h : run (fwStep c) (initialState c asqs acqs asq acq flash) acts = some s) :
    ∃ a, TablesGood c s a := by
  refine run_keeps (I := fun s => ∃ a, TablesGood c s a) ?_ ?_ h
  · rintro t act u ⟨a, ha⟩ hu
    obtain ⟨a', -, ha'⟩ := tablesGood_step ha hu
    exact ⟨a', ha'⟩
  · exact ⟨1, good_initialize_ftl c.g, (by decide : 0 < 10000)⟩

end S4Sim
