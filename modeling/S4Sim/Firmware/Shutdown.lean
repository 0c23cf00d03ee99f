-- A shutdown that the host asks for, from nvme_driver.c and issd_kernel.c. Each 10000
-- idle polls, `check_door_bell` looks at `CC.SHN` and saves the tables. It does not
-- remember that it has done so: as long as the host keeps the field, each further
-- 10000 polls save them once more, and each save takes pages.
import S4Sim.Firmware.DoorBellPolling
import S4Sim.Firmware.TableSteps

open Runs

namespace S4Sim

/-! ## Idle polls -/

/-- What an idle poll reads: no door bell, while the host keeps `CC.SHN` at 01b. -/
structure IdlePoll where
  env : Env
  no_sq_db : env.DoorBell ≠ 1
  no_cq_db : env.DoorBell ≠ 2
  shn : env.shn = true

variable (c : Config)

/-- One idle poll. `run_thread` has taken its callback out of the queue. `none`: it does not
return, since a save spins on a device without free pages. -/
def idlePoll (s : State) (poll : IdlePoll) : Option State :=
  if 10000 ≤ s.idleTimeCounter + 1 ∧ (sys_host_shutdown c s.ftl).isNone then none
  else
    (check_door_bell c poll.env s).map fun s' => { s' with callbacks := s.callbacks }

/-- Some shutdowns, one after another. -/
def shutdowns (f : FtlThread) : Nat → Option FtlThread
  | 0 => some f
  | m + 1 => (shutdowns f m).bind (sys_host_shutdown c)

/-- The tables and the flash are those that one shutdown leaves. -/
def SavedOnce (s s' : State) : Prop :=
  ∃ f, sys_host_shutdown c s.ftl = some f ∧ s'.ftl.ftl = f.ftl ∧ s'.ftl.flash = f.flash

variable {c} {s s' : State} {poll : IdlePoll} {polls : List IdlePoll} {f f' : FtlThread}
  {a a' m : Nat}

/-! ## The number of saves -/

/-- What one idle poll that returns does. -/
theorem idlePoll_cases (h : idlePoll c s poll = some s') :
    (s.idleTimeCounter + 1 < 10000 ∧ s'.idleTimeCounter = s.idleTimeCounter + 1 ∧
      s'.ftl = s.ftl) ∨
    (10000 ≤ s.idleTimeCounter + 1 ∧ s'.idleTimeCounter = 0 ∧
      sys_host_shutdown c s.ftl = some s'.ftl) := by
  unfold idlePoll at h
  split at h
  · cases h
  · rename_i hreturns
    obtain ⟨t, ht, rfl⟩ := Option.map_eq_some_iff.mp h
    unfold check_door_bell at ht
    rw [if_neg poll.no_sq_db, if_neg poll.no_cq_db] at ht
    unfold idle_poll at ht
    simp only [poll.shn, if_true] at ht
    split at ht
    · rename_i hlimit
      right
      rcases hstore : store_mapping_tables c.g s.ftl.ftl with _ | ftl
      · exact absurd ⟨hlimit, by simp [sys_host_shutdown, hstore]⟩ hreturns
      · have hsave : sys_host_shutdown c s.ftl =
            some { s.ftl with ftl, flash := programAll c s.ftl.flash ftl } := by
          simp [sys_host_shutdown, hstore]
        simp only [State.sys_add_callback_ftn, hstore] at ht
        obtain ⟨d, -, rfl⟩ := Option.map_eq_some_iff.mp ht
        exact ⟨hlimit, rfl, hsave⟩
    · left
      cases ht
      exact ⟨by omega, rfl, rfl⟩

/-- Some idle polls: each time the counter reaches its limit there is one more save. -/
theorem run_idlePoll (h : run (idlePoll c) s polls = some s') (hidle : s.idleTimeCounter < 10000) :
    ∃ m, s.idleTimeCounter + polls.length = 10000 * m + s'.idleTimeCounter ∧
      s'.idleTimeCounter < 10000 ∧ shutdowns c s.ftl m = some s'.ftl := by
  refine run_invariant (I := fun polls s' => ∃ m, s.idleTimeCounter + polls.length =
    10000 * m + s'.idleTimeCounter ∧ s'.idleTimeCounter < 10000 ∧
      shutdowns c s.ftl m = some s'.ftl) ⟨0, by simp, hidle, rfl⟩ ?_ h
  rintro polls t poll u - ⟨m, hcount, hlt, hsaves⟩ hu
  rw [List.length_append, List.length_singleton]
  rcases idlePoll_cases hu with ⟨hlt', hu, hftl⟩ | ⟨hlimit, hu, hsave⟩
  · refine ⟨m, by omega, by omega, ?_⟩
    rw [hftl]
    exact hsaves
  · refine ⟨m + 1, by omega, by omega, ?_⟩
    rw [shutdowns, hsaves]
    exact hsave

/-- The pages that one save takes. -/
def savePages (c : Config) : Nat := c.g.mapping_table_bytes / c.g.nandPageBytes + 1

theorem good_shutdowns (h : Good c.g f.ftl a) (hf : shutdowns c f m = some f') :
    Good c.g f'.ftl (a + m * savePages c) := by
  induction m generalizing f' with
  | zero =>
    cases hf
    simpa using h
  | succ m ih =>
    obtain ⟨t, ht, hf⟩ := Option.bind_eq_some_iff.mp hf
    rw [Nat.succ_mul, ← Nat.add_assoc]
    exact good_shutdown (ih ht) hf

/-- The tables tell how many pages are handed out. -/
theorem good_unique {ftl : Ftl} (h : Good c.g ftl a) (h' : Good c.g ftl a') : a = a' := by
  have hle : ∀ {b b' : Nat}, Good c.g ftl b → Good c.g ftl b' → b' ≤ b := by
    intro b b' hb hb'
    by_contra hlt
    have htotal := hb'.le
    -- Page `b` is free by the first fact and handed out by the second.
    obtain ⟨x, hx, hnum, -⟩ := get_free_ppa_spec hb.cursors hb.free (by omega) 0
    have hfree := (hb'.free x hx).mp (hb.word_free hx hnum)
    omega
  exact Nat.le_antisymm (hle h' h) (hle h h')

/-- The tables after some saves are those after one exactly when it is one. -/
theorem savedOnce_iff (h : TablesGood c s a) (hrun : run (idlePoll c) s polls = some s') :
    SavedOnce c s s' ↔ 10000 ≤ s.idleTimeCounter + polls.length ∧
      s.idleTimeCounter + polls.length < 20000 := by
  obtain ⟨m, hcount, hlt, hsaves⟩ := run_idlePoll hrun h.idle
  have hgood := good_shutdowns h.good hsaves
  constructor
  · rintro ⟨f, hf, hftl, -⟩
    have hone : Good c.g s'.ftl.ftl (a + savePages c) := by
      rw [hftl]
      exact good_shutdown h.good hf
    have hpages : m * savePages c = 1 * savePages c := by
      have hsame := good_unique hgood hone
      omega
    have hm := Nat.eq_of_mul_eq_mul_right (Nat.succ_pos _) hpages
    omega
  · intro hpolls
    have hm : m = 1 := by omega
    rw [hm] at hsaves
    exact ⟨s'.ftl, hsaves, rfl, rfl⟩

/-- In every reachable state, idle polls save the tables as one shutdown does exactly when the
counter of idle polls reaches its limit once. -/
theorem a_shutdown_saves_once_iff_its_polls_reach_the_limit_once {asqs acqs asq acq : Nat}
    {flash : Ppa → Nat → UInt8} {acts : List Action}
    (h : run (fwStep c) (initialState c asqs acqs asq acq flash) acts = some s)
    (hrun : run (idlePoll c) s polls = some s') :
    SavedOnce c s s' ↔ 10000 ≤ s.idleTimeCounter + polls.length ∧
      s.idleTimeCounter + polls.length < 20000 := by
  obtain ⟨a, hgood⟩ := tablesGood_run h
  exact savedOnce_iff hgood hrun

/-! ## Polls that return -/

/-- A poll returns when there are pages for its save. -/
theorem idlePoll_returns (poll : IdlePoll) (h : TablesGood c s a) (hretry : s.driver.iocqCount = 0)
    (hpages : 10000 ≤ s.idleTimeCounter + 1 → a + savePages c ≤ c.g.total_num_of_pages) :
    ∃ s', idlePoll c s poll = some s' ∧ s'.driver = s.driver := by
  have hdriver : s.driver.retry_io_ccmds = some s.driver := by
    unfold Driver.retry_io_ccmds
    rw [hretry]
    rfl
  unfold idlePoll check_door_bell idle_poll
  rw [if_neg poll.no_sq_db, if_neg poll.no_cq_db]
  by_cases hlimit : 10000 ≤ s.idleTimeCounter + 1
  · obtain ⟨ftl, hstore⟩ := ftlStep_returns .store_mapping_tables h.good (hpages hlimit)
    have hstore : store_mapping_tables c.g s.ftl.ftl = some ftl := hstore
    rw [if_neg (by simp [sys_host_shutdown, hstore])]
    simp [hlimit, State.sys_add_callback_ftn, hdriver, poll.shn, hstore]
  · rw [if_neg fun hc => hlimit hc.1]
    simp only [ge_iff_le, hlimit, if_false, Option.map_some]
    exact ⟨_, rfl, rfl⟩

/-- Polls return as long as there are pages for their saves. -/
theorem idlePolls_return {n : Nat} (h : TablesGood c s a) (hretry : s.driver.iocqCount = 0)
    (hpages : a + (s.idleTimeCounter + n) / 10000 * savePages c ≤ c.g.total_num_of_pages) :
    ∃ s', run (idlePoll c) s (List.replicate n poll) = some s' := by
  induction n generalizing s a with
  | zero => exact ⟨s, rfl⟩
  | succ n ih =>
    have hidle := h.idle
    have hpos : 0 < savePages c := Nat.succ_pos _
    obtain ⟨t, ht, hdriver⟩ := idlePoll_returns poll h hretry (by
      intro hlimit
      have hsaves := Nat.mul_le_mul_right (savePages c)
        (show 1 ≤ (s.idleTimeCounter + (n + 1)) / 10000 by omega)
      omega)
    rw [List.replicate_succ, run_cons, ht, Option.bind_some]
    rw [← hdriver] at hretry
    rcases idlePoll_cases ht with ⟨hlt, hcount, hftl⟩ | ⟨hlimit, hcount, hsave⟩
    · apply ih (h.same (by rw [hftl]) (by omega)) hretry
      rw [hcount, Nat.add_right_comm, Nat.add_assoc]
      exact hpages
    · have hnext : (s.idleTimeCounter + (n + 1)) / 10000 = (t.idleTimeCounter + n) / 10000 + 1 := by
        omega
      apply ih ⟨good_shutdown h.good hsave, by omega⟩ hretry
      rw [hnext, Nat.succ_mul] at hpages
      unfold savePages at hpages ⊢
      omega

/-- An idle poll with zeros in everything else. -/
def quietPoll : IdlePoll where
  env :=
    { DoorBell := 0, Qindex := 0, db_value := 0, scmd := ⟨0, 0, 0, 0, 0, 0, 0, 0, 0⟩,
      mem := fun _ => 0, obj := none, found := false, shn := true }
  no_sq_db := by decide
  no_cq_db := by decide
  shn := rfl

/-- The first save comes with the 10000th poll, and the 12 pages of the device are enough for
two. -/
theorem bootPolls_return {n : Nat} (hn : n < 30000) :
    ∃ s', run (idlePoll smallDevice) bootState (List.replicate n quietPoll) = some s' := by
  have hgood : TablesGood smallDevice bootState 1 :=
    ⟨good_initialize_ftl _, (by decide : 0 < 10000)⟩
  apply idlePolls_return hgood rfl
  have hidle : bootState.idleTimeCounter = 0 := rfl
  have hpages : savePages smallDevice = 2 := by decide
  have htotal : smallDevice.g.total_num_of_pages = 12 := by decide
  rw [hidle, hpages, htotal]
  omega

theorem a_shutdown_saves_once_for_10000_polls :
    ∃ s', run (idlePoll smallDevice) bootState (List.replicate 10000 quietPoll) = some s' ∧
      SavedOnce smallDevice bootState s' := by
  obtain ⟨s', hs'⟩ := bootPolls_return (by decide : 10000 < 30000)
  have hboot : run (fwStep smallDevice) bootState [] = some bootState := rfl
  refine ⟨s', hs', (a_shutdown_saves_once_iff_its_polls_reach_the_limit_once hboot hs').mpr ?_⟩
  rw [List.length_replicate]
  decide

/-- Twice as many polls save the tables twice. -/
theorem a_shutdown_saves_twice_for_20000_polls :
    ¬ ∀ (acts : List Action) (s s' : State) (polls : List IdlePoll), polls ≠ [] →
      run (fwStep smallDevice) bootState acts = some s →
        run (idlePoll smallDevice) s polls = some s' → SavedOnce smallDevice s s' := by
  intro hall
  obtain ⟨s', hs'⟩ := bootPolls_return (by decide : 20000 < 30000)
  have hsome : List.replicate 20000 quietPoll ≠ [] := by
    rw [ne_eq, List.replicate_eq_nil_iff]
    decide
  have honce := hall [] bootState s' _ hsome rfl hs'
  have hgood : TablesGood smallDevice bootState 1 :=
    ⟨good_initialize_ftl _, (by decide : 0 < 10000)⟩
  have hpolls := (savedOnce_iff hgood hs').mp honce
  rw [List.length_replicate] at hpolls
  omega

end S4Sim
