-- The block device over losses of power. A restart initializes the driver and takes the
-- tables that the flash holds, so the device goes on from its last shutdown: a READ after it
-- sends the blocks as the WRITEs before that shutdown, and those since the restart, left them.
import S4Sim.Firmware.ReadsAndWrites
import S4Sim.Ftl.SavedTables

open Runs Windows

namespace S4Sim

/-! ## The device -/

/-- A build whose stores write the bytes of the tables, and whose configuration in use fits its
first page. -/
structure PowerDevice where
  c : Config
  layout : Layout c.g
  image : ∀ s p, HoldsStored c.g (layout.bytes s) s.ftl_config.byte (c.image s p) p
  one_page : OnePageInUse c.g

/-- The flash by the places of its pages. -/
def flatten (g : Geometry) (flash : Ppa → Nat → UInt8) (n : Nat) : Nat → UInt8 := flash (g.pageAt n)

/-- The flash when the programs of a store have ended. -/
def programEach (c : Config) (s : Ftl) (flash : Ppa → Nat → UInt8)
    (programs : List (Ppa × StoredPage)) : Ppa → Nat → UInt8 :=
  updateEach Prod.fst (fun p _ => c.image s p.2) flash programs

/-- The firmware, the log of written pages, and both as they were when the last store came to
the first page of the configuration. -/
structure Powered where
  s : State
  log : List WrittenPage
  saved : Option (State × List WrittenPage)

/-- What is there when the power is back: the admin queues that the host sets up, and what the
RAM of the FTL holds. -/
structure Boot where
  asqs : Nat
  acqs : Nat
  asq : Nat
  acq : Nat
  ram : FtlRam

variable (d : PowerDevice)

/-- The firmware that a restart goes back to: that of the last store, or a new one. -/
def keptOf (saved : Option (State × List WrittenPage)) : State × List WrittenPage :=
  saved.getD (initialState d.c 0 0 0 0 fun _ _ => 0, [])

/-- The firmware after a restart. The commands before are those up to the last store. -/
def restarted (boot : Boot) (kept : State) (flash : Ppa → Nat → UInt8) : State :=
  let s := initialState d.c boot.asqs boot.acqs boot.asq boot.acq flash
  { s with
    driver := { s.driver with
      fetched := kept.driver.fetched
      enqueued := kept.driver.enqueued
      posted := kept.driver.posted
      transfers := kept.driver.transfers }
    ftl := { s.ftl with ftl := power_on d.layout (flatten d.c.g flash) boot.ram } }

def Powered.restart (x : Powered) (boot : Boot) : Powered :=
  { x with s := restarted d boot (keptOf d x.saved).1 x.s.ftl.flash, log := (keptOf d x.saved).2 }

/-- The next step of the NVMe thread is the idle poll that calls `store_mapping_tables`. -/
def savesAt (env : Env) (s : State) : Bool :=
  aboutToPoll s && env.DoorBell != 1 && env.DoorBell != 2 &&
    decide (10000 ≤ s.idleTimeCounter + 1) && env.shn

/-- The steps of the threads, also with a shutdown, and losses of power. -/
inductive PowerAction
  | nvme (env : Env)
  | dma (mem : Mem)
  | ftl (pick : Nat)
  | lose_power (boot : Boot)
  | lose_power_in_save (n : Nat) (ended : Nat → Bool) (env : Env) (boot : Boot)

/-- A store of the tables, whole or cut, with the programs that have ended. -/
def Powered.store (x : Powered) (driver : Driver) (n : Nat) (ended : Nat → Bool) : Option Powered :=
  (store_mapping_tables d.c.g x.s.ftl.ftl).map fun ftl =>
    let s := { x.s with driver, ftl := { x.s.ftl with
      ftl, flash := programEach d.c ftl x.s.ftl.flash (cutPrograms d.c.g ftl n ended) } }
    { x with s, saved := if switched d.c.g ftl n ended then some (s, x.log) else x.saved }

def powerStep (x : Powered) : PowerAction → Option Powered
  | .nvme env => (nvmeStep d.c env x.s).map fun s =>
    let log := x.log ++ loggedPages d.c x.s (.nvme env)
    { s, log, saved :=
        if savesAt env x.s && (store_mapping_tables d.c.g x.s.ftl.ftl).isSome then some (s, log)
        else x.saved }
  | .dma mem => some { x with s := dmaThreadStep mem x.s }
  | .ftl pick => (ftlThreadStep d.c pick (fun _ => 0) x.s).map fun s => { x with s }
  | .lose_power boot => some (x.restart d boot)
  | .lose_power_in_save n ended env boot =>
    if savesAt env x.s then
      x.s.driver.retry_io_ccmds.bind fun driver =>
        (x.store d driver n ended).map fun x => x.restart d boot
    else none

/-- A store takes no page of the configuration, and no LPN is mapped to one. -/
structure ConfigFree (g : Geometry) (s : Ftl) : Prop where
  kept : KeepsConfig (g := g) s .store_mapping_tables
  unmapped : ∀ lpn < g.total_num_of_pages, s.is_unmapped_lpa lpn = false →
    s.lpa_table lpn ∉ config_pages

instance (g : Geometry) (s : Ftl) : Decidable (ConfigFree g s) :=
  decidable_of_iff
    ((∀ x ∈ config_pages, x ∉ handedOut (g := g) s .store_mapping_tables) ∧
      ∀ lpn < g.total_num_of_pages, s.is_unmapped_lpa lpn = false → s.lpa_table lpn ∉ config_pages)
    ⟨fun ⟨h, h'⟩ => ⟨h, h'⟩, fun ⟨h, h'⟩ => ⟨h, h'⟩⟩

def SavesInPlace (x : Powered) : PowerAction → Prop
  | .nvme env | .lose_power_in_save _ _ env _ =>
    savesAt env x.s = true → ConfigFree d.c.g x.s.ftl.ftl
  | _ => True

instance (x : Powered) : (a : PowerAction) → Decidable (SavesInPlace d x a)
  | .nvme env => inferInstanceAs (Decidable (savesAt env x.s = true → ConfigFree d.c.g x.s.ftl.ftl))
  | .lose_power_in_save _ _ env _ =>
    inferInstanceAs (Decidable (savesAt env x.s = true → ConfigFree d.c.g x.s.ftl.ftl))
  | .dma _ | .ftl _ | .lose_power _ => isTrue trivial

/-! ## The flash by its places -/

section Flatten

variable {g : Geometry} {flash : Ppa → Nat → UInt8} {x : Ppa}

theorem flashPage_pageAt (g : Geometry) (n : Nat) : g.flashPage (g.pageAt n) = n := by
  rw [Geometry.flashPage_eq]
  simp only [Geometry.pageAt, Geometry.blockAt, Geometry.planeAt, Geometry.flashBlock,
    Geometry.flashPlane, Pba.pageOf, Ppa.pba, Nat.div_add_mod]

theorem flatten_flashPage (hx : g.HasPage x) : flatten g flash (g.flashPage x) = flash x := by
  unfold flatten
  rw [Geometry.pageAt_flashPage hx]

theorem flatten_update (hx : g.HasPage x) (bytes : Nat → UInt8) :
    flatten g (Function.update flash x bytes) =
      Function.update (flatten g flash) (g.flashPage x) bytes := by
  funext n
  by_cases hn : n = g.flashPage x
  · rw [hn, flatten_flashPage hx, Function.update_self, Function.update_self]
  · have hne : g.pageAt n ≠ x := by
      rintro rfl
      exact hn (flashPage_pageAt g n).symm
    rw [Function.update_of_ne hn]
    exact Function.update_of_ne hne ..

variable {d}

theorem programs_programEach (s : Ftl) (flash : Ppa → Nat → UInt8)
    {programs : List (Ppa × StoredPage)}
    (hnodup : (programs.map fun p => d.c.g.flashPage p.1).Nodup)
    (hpages : ∀ p ∈ programs, d.c.g.HasPage p.1) :
    Programs d.c.g (d.layout.bytes s) s.ftl_config.byte programs (flatten d.c.g flash)
      (flatten d.c.g (programEach d.c s flash programs)) := by
  have hfirst : (programs.map Prod.fst).Nodup := by
    refine List.Nodup.of_map d.c.g.flashPage ?_
    rw [List.map_map]
    exact hnodup
  refine ⟨fun p hp => ?_, fun n hn => ?_⟩
  · rw [flatten_flashPage (hpages p hp)]
    unfold programEach
    rw [updateEach_of_mem hfirst hp]
    exact d.image s p.2
  · have hother : d.c.g.pageAt n ∉ programs.map Prod.fst := by
      intro hmem
      obtain ⟨p, hp, he⟩ := List.mem_map.mp hmem
      exact hn p hp (by rw [he, flashPage_pageAt])
    unfold flatten programEach
    rw [updateEach_other hother]

end Flatten

/-! ## What a step of the FTL thread programs -/

/-- A step of the FTL thread leaves the tables and the flash, maps a page that it will program,
or programs one of the pages that it has mapped. -/
inductive FtlMove (c : Config) (s s' : State) : Prop
  | quiet (hftl : s'.ftl.ftl = s.ftl.ftl) (hflash : s'.ftl.flash = s.ftl.flash)
    (hops : ∀ op ∈ s'.ftl.pc.ops, op.program = true → op ∈ s.ftl.pc.ops)
  | mapped {lpn : Nat} {x : Ppa} (hlpn : lpn < c.g.total_num_of_pages)
    (hmap : make_new_mapping c.g s.ftl.ftl lpn = some (x, s'.ftl.ftl))
    (hflash : s'.ftl.flash = s.ftl.flash)
    (hops : ∀ op ∈ s'.ftl.pc.ops, op.program = true → op ∈ s.ftl.pc.ops ∨ op.ppa = x)
  | programmed {op : NandOp} {bytes : Nat → UInt8} (hop : op ∈ s.ftl.pc.ops)
    (hprogram : op.program = true) (hftl : s'.ftl.ftl = s.ftl.ftl)
    (hflash : s'.ftl.flash = Function.update s.ftl.flash op.ppa bytes)
    (hops : ∀ op ∈ s'.ftl.pc.ops, op.program = true → op ∈ s.ftl.pc.ops)

section FtlMove

variable {c : Config} {s s' : State} {pick lpn i : Nat} {applet : Nat → UInt8} {ops : List NandOp}

theorem mapPage_move (ops : List NandOp) {next : Ppa → FtlPc} {ssd_addr : Option Nat}
    (hpc : s.ftl.pc.ops = ops)
    (hnext : ∀ x, (next x).ops = ops ++ [⟨x, true, ssd_addr⟩])
    (h : mapPage c s lpn next = some s') : FtlMove c s s' := by
  unfold mapPage at h
  split at h
  · rename_i hlpn
    split at h
    · cases h
      exact .quiet rfl rfl fun op hop _ => hop
    · rename_i x ftl hmap
      cases h
      refine .mapped hlpn hmap rfl fun op hop _ => ?_
      simp only [hnext] at hop
      rcases List.mem_append.mp hop with hop | hop
      · exact Or.inl (hpc ▸ hop)
      · rw [List.mem_singleton.mp hop]
        exact Or.inr rfl
  · cases h

/-- A read operation is no program. -/
theorem no_program_snoc {op' : NandOp} (h : op'.program = false) :
    ∀ op ∈ ops ++ [op'], op.program = true → op ∈ ops := by
  intro op hop hprogram
  rcases List.mem_append.mp hop with hop | hop
  · exact hop
  · rw [List.mem_singleton.mp hop, h] at hprogram
    cases hprogram

theorem nandOp_move {job : FtlJob} {op : NandOp} (hpc : s.ftl.pc = .waiting job ops)
    (hop : op ∈ ops) {k : Nat} :
    FtlMove c s ((nandOp c applet op s).setPc (.waiting job (ops.eraseIdx k))) := by
  have hmem : op ∈ s.ftl.pc.ops := by rwa [hpc]
  have hops : ∀ op ∈ FtlPc.ops (.waiting job (ops.eraseIdx k)), op.program = true →
      op ∈ s.ftl.pc.ops := by
    intro op hop _
    rw [hpc]
    exact List.mem_of_mem_eraseIdx hop
  unfold nandOp
  simp only
  split
  · rename_i hprogram
    exact .programmed hmem hprogram rfl rfl hops
  · split <;> exact .quiet rfl rfl hops

theorem ftlThreadStep_move (h : ftlThreadStep c pick applet s = some s') : FtlMove c s s' := by
  have hnone : ∀ op ∈ FtlPc.ops .idle, op.program = true → op ∈ s.ftl.pc.ops :=
    List.forall_mem_nil _
  unfold ftlThreadStep at h
  split at h
  · rename_i hpc
    split at h
    · cases h
      exact .quiet rfl rfl fun op hop _ => hop
    · cases h
      exact .quiet rfl rfl hnone
  · rename_i req i ops hpc
    have hsame : ∀ op ∈ ops, op.program = true → op ∈ s.ftl.pc.ops := fun op hop _ => by rwa [hpc]
    unfold ftl_process_read_io at h
    simp only at h
    split at h
    · split at h
      · split at h
        · cases h
          exact .quiet rfl rfl hsame
        · cases h
          exact .quiet rfl rfl fun op hop hprogram =>
            hsame op (no_program_snoc rfl op hop hprogram) hprogram
      · cases h
    · cases h
      exact .quiet rfl rfl hsame
  · rename_i i ops hpc
    unfold process_wbc at h
    split at h
    · simp only at h
      split at h
      · exact mapPage_move ops (by rw [hpc]; rfl) (fun _ => rfl) h
      · cases h
        exact .quiet rfl rfl fun op hop _ => by rwa [hpc]
    · cases h
      exact .quiet rfl rfl fun op hop _ => by rwa [hpc]
  · rename_i program start_lpn num_of_lpn i ops hpc
    have hsame : ∀ op ∈ ops, op.program = true → op ∈ s.ftl.pc.ops := fun op hop _ => by rwa [hpc]
    unfold sync_isp_pages at h
    simp only at h
    split at h
    · split at h
      · exact mapPage_move ops (by rw [hpc]; rfl) (fun _ => rfl) h
      · split at h
        · split at h
          · cases h
            exact .quiet rfl rfl hsame
          · cases h
            exact .quiet rfl rfl fun op hop hprogram =>
              hsame op (no_program_snoc rfl op hop hprogram) hprogram
        · cases h
    · cases h
      exact .quiet rfl rfl hsame
  · rename_i job hpc
    cases h
    cases job <;> exact .quiet rfl rfl hnone
  · rename_i job op ops hpc
    cases h
    have hk : pick % (op :: ops).length < (op :: ops).length := Nat.mod_lt _ (by simp)
    refine nandOp_move hpc ?_
    rw [List.getD_eq_getElem _ _ hk]
    exact List.getElem_mem hk

end FtlMove

/-! ## The polls of the NVMe thread -/

section Polls

variable {c : Config} {env : Env} {s s' : State} {st st' : Stage} {b : Books}

theorem idle_poll_no_save (hsave : (decide (10000 ≤ s.idleTimeCounter + 1) && env.shn) = false) :
    idle_poll c env s = idle_poll c { env with shn := false } s := by
  unfold idle_poll
  simp only
  split
  · rename_i hcount
    have hshn : env.shn = false := by simpa [hcount] using hsave
    rw [hshn]
  · rfl

/-- The shutdown notification is looked at in the idle poll alone. -/
theorem nvmeStep_no_save (hsave : savesAt env s = false) :
    nvmeStep c env s = nvmeStep c { env with shn := false } s := by
  unfold nvmeStep
  split
  · rfl
  · rename_i task rest htodo
    cases task with
    | callback =>
      simp only [runTask]
      split
      · rfl
      · rename_i callbacks hcb
        unfold check_door_bell
        by_cases h1 : env.DoorBell = 1
        · rw [if_pos h1, if_pos h1]
          rfl
        · rw [if_neg h1, if_neg h1]
          by_cases h2 : env.DoorBell = 2
          · rw [if_pos h2, if_pos h2]
          · rw [if_neg h2, if_neg h2]
            refine idle_poll_no_save ?_
            have hcb : s.callbacks = .check_door_bell :: callbacks := hcb
            simpa [savesAt, aboutToPoll, htodo, hcb, h1, h2] using hsave
      · rfl
    | _ => rfl

/-- The NVMe thread leaves the operations of the FTL thread. -/
theorem NvmeMove.ftl_pc (h : NvmeMove c env s st st' b) : b.ftl.pc = s.ftl.pc := by
  cases h <;> rfl

/-- A poll is in stage `polling`. -/
theorem polling_of_poll (hat : At s st) (hpoll : aboutToPoll s = true) :
    st = .polling ∧ s.todo = [.callback, .msg_out, .ftl_out] ∧
      s.callbacks = [.check_door_bell] := by
  have hcontrol := hat.control
  unfold aboutToPoll at hpoll
  split at hpoll
  · rename_i todo callbacks htodo hcb
    rw [htodo, hcb] at hcontrol
    obtain ⟨rfl, ⟨hnil, -⟩ | ⟨rfl, hone | htwo⟩⟩ := hcontrol.callback
    · cases hnil
    · exact ⟨rfl, htodo, hcb.trans hone⟩
    · cases htwo
  · cases hpoll

/-- What the idle poll of a shutdown does. -/
theorem nvmeStep_save (hat : At s st) (hsave : savesAt env s = true)
    (hs : nvmeStep c env s = some s') :
    st = .polling ∧ At s' .polling ∧ s'.isp = s.isp ∧
      (store_mapping_tables c.g s.ftl.ftl = none ∧ s'.books = s.books ∨
        ∃ ftl, store_mapping_tables c.g s.ftl.ftl = some ftl ∧ s'.books = { s.books with
          ftl := { s.ftl with ftl, flash := programAll c s.ftl.flash ftl } }) := by
  simp only [savesAt, Bool.and_eq_true, bne_iff_ne, ne_eq, decide_eq_true_eq] at hsave
  obtain ⟨⟨⟨⟨hpoll, h1⟩, h2⟩, hcount⟩, hshn⟩ := hsave
  obtain ⟨rfl, htodo, hcb⟩ := polling_of_poll hat hpoll
  have hidle : idle_poll c env { s with callbacks := [], todo := [.msg_out, .ftl_out] } =
      some s' := by
    simpa [nvmeStep, htodo, runTask, hcb, check_door_bell, h1, h2] using hs
  refine ⟨rfl, (idle_poll_move hat hcb hidle).1, ?_⟩
  unfold idle_poll at hidle
  simp only [State.sys_add_callback_ftn, hshn, if_true] at hidle
  rw [if_pos hcount] at hidle
  obtain ⟨driver, hretry, rfl⟩ := Option.map_eq_some_iff.mp hidle
  obtain ⟨hf, ht, he⟩ := retry_cases hretry
  cases hstore : store_mapping_tables c.g s.ftl.ftl with
  | none => exact ⟨rfl, Or.inl ⟨rfl, rfl⟩⟩
  | some ftl =>
    refine ⟨rfl, Or.inr ⟨ftl, rfl, ?_⟩⟩
    simp only [State.books, hf, ht, he]

end Polls

/-! ## What a restart goes back to -/

/-- The firmware can go on from the kept state, with the tables of the store and this flash. -/
structure Startable (flash : Ppa → Nat → UInt8) (kept : State × List WrittenPage) (a : Nat) :
    Prop where
  ready : Ready d.c.g kept.1.ftl.ftl a
  encodable : Encodable d.c.g kept.1.ftl.ftl
  durable : kept.1.books.Durable d.c kept.2 .polling
  served : CommandsFit d.c kept.1.driver.fetched → kept.1.books.Served d.c kept.2 .polling
  flash : AllInFlash d.c { kept.1.ftl with flash } kept.2
  apart : ∀ lpn < d.c.g.total_num_of_pages, kept.1.ftl.ftl.is_unmapped_lpa lpn = false →
    3 ≤ d.c.g.flashPage (kept.1.ftl.ftl.lpa_table lpn)

/-- The flash has what a restart needs, and the FTL thread will program none of it. -/
structure KeptSince (t : FtlThread) (saved : Option (State × List WrittenPage)) (a : Nat) :
    Prop where
  startable : Startable d t.flash (keptOf d saved) a
  holds : HoldsSaved d.layout (flatten d.c.g t.flash) a (saved.map fun kept => kept.1.ftl.ftl)
  programs : ∀ op ∈ t.pc.ops, op.program = true → d.c.g.HasPage op.ppa ∧ a ≤ d.c.g.number op.ppa

/-- The invariant of the firmware, with the pages below `a` handed out. -/
structure PowerReady (x : Powered) (st : Stage) (a : Nat) : Prop where
  stage : At x.s st
  messages : x.s.isp.msg_out_q = []
  ready : Ready d.c.g x.s.ftl.ftl a
  encodable : Encodable d.c.g x.s.ftl.ftl
  durable : x.s.books.Durable d.c x.log st
  served : CommandsFit d.c x.s.driver.fetched → x.s.books.Served d.c x.log st
  kept : ∃ a₀ ≤ a, KeptSince d x.s.ftl x.saved a₀

section Kept

variable {d} {t t' : FtlThread} {saved : Option (State × List WrittenPage)}
  {kept : State × List WrittenPage} {a : Nat} {flash flash' : Ppa → Nat → UInt8}
  {log : List WrittenPage} {x y : Powered} {st st' : Stage} {s s' : State}

/-- The pages of the log depend on `lpa_table` and on the mapped pages alone. -/
theorem AllInFlash.frame {c : Config} (h : AllInFlash c t log)
    (hlpa : t'.ftl.lpa_table = t.ftl.lpa_table)
    (hflash : ∀ lpn < c.g.total_num_of_pages, t.ftl.is_unmapped_lpa lpn = false →
      t'.flash (t.ftl.lpa_table lpn) = t.flash (t.ftl.lpa_table lpn)) : AllInFlash c t' log := by
  intro p hp
  obtain ⟨hlpn, hmapped, hbytes⟩ := h p hp
  refine ⟨hlpn, ?_, ?_⟩
  · unfold Ftl.is_unmapped_lpa at hmapped ⊢
    rwa [hlpa]
  · rw [hlpa, hflash p.lpn hlpn hmapped]
    exact hbytes

/-- The mapped pages were handed out before. -/
theorem KeepsPages.mapped {g : Geometry} {ftl : Ftl}
    (h : KeepsPages g a (flatten g flash) (flatten g flash')) (hgood : Good g ftl a)
    (hapart : ∀ lpn < g.total_num_of_pages, ftl.is_unmapped_lpa lpn = false →
      3 ≤ g.flashPage (ftl.lpa_table lpn)) :
    ∀ lpn < g.total_num_of_pages, ftl.is_unmapped_lpa lpn = false →
      flash' (ftl.lpa_table lpn) = flash (ftl.lpa_table lpn) := by
  intro lpn hlpn hm
  obtain ⟨hpage, -⟩ := hgood.inverse.mapped lpn hlpn hm
  have hsame := h _ hpage (hgood.mapped_number_lt hlpn hm) (hapart lpn hlpn hm)
  rwa [flatten_flashPage hpage, flatten_flashPage hpage] at hsame

theorem Startable.frame (h : Startable d flash kept a)
    (hkeeps : KeepsPages d.c.g a (flatten d.c.g flash) (flatten d.c.g flash')) :
    Startable d flash' kept a :=
  ⟨h.ready, h.encodable, h.durable, h.served,
    h.flash.frame rfl (hkeeps.mapped h.ready.good h.apart), h.apart⟩

theorem KeptSince.frame (h : KeptSince d t saved a)
    (hkeeps : KeepsSaved d.c.g a (flatten d.c.g t.flash) (flatten d.c.g t'.flash))
    (hprograms : ∀ op ∈ t'.pc.ops, op.program = true →
      d.c.g.HasPage op.ppa ∧ a ≤ d.c.g.number op.ppa) : KeptSince d t' saved a :=
  ⟨h.startable.frame hkeeps.2, h.holds.frame hkeeps (Nat.le_refl a), hprograms⟩

theorem KeptSince.congr (h : KeptSince d t saved a) (hflash : t'.flash = t.flash)
    (hpc : t'.pc = t.pc) : KeptSince d t' saved a := by
  obtain ⟨hstart, hholds, hprograms⟩ := h
  exact ⟨by rwa [hflash], by rwa [hflash], by rwa [hpc]⟩

/-! ## The restart -/

/-- The tables after the restart. -/
theorem KeptSince.power_on (h : KeptSince d t saved a) (ram : FtlRam) :
    SameInUse d.c.g (keptOf d saved).1.ftl.ftl (power_on d.layout (flatten d.c.g t.flash) ram) := by
  have hsame := h.holds.power_on d.one_page ram
  cases saved with
  | none => exact hsame
  | some kept => exact hsame

theorem SameInUse.lpa_table {g : Geometry} {u v : Ftl} (h : SameInUse g u v) :
    v.lpa_table = u.lpa_table := by
  rw [h.eq]

theorem at_restarted (boot : Boot) (kept : State) (flash : Ppa → Nat → UInt8) :
    At (restarted d boot kept flash) .polling := by
  constructor
  case control => exact .polling (by simp [restarted, initialState, rounds])
  case jobs => simp [restarted, initialState, FtlThread.rwJobs, FtlThread.jobs, Stage.jobs]
  all_goals simp [restarted, initialState, Stage.inuse]

theorem restart_tables (x : Powered) (boot : Boot) : (x.restart d boot).s.ftl.ftl =
    S4Sim.power_on d.layout (flatten d.c.g x.s.ftl.flash) boot.ram := rfl

theorem KeptSince.restart (h : KeptSince d x.s.ftl x.saved a) (boot : Boot) :
    PowerReady d (x.restart d boot) .polling a := by
  have hstart := h.startable
  have hsame := h.power_on boot.ram
  rw [← restart_tables x boot] at hsame
  have hlpa := hsame.lpa_table
  refine ⟨at_restarted boot _ _, rfl, hsame.ready hstart.ready, hsame.encodable hstart.encodable,
    ⟨hstart.durable.uids, hstart.durable.enqueued, forall_mem_of_none rfl, forall_mem_of_none rfl,
      ?_, ⟨List.forall_mem_nil _, List.forall_mem_nil _⟩, fun _ => rfl⟩, fun hfit => ?_,
    a, Nat.le_refl a, hstart, h.holds, List.forall_mem_nil _⟩
  · exact hstart.flash.frame hlpa fun _ _ _ => rfl
  · have hserved := hstart.served hfit
    refine ⟨hserved.fresh, List.forall_mem_nil _, fun early f late heq _ =>
      hserved.ended early f late heq (Or.inl rfl), fun lpn hnone => ?_, hserved.stage⟩
    have hm := hserved.unmapped lpn hnone
    unfold Ftl.is_unmapped_lpa at hm ⊢
    simp only [State.books, hlpa]
    exact hm

end Kept

/-! ## The steps -/

section Steps

variable {d} {x y : Powered} {st st' : Stage} {s' : State} {a n pick : Nat} {env : Env} {ftl : Ftl}
  {ended : Nat → Bool} {act : PowerAction}

/-- The programs of a store are of pages that the flash has. -/
theorem cutPrograms_hasPage {g : Geometry} {s : Ftl} (hpages : 3 ≤ g.nand_pages_per_block)
    (h : Ready g s a) (hstore : store_mapping_tables g s = some ftl)
    (hkeeps : KeepsConfig (g := g) s .store_mapping_tables) {p : Ppa × StoredPage}
    (hp : p ∈ cutPrograms g ftl n ended) : g.HasPage p.1 := by
  have hmem := (cutPrograms_sublist ftl n ended).subset hp
  rw [store_programs_eq] at hmem
  rcases List.mem_append.mp hmem with hmem | hmem
  · obtain ⟨i, hi, he⟩ := table_programs_targets hmem
    rw [he]
    exact (store_entries hpages h hstore hkeeps i hi).1
  · obtain ⟨k, hk, rfl⟩ := config_programs_target hmem
    exact ⟨g.chn_pos, g.dies_per_channel_pos, g.planes_pos, g.blocks_pos,
      Nat.lt_of_lt_of_le hk hpages⟩

/-- A page that is not one of the configuration comes behind them. -/
theorem ConfigFree.apart {g : Geometry} {s : Ftl} (h : ConfigFree g s)
    (hpages : 3 ≤ g.nand_pages_per_block) (hgood : Good g s a) :
    ∀ lpn < g.total_num_of_pages, s.is_unmapped_lpa lpn = false →
      3 ≤ g.flashPage (s.lpa_table lpn) := by
  intro lpn hlpn hm
  obtain ⟨hpage, -⟩ := hgood.inverse.mapped lpn hlpn hm
  by_contra hlt
  exact h.unmapped lpn hlpn hm (mem_config_pages hpages hpage (by omega))

/-- A store, whole or cut, keeps the invariant. -/
theorem PowerReady.store (n : Nat) (ended : Nat → Bool) (s' : State)
    (h : PowerReady d x .polling a) (hfree : ConfigFree d.c.g x.s.ftl.ftl)
    (hstore : store_mapping_tables d.c.g x.s.ftl.ftl = some ftl) (hat : At s' .polling)
    (hisp : s'.isp = x.s.isp) (hbooks : s'.books = { x.s.books with ftl := { x.s.ftl with
      ftl, flash := programEach d.c ftl x.s.ftl.flash (cutPrograms d.c.g ftl n ended) } }) :
    PowerReady d ⟨s', x.log, if switched d.c.g ftl n ended then some (s', x.log) else x.saved⟩
      .polling (a + d.c.g.entries) := by
  have hready := h.ready
  have hpages := d.one_page.pages
  have hprograms := programs_programEach ftl x.s.ftl.flash
    (cutPrograms_nodup hpages hready hstore hfree.kept n ended)
    fun p hp => cutPrograms_hasPage hpages hready hstore hfree.kept hp
  have hkeeps := cut_keepsPages hpages hready hstore hfree.kept hprograms
  have hapart := hfree.apart hpages hready.good
  have hlpa : ftl.lpa_table = x.s.ftl.ftl.lpa_table := reserve_pages_lpa_table hready.good hstore
  have hready' := store_ready hready hstore
  have henc' := h.encodable.store hready.good hstore
  have hftl : s'.ftl = { x.s.ftl with
      ftl, flash := programEach d.c ftl x.s.ftl.flash (cutPrograms d.c.g ftl n ended) } :=
    congrArg Books.ftl hbooks
  have hfetched : s'.driver.fetched = x.s.driver.fetched := congrArg Books.fetched hbooks
  -- The pages of the log are where they were.
  have hwritten : AllWritten d.c x.s.books x.log := h.durable.pages
  have hflash : AllInFlash d.c s'.ftl x.log := by
    rw [hftl]
    exact hwritten.flash.frame hlpa (hkeeps.mapped hready.good hapart)
  have hdurable : s'.books.Durable d.c x.log .polling := by
    rw [hftl] at hflash
    rw [hbooks]
    exact ⟨h.durable.uids, h.durable.enqueued, h.durable.ctrl, h.durable.reading, hflash,
      ⟨hwritten.reads.jobs, hwritten.reads.ops⟩, hwritten.wbc⟩
  have hserved : CommandsFit d.c s'.driver.fetched → s'.books.Served d.c x.log .polling := by
    intro hfit
    rw [hfetched] at hfit
    have hs := h.served hfit
    rw [hbooks]
    refine ⟨hs.fresh, hs.undone, hs.ended, fun lpn hnone => ?_, hs.stage⟩
    have hm := hs.unmapped lpn hnone
    unfold Ftl.is_unmapped_lpa at hm ⊢
    simp only [hlpa]
    exact hm
  have hnone : ∀ op ∈ s'.ftl.pc.ops, op.program = true →
      d.c.g.HasPage op.ppa ∧ a + d.c.g.entries ≤ d.c.g.number op.ppa := by
    intro op hop hprogram
    rw [hftl] at hop
    have hread : op.program = false := hwritten.reads.ops op hop
    rw [hread] at hprogram
    cases hprogram
  refine ⟨hat, by rw [hisp, h.messages], by rw [hftl]; exact hready', by rw [hftl]; exact henc',
    hdurable, hserved, ?_⟩
  cases hswitched : switched d.c.g ftl n ended with
  | true =>
    have hsaved := switched_savedIn d.one_page hready h.encodable hstore hfree.kept hprograms
      hswitched
    refine ⟨_, Nat.le_refl _, ⟨?_, ?_, hdurable, hserved, hflash, ?_⟩, ?_, hnone⟩
    · simp only [if_true, keptOf, Option.getD_some, hftl]
      exact hready'
    · simp only [if_true, keptOf, Option.getD_some, hftl]
      exact henc'
    · simp only [if_true, keptOf, Option.getD_some, hftl]
      unfold Ftl.is_unmapped_lpa
      rw [hlpa]
      exact hapart
    · simp only [if_true, Option.map_some, hftl]
      exact ⟨_, Nat.le_refl _, hsaved⟩
  | false =>
    have hsame := cut_keepsSaved hpages hready hstore hfree.kept hprograms hswitched
    obtain ⟨a₀, ha₀, hkept⟩ := h.kept
    refine ⟨a₀, by omega, hkept.frame ?_ fun op hop hprogram => ?_⟩
    · rw [hftl]
      exact ⟨hsame.1, hsame.2.mono ha₀⟩
    · obtain ⟨hpage, hnum⟩ := hnone op hop hprogram
      exact ⟨hpage, by omega⟩

theorem PowerReady.save (h : PowerReady d x st a) (hsave : savesAt env x.s = true)
    (hfree : ConfigFree d.c.g x.s.ftl.ftl) (hs : nvmeStep d.c env x.s = some s') :
    ∃ a', PowerReady d
      ⟨s', x.log ++ loggedPages d.c x.s (.nvme env),
        if (store_mapping_tables d.c.g x.s.ftl.ftl).isSome then
          some (s', x.log ++ loggedPages d.c x.s (.nvme env))
        else x.saved⟩ .polling a' := by
  obtain ⟨rfl, hat, hisp, hcases⟩ := nvmeStep_save h.stage hsave hs
  have hlog : loggedPages d.c x.s (.nvme env) = [] := by
    simp only [savesAt, Bool.and_eq_true] at hsave
    obtain ⟨-, htodo, -⟩ := polling_of_poll h.stage hsave.1.1.1.1
    simp [loggedPages, htodo]
  rw [hlog, List.append_nil]
  rcases hcases with ⟨hnone, hbooks⟩ | ⟨ftl, hstore, hbooks⟩
  · rw [hnone]
    have hftl : s'.ftl = x.s.ftl := congrArg Books.ftl hbooks
    have hfetched : s'.driver.fetched = x.s.driver.fetched := congrArg Books.fetched hbooks
    refine ⟨a, hat, by rw [hisp, h.messages], by rw [hftl]; exact h.ready,
      by rw [hftl]; exact h.encodable, by rw [hbooks]; exact h.durable, ?_,
      by rw [hftl]; exact h.kept⟩
    rw [hbooks, hfetched]
    exact h.served
  · have hready := h.store (table_programs d.c.g ftl).length (fun _ => true) s' hfree hstore hat
      hisp (by rw [hbooks, cutPrograms_all]; rfl)
    have hswitched : switched d.c.g ftl (table_programs d.c.g ftl).length (fun _ => true) = true :=
      by simp [switched]
    rw [hswitched] at hready
    rw [hstore]
    exact ⟨_, hready⟩

/-- The other steps of the NVMe thread leave the tables and the flash. -/
theorem PowerReady.nvme_step (h : PowerReady d x st a) (hsave : savesAt env x.s = false)
    (hs : nvmeStep d.c env x.s = some s') :
    ∃ st', PowerReady d ⟨s', x.log ++ loggedPages d.c x.s (.nvme env), x.saved⟩ st' a := by
  rw [nvmeStep_no_save hsave] at hs
  obtain ⟨st', hat', hmove⟩ := nvmeStep_move h.stage hs
  obtain ⟨hftl, hflash⟩ := hmove.tables rfl
  have hftl : s'.ftl.ftl = x.s.ftl.ftl := hftl
  refine ⟨st', hat', ?_, by rw [hftl]; exact h.ready, by rw [hftl]; exact h.encodable, ?_,
    fun hfit => ?_, ?_⟩
  · exact List.suffix_nil.mp (h.messages ▸ nvmeStep_messages hs)
  · rw [loggedPages_eq env h.stage hat' hs hmove]
    refine hmove.durable h.stage rfl h.messages (fun hf hw => ?_) h.durable
    exact congrArg Isp.ctrl_cmd_req (isp_of_rw hs hf (Bool.or_eq_true_iff.mpr (Or.inr hw)))
  · obtain ⟨l, hfetched⟩ := hmove.fetches_one
    have hfetched : s'.driver.fetched = x.s.driver.fetched ++ l := hfetched
    have hbefore : CommandsFit d.c x.s.driver.fetched := by
      rw [hfetched] at hfit
      exact hfit.before
    rw [loggedPages_eq env h.stage hat' hs hmove]
    exact hmove.served h.stage rfl h.messages
      (fun hf hrw => congrArg Isp.ctrl_cmd_req (isp_of_rw hs hf hrw)) h.durable hfit
      (h.served hbefore)
  · obtain ⟨a₀, ha₀, hkept⟩ := h.kept
    exact ⟨a₀, ha₀, hkept.congr hflash hmove.ftl_pc⟩

theorem PowerReady.dma_step (mem : Mem) (h : PowerReady d x st a) :
    PowerReady d { x with s := dmaThreadStep mem x.s } st a := by
  have hsame : SameCommands x.s (dmaThreadStep mem x.s) := dmaThreadStep_same mem
  obtain ⟨hisp, hftl⟩ : (dmaThreadStep mem x.s).isp = x.s.isp ∧
      (dmaThreadStep mem x.s).ftl = x.s.ftl := by
    unfold dmaThreadStep
    split
    · exact ⟨rfl, rfl⟩
    · simp only
      split <;> exact ⟨rfl, rfl⟩
  refine ⟨dmaThreadStep_at h.stage, by rw [hisp, h.messages], by rw [hftl]; exact h.ready,
    by rw [hftl]; exact h.encodable, h.durable.dma_step h.stage, fun hfit => ?_,
    by rw [hftl]; exact h.kept⟩
  rw [hsame.fetched] at hfit
  exact (h.served hfit).dma_step h.stage h.durable.uids

/-- The FTL thread maps pages that were not handed out, and programs pages that it has mapped. -/
theorem PowerReady.ftl_step (h : PowerReady d x st a)
    (hs : ftlThreadStep d.c pick (fun _ => 0) x.s = some s') :
    ∃ a', PowerReady d { x with s := s' } st a' := by
  have hready := h.ready
  have hframe := ftlThreadStep_frame hs
  have hdurable := h.durable.ftl_step hready.good hs
  have hserved : CommandsFit d.c s'.driver.fetched → s'.books.Served d.c x.log st := by
    intro hfit
    rw [(ftlThreadStep_same hs).fetched] at hfit
    exact (h.served hfit).ftl_step hready.good h.stage h.durable hs
  have hmessages : s'.isp.msg_out_q = [] := by
    rw [hframe.state]
    exact h.messages
  obtain ⟨a₀, ha₀, hkept⟩ := h.kept
  have hsame : KeepsSaved d.c.g a₀ (flatten d.c.g x.s.ftl.flash) (flatten d.c.g x.s.ftl.flash) :=
    ⟨rfl, fun _ _ _ _ => rfl⟩
  cases ftlThreadStep_move hs with
  | quiet hftl hflash hops =>
    refine ⟨a, hframe.at h.stage, hmessages, by rw [hftl]; exact hready,
      by rw [hftl]; exact h.encodable, hdurable, hserved, a₀, ha₀, ?_⟩
    exact hkept.frame (by rw [hflash]; exact hsame) fun op hop hprogram =>
      hkept.programs op (hops op hop hprogram) hprogram
  | @mapped lpn x hlpn hmap hflash hops =>
    obtain ⟨ha, hx, hnum, heq⟩ := make_new_mapping_cases hready.good hmap
    refine ⟨a + 1, hframe.at h.stage, hmessages, ?_, ?_, hdurable, hserved, a₀, by omega, ?_⟩
    · rw [heq]
      exact hready.page (p := (_, a)) (.map ha hx hnum hlpn)
    · rw [heq]
      exact h.encodable.map_new_page hready.good hx hlpn
    · refine hkept.frame (by rw [hflash]; exact hsame) fun op hop hprogram => ?_
      rcases hops op hop hprogram with hold | rfl
      · exact hkept.programs op hold hprogram
      · exact ⟨hx, by omega⟩
  | @programmed op bytes hop hprogram hftl hflash hops =>
    obtain ⟨hpage, hnum⟩ := hkept.programs op hop hprogram
    refine ⟨a, hframe.at h.stage, hmessages, by rw [hftl]; exact hready,
      by rw [hftl]; exact h.encodable, hdurable, hserved, a₀, ha₀, ?_⟩
    refine hkept.frame ?_ fun op hop hprogram => hkept.programs op (hops op hop hprogram) hprogram
    rw [hflash, flatten_update hpage]
    exact keepsSaved_update hkept.startable.ready.good.pos hpage hnum bytes

theorem PowerReady.step (h : PowerReady d x st a) (hok : SavesInPlace d x act)
    (hs : powerStep d x act = some y) : ∃ st' a', PowerReady d y st' a' := by
  cases act with
  | nvme env =>
    obtain ⟨s', hs', rfl⟩ := Option.map_eq_some_iff.mp hs
    cases hsave : savesAt env x.s with
    | true =>
      obtain ⟨a', hready⟩ := h.save hsave (hok hsave) hs'
      exact ⟨_, a', hready⟩
    | false =>
      obtain ⟨st', hready⟩ := h.nvme_step hsave hs'
      exact ⟨st', a, hready⟩
  | dma mem =>
    obtain rfl := Option.some.inj hs
    exact ⟨st, a, h.dma_step mem⟩
  | ftl pick =>
    obtain ⟨s', hs', rfl⟩ := Option.map_eq_some_iff.mp hs
    obtain ⟨a', hready⟩ := h.ftl_step hs'
    exact ⟨st, a', hready⟩
  | lose_power boot =>
    obtain rfl := Option.some.inj hs
    obtain ⟨a₀, -, hkept⟩ := h.kept
    exact ⟨_, a₀, hkept.restart boot⟩
  | lose_power_in_save n ended env boot =>
    simp only [powerStep] at hs
    split at hs
    · rename_i hsave
      obtain ⟨driver, hretry, hs⟩ := Option.bind_eq_some_iff.mp hs
      obtain ⟨z, hz, rfl⟩ := Option.map_eq_some_iff.mp hs
      obtain ⟨ftl, hstore, rfl⟩ := Option.map_eq_some_iff.mp hz
      obtain ⟨hf, ht, he⟩ := retry_cases hretry
      have hpoll : aboutToPoll x.s = true := by
        simp only [savesAt, Bool.and_eq_true] at hsave
        exact hsave.1.1.1.1
      obtain ⟨rfl, -, -⟩ := polling_of_poll h.stage hpoll
      have hat := h.stage
      have hready := h.store n ended { x.s with driver, ftl := { x.s.ftl with
          ftl, flash := programEach d.c ftl x.s.ftl.flash (cutPrograms d.c.g ftl n ended) } }
        (hok hsave) hstore
        ⟨hat.control, hat.r_buf_q, hat.w_buf_q, hat.inuse, hat.jobs, hat.outq, hat.dma⟩ rfl
        (by simp only [State.books, hf, ht, he])
      obtain ⟨a₀, -, hkept⟩ := hready.kept
      exact ⟨_, a₀, hkept.restart boot⟩
    · cases hs

end Steps

/-! ## The law -/

theorem powerReady_initialState {asqs acqs asq acq : Nat} {flash : Ppa → Nat → UInt8}
    (hblank : Blank (flatten d.c.g flash)) :
    PowerReady d ⟨initialState d.c asqs acqs asq acq flash, [], none⟩ .polling 1 := by
  have hserve := serveReady_initialState d.c asqs acqs asq acq flash
  have hkept := serveReady_initialState d.c 0 0 0 0 fun _ _ => 0
  have henc : Encodable d.c.g (initialize_ftl d.c.g) :=
    encodable_initialize_ftl d.one_page.toSavedPagesFit d.one_page.host
  refine ⟨hserve.flush.stage, rfl, ready_initialize_ftl _, henc, hserve.flush.durable,
    hserve.served, 1, Nat.le_refl 1,
    ⟨ready_initialize_ftl _, henc, hkept.flush.durable, hkept.served, ?_, ?_⟩, hblank,
    List.forall_mem_nil _⟩
  · intro p hp
    cases hp
  · intro lpn _ hm
    cases hm

theorem powerReady_run {asqs acqs asq acq : Nat} {flash : Ppa → Nat → UInt8}
    (hblank : Blank (flatten d.c.g flash)) {acts : List PowerAction} {x : Powered}
    (hok : AllSteps (powerStep d) (SavesInPlace d)
      ⟨initialState d.c asqs acqs asq acq flash, [], none⟩ acts)
    (h : run (powerStep d) ⟨initialState d.c asqs acqs asq acq flash, [], none⟩ acts = some x) :
    ∃ st a, PowerReady d x st a := by
  refine run_invariant_of_ok (I := fun _ x => ∃ st a, PowerReady d x st a) ?_ ?_ hok h
  · exact ⟨_, 1, powerReady_initialState d hblank⟩
  · rintro - t act u - ⟨st, a, ha⟩ hact hu
    exact ha.step hact hu

/-- In every run, with losses of power at any moment, also within the store of a shutdown, the
firmware is a block device: each READ sends the bytes of the last WRITE of the LBA, among the
commands up to the last store that came to the first page of the configuration and those since
the restart. -/
theorem every_read_returns_the_last_writes_over_losses_of_power {asqs acqs asq acq : Nat}
    {flash : Ppa → Nat → UInt8} (hblank : Blank (flatten d.c.g flash)) {acts : List PowerAction}
    {x : Powered}
    (hok : AllSteps (powerStep d) (SavesInPlace d)
      ⟨initialState d.c asqs acqs asq acq flash, [], none⟩ acts)
    (h : run (powerStep d) ⟨initialState d.c asqs acqs asq acq flash, [], none⟩ acts = some x)
    (hfit : CommandsFit d.c x.s.driver.fetched) : IsBlockDevice d.c x.s.driver := by
  obtain ⟨st, a, hready⟩ := powerReady_run d hblank hok h
  exact (hready.served hfit).isBlockDevice hfit

/-! ## A shutdown and a loss of power -/

/-- What a store of the small device programs. -/
def storedImage (s : Ftl) : StoredPage → Nat → UInt8
  | .tables offset len => fun i => if i < len then smallLayout.bytes s (offset + i) else 0
  | .config page => fun i => s.ftl_config.byte (page * twoChannels.nandPageBytes + i)

def smallPowerDevice : PowerDevice where
  c := { smallDevice with image := storedImage }
  layout := smallLayout
  image s p := by
    cases p with
    | tables offset len => exact fun i hi => if_pos hi
    | config page => exact fun i _ => rfl
  one_page := ⟨⟨by decide, by decide⟩, by decide, by decide, by decide⟩

def firstPower : Powered :=
  ⟨initialState smallPowerDevice.c 31 31 0x1000 0x2000 fun _ _ => 0, [], none⟩

def newQueues : List PowerAction :=
  List.replicate 4 (.nvme (ringFor 0 1 ⟨0x05, 1, 0, 0, 0x10000, 0, 0x30001, 0x10003, 0⟩)) ++
    List.replicate 4 (.nvme (ringFor 0 2 ⟨0x01, 2, 0, 0, 0x20000, 0, 0x30001, 0x10001, 0⟩))

/-- Writes block 0. The command moves the tail of its queue to `tail`, and the bytes of the
block depend on it. At the end, the write-back is over and the next step polls. -/
def writeFirstBlock (tail : Nat) : List PowerAction :=
  List.replicate 4 (.nvme (ringFor 1 tail ⟨0x01, 4, 1, 0, 0x30000, 0, 0, 0, 0⟩)) ++
    List.replicate 2 (.dma fun i => UInt8.ofNat (i + tail)) ++ List.replicate 4 (.nvme noRing) ++
    List.replicate 20 (.ftl 0) ++ List.replicate 8 (.nvme noRing)

/-- Five WRITEs take the pages up to the last one of the configuration. -/
def fiveWrites : List PowerAction := newQueues ++ [1, 2, 3, 0, 1].flatMap writeFirstBlock

/-- The shutdown, the loss of power, and a READ of block 0. -/
def shutdownAndRead : List PowerAction :=
  .nvme { noRing with shn := true } ::
    .lose_power ⟨31, 31, 0x1000, 0x2000, ⟨fun _ => 3, fun _ => 3, fun _ => 3, fun _ => 3⟩⟩ ::
    (newQueues ++ List.replicate 4 (.nvme (ringFor 1 1 (readBlock 1))) ++
      List.replicate 5 (.ftl 0) ++ List.replicate 4 (.nvme noRing) ++
      List.replicate 2 (.dma fun _ => 0) ++ List.replicate 4 (.nvme noRing))

/-- The idle polls up to the one that looks at the shutdown notification. -/
def idlePolls (n : Nat) : List PowerAction := List.replicate (4 * n) (.nvme noRing)

section IdlePolls

variable {d} {s : State} {log : List WrittenPage} {saved : Option (State × List WrittenPage)}

/-- Without a door bell, a round counts one idle poll. -/
theorem run_idle_poll (htodo : s.todo = [.callback, .msg_out, .ftl_out])
    (hcb : s.callbacks = [.check_door_bell]) (hmsg : s.isp.msg_out_q = []) (hout : s.ftl.outq = [])
    (hidle : s.idleTimeCounter + 1 < 10000) :
    run (powerStep d) ⟨s, log, saved⟩ (idlePolls 1) =
      some ⟨{ s with idleTimeCounter := s.idleTimeCounter + 1 }, log, saved⟩ := by
  have hcount : ¬ 10000 ≤ s.idleTimeCounter + 1 := by omega
  have hbell : noRing.DoorBell = 0 := rfl
  have hshn : noRing.shn = false := rfl
  simp [idlePolls, List.replicate, powerStep, nvmeStep, runTask, check_door_bell, idle_poll,
    savesAt, loggedPages, State.sys_add_callback_ftn, htodo, hcb, hmsg, hout, hcount, hbell, hshn]

theorem run_idle_polls {x : Powered} {st : Stage} {a n : Nat} (h : PowerReady d x st a)
    (hpoll : aboutToPoll x.s = true) (hidle : x.s.idleTimeCounter + n < 10000) :
    run (powerStep d) x (idlePolls n) =
      some { x with s := { x.s with idleTimeCounter := x.s.idleTimeCounter + n } } := by
  obtain ⟨rfl, htodo, hcb⟩ := polling_of_poll h.stage hpoll
  obtain ⟨hout, -, -⟩ := (AllWritten.reads h.durable.pages).idle h.stage.jobs
  induction n with
  | zero => rfl
  | succ n ih =>
    have hsplit : idlePolls (n + 1) = idlePolls n ++ idlePolls 1 := by
      rw [idlePolls, idlePolls, idlePolls, ← List.replicate_add, Nat.mul_add]
    rw [hsplit, run_append, ih (by omega), Option.bind_some]
    exact run_idle_poll (s := { x.s with idleTimeCounter := x.s.idleTimeCounter + n }) htodo hcb
      h.messages hout hidle

theorem idlePolls_inPlace (n : Nat) (x : Powered) :
    AllSteps (powerStep d) (SavesInPlace d) x (idlePolls n) := by
  refine allSteps_of_forall fun a ha t => ?_
  rw [List.eq_of_mem_replicate ha]
  intro hsave
  simp [savesAt, show noRing.shn = false from rfl] at hsave

end IdlePolls

/-- After the restart the READ gets the block of the last WRITE before the shutdown. -/
theorem every_read_returns_the_last_writes_over_losses_of_power_after_a_shutdown :
    ∃ x early f, run (powerStep smallPowerDevice) firstPower
        (fiveWrites ++ idlePolls 9999 ++ shutdownAndRead) = some x ∧
      x.s.driver.fetched = early ++ [f] ∧ early.length = 9 ∧
      f.acceptedRead smallPowerDevice.c = true ∧ ∃ ops, f.segments smallPowerDevice.c = some ops ∧
        transfersOf x.s.driver.transfers f.uid = segmentTransfers f.uid true
          (f.readBytes smallPowerDevice.c x.s.driver.transfers early) 0 ops := by
  have hblank : Blank (flatten smallPowerDevice.c.g fun _ _ => 0) := by
    unfold Blank
    decide
  have hfirst : (run (powerStep smallPowerDevice) firstPower fiveWrites).map (fun x =>
      (aboutToPoll x.s, x.s.idleTimeCounter)) = some (true, 0) := by
    decide +kernel
  obtain ⟨y, hy, hvals⟩ := Option.map_eq_some_iff.mp hfirst
  obtain ⟨hpoll, hcount⟩ := Prod.mk.inj hvals
  have hok : AllSteps (powerStep smallPowerDevice) (SavesInPlace smallPowerDevice) firstPower
      fiveWrites := by
    decide +kernel
  obtain ⟨st, a, hready⟩ := powerReady_run smallPowerDevice hblank hok hy
  have hidle := run_idle_polls (n := 9999) hready hpoll (by omega)
  rw [hcount] at hidle
  have hlast : ((run (powerStep smallPowerDevice) firstPower fiveWrites).bind fun x =>
      run (powerStep smallPowerDevice) { x with s := { x.s with idleTimeCounter := 0 + 9999 } }
        shutdownAndRead).map (fun x => (decide (CommandsFit smallPowerDevice.c x.s.driver.fetched),
          x.s.driver.fetched.map (fun f => (f.uid, f.acceptedRead smallPowerDevice.c)),
          x.s.driver.enqueued.map fun e => e.2.uid)) =
      some (true, (List.range 9).map (fun i => (i, false)) ++ [(9, true)], List.range 10) := by
    decide +kernel
  have hsaves : (run (powerStep smallPowerDevice) firstPower fiveWrites).any (fun x =>
      decide (AllSteps (powerStep smallPowerDevice) (SavesInPlace smallPowerDevice)
        { x with s := { x.s with idleTimeCounter := 0 + 9999 } } shutdownAndRead)) = true := by
    decide +kernel
  rw [hy] at hlast hsaves
  obtain ⟨x, hx, hvals⟩ := Option.map_eq_some_iff.mp hlast
  simp only [Option.any_some, decide_eq_true_eq] at hsaves
  simp only [Prod.mk.injEq, decide_eq_true_eq] at hvals
  obtain ⟨hfit, hfetched, henqueued⟩ := hvals
  have hall : run (powerStep smallPowerDevice) firstPower
      (fiveWrites ++ idlePolls 9999 ++ shutdownAndRead) = some x := by
    rw [run_append, run_append, hy, Option.bind_some, hidle]
    exact hx
  have hokAll : AllSteps (powerStep smallPowerDevice) (SavesInPlace smallPowerDevice) firstPower
      (fiveWrites ++ idlePolls 9999 ++ shutdownAndRead) := by
    refine allSteps_append.mpr ⟨allSteps_append.mpr ⟨hok, fun t _ => idlePolls_inPlace 9999 t⟩,
      fun t ht => ?_⟩
    rw [run_append, hy, Option.bind_some, hidle] at ht
    cases ht
    exact hsaves
  obtain ⟨early, last, hsplit, hearly, hlast⟩ := List.map_eq_append_iff.mp hfetched
  obtain ⟨f, rfl, hf⟩ := List.map_eq_singleton_iff.mp hlast
  obtain ⟨huid, hacc⟩ := Prod.mk.inj hf
  have hlen : early.length = 9 := by simpa using congrArg List.length hearly
  have hdone : ∃ e ∈ x.s.driver.enqueued, e.2.uid = f.uid := by
    rw [huid]
    refine List.mem_map.mp ?_
    rw [henqueued]
    simp
  have hread : f.isRead = true := (Bool.and_eq_true_iff.mp hacc).1
  obtain ⟨ops, hops, -, hsent⟩ := (every_read_returns_the_last_writes_over_losses_of_power
    smallPowerDevice hblank hokAll hall hfit).read early f [] hsplit hread
  exact ⟨x, early, f, hall, hsplit, hlen, hacc, ops, hops, hsent hacc (Or.inr hdone)⟩

end S4Sim
