-- Writes of the host below `nsze`, and restarts. Every write and every store
-- takes free pages and gives none back: "do foregoround garbage collection" is a TODO of
-- `get_free_ppa`. So each of them finds its pages as long as the pages that are free
-- are enough for it, and no longer.
import S4Sim.Ftl.Accounting
import S4Sim.Ftl.Persistence

open Relation Runs Windows

namespace S4Sim

section Device

variable (g : Geometry)

/-- The LPNs of the NAND pages that a write touches. -/
def writeLpns (slba nlbs : Nat) : List Nat :=
  let HOST_2_NAND_DS := g.nand_page_size - g.host_page_size
  List.range' (slba / 2 ^ HOST_2_NAND_DS)
    ((slba + nlbs) / 2 ^ HOST_2_NAND_DS - slba / 2 ^ HOST_2_NAND_DS + 1)

/-- `process_wbc` for one write: each NAND page gets a new mapping. -/
def map_pages (s : Ftl) : List Nat → Option Ftl
  | [] => some s
  | lpn :: rest => (make_new_mapping g s lpn).bind fun (_, s) => map_pages s rest

/-- What a restart finds beside the tables: the memory that the store writes to, the RAM
after the power cycle, and the tables that come out of it when it does not read back what was
saved. -/
structure PowerCycle where
  memory : StoreMemory
  ram : FtlRam
  other : Ftl

/-- The tables after `initialize_ftl`, when a store left them as `s`. `layout` gives the bytes
of the section of the tables. -/
def power_up (layout : Ftl → Nat → UInt8) (s : Ftl) (c : PowerCycle) : Ftl :=
  match load_media g (program_pages g (layout s) s c.memory).flash c.ram with
  | none => initialize_ftl g
  | some r =>
    if window r.tables 0 g.mapping_table_bytes = window (layout s) 0 g.mapping_table_bytes ∧
        window r.config 0 SIZEOF_FTL_CONFIG = window s.ftl_config.byte 0 SIZEOF_FTL_CONFIG then
      { s with last_searched_channel := s.ftl_config.last_selected_ppa }
    else c.other

/-- A write below the advertised `nsze`, or a shutdown with the restart after it. -/
inductive HostOp (g : Geometry)
  | write (slba nlbs : Nat) (below : slba + nlbs < (new_media_config g).total_logical_pages)
  | restart (c : PowerCycle)

variable {g}

/-- `none`: `get_free_ppa` does not return. -/
def hostStep (layout : Ftl → Nat → UInt8) (s : Ftl) : HostOp g → Option Ftl
  | .write slba nlbs _ => map_pages g s (writeLpns g slba nlbs)
  | .restart c => (store_mapping_tables g s).map fun s => power_up g layout s c

/-- Each call of `get_free_ppa` returns. -/
def FindsPages (layout : Ftl → Nat → UInt8) (s : Ftl) (op : HostOp g) : Prop :=
  ∃ s', hostStep layout s op = some s'

/-! ## The condition -/

/-- The pages that the step takes. -/
def HostOp.pages (s : Ftl) : HostOp g → Nat
  | .write slba nlbs _ => (writeLpns g slba nlbs).length
  | .restart _ => s.ftl_config.rpp_map_tables

/-- There are as many free pages as the step takes. -/
def HasPages (s : Ftl) (op : HostOp g) : Prop := op.pages s ≤ s.devicePagesWith g isFree

/-- The LPNs of a write are entries of `lpa_table`. -/
def InLpaTable : HostOp g → Prop
  | .write slba nlbs _ => ∀ lpn ∈ writeLpns g slba nlbs, lpn < g.total_num_of_pages
  | .restart _ => True

/-- A restart reads back what its store saved: the pages have a size that fits, and none of
the first three pages of the flash is among the pages that are next. -/
def ReadsBack (s : Ftl) : HostOp g → Prop
  | .write .. => True
  | .restart _ =>
    SavedPagesFit g ∧ ∀ x, g.HasPage x → g.flashPage x < 3 → s.ppa_table x = FREE_PPA →
      g.total_num_of_pages - s.devicePagesWith g isFree + s.ftl_config.rpp_map_tables ≤ g.number x

end Device

variable {g : Geometry} {s s' : Ftl} {a : Nat} {layout : Ftl → Nat → UInt8} {op : HostOp g}

/-- When the device is larger than the pages it sets apart, each LBA below `nsze` has its
entry in `lpa_table`. -/
theorem inLpaTable_of_le (h : (new_media_config g).total_rpp ≤ g.total_num_of_pages)
    (op : HostOp g) : InLpaTable op := by
  cases op with
  | restart c => trivial
  | write slba nlbs below =>
    intro lpn hlpn
    unfold writeLpns at hlpn
    have hle : lpn ≤ (slba + nlbs) / 2 ^ (g.nand_page_size - g.host_page_size) := by
      have := Nat.div_le_div_right (c := 2 ^ (g.nand_page_size - g.host_page_size))
        (Nat.le_add_right slba nlbs)
      rw [List.mem_range'_1] at hlpn
      omega
    refine Nat.lt_of_le_of_lt hle ?_
    rw [Nat.div_lt_iff_lt_mul (Nat.two_pow_pos _)]
    refine Nat.lt_of_lt_of_le below ?_
    refine (Nat.mod_le _ _).trans (Nat.mul_le_mul_right _ ?_)
    have htotal := g.total_num_of_pages_le
    simp only [new_media_config] at h
    generalize (g.total_num_of_pages / 100 * g.over_provision_factor +
      (g.mapping_table_bytes / g.nandPageBytes + 1)) % 2 ^ 32 = rpp at h ⊢
    omega

/-! ## What holds between two steps -/

/-- The tables are good, and the free pages are those that were never taken. -/
structure Ready (g : Geometry) (s : Ftl) (a : Nat) : Prop where
  good : Good g s a
  free : s.devicePagesWith g isFree + a = g.total_num_of_pages
  searched : s.last_searched_channel = s.ftl_config.last_selected_ppa
  nand_ds : s.ftl_config.nand_ds = g.nand_page_size

theorem ready_initialize_ftl (g : Geometry) : Ready g (initialize_ftl g) 1 := by
  have hfree := run_freePages (run_nil ftlStep (initialize_ftl g))
  exact ⟨good_initialize_ftl g, hfree, rfl, rfl⟩

theorem Ready.page {p q : Ftl × Nat} (h : Ready g p.1 p.2) (hstep : PageStep g p q) :
    Ready g q.1 q.2 := by
  have hfree := freePages_steps (.single hstep) h.good h.free
  cases hstep with
  | @map s a lpn x ha hx hnum hlpn =>
    refine ⟨good_map_new_page h.good ha hx hnum hlpn, hfree, ?_, ?_⟩
    · unfold map_new_page
      split <;> rfl
    · refine Eq.trans ?_ h.nand_ds
      unfold map_new_page
      split <;> rfl
  | reserve ha hx hnum => exact ⟨good_reserve_page h.good ha hx hnum, hfree, rfl, h.nand_ds⟩

theorem Ready.pages {p q : Ftl × Nat} (h : Ready g p.1 p.2)
    (hsteps : ReflTransGen (PageStep g) p q) : Ready g q.1 q.2 := by
  induction hsteps with
  | refl => exact h
  | tail _ hstep ih => exact ih.page hstep

/-! ## Writes -/

theorem map_pages_steps {lpns : List Nat} (h : Good g s a)
    (hlpns : ∀ lpn ∈ lpns, lpn < g.total_num_of_pages) (hmap : map_pages g s lpns = some s') :
    ReflTransGen (PageStep g) (s, a) (s', a + lpns.length) := by
  induction lpns generalizing s a with
  | nil =>
    cases hmap
    exact .refl
  | cons lpn rest ih =>
    obtain ⟨⟨x, t⟩, hm, hrest⟩ := Option.bind_eq_some_iff.mp hmap
    obtain ⟨ha, hx, hnum, rfl⟩ := make_new_mapping_cases h hm
    have hstep := PageStep.map (s := s) ha hx hnum (hlpns lpn List.mem_cons_self)
    have hmore := ih (hstep.good h) (fun l hl => hlpns l (List.mem_cons_of_mem _ hl)) hrest
    rw [List.length_cons, show a + (rest.length + 1) = a + 1 + rest.length by omega]
    exact .head hstep hmore

theorem map_pages_returns {lpns : List Nat} (h : Good g s a)
    (hlpns : ∀ lpn ∈ lpns, lpn < g.total_num_of_pages)
    (hle : a + lpns.length ≤ g.total_num_of_pages) : ∃ s', map_pages g s lpns = some s' := by
  induction lpns generalizing s a with
  | nil => exact ⟨s, rfl⟩
  | cons lpn rest ih =>
    rw [List.length_cons] at hle
    have hlpn := hlpns lpn List.mem_cons_self
    have hone : a + 1 ≤ g.total_num_of_pages := by omega
    obtain ⟨t, ht⟩ := ftlStep_returns (.make_new_mapping ⟨lpn, hlpn⟩) h hone
    obtain ⟨⟨x, u⟩, hm, rfl⟩ := Option.map_eq_some_iff.mp ht
    obtain ⟨ha, hx, hnum, rfl⟩ := make_new_mapping_cases h hm
    have hstep := PageStep.map (s := s) ha hx hnum hlpn
    obtain ⟨v, hv⟩ := ih (hstep.good h) (fun l hl => hlpns l (List.mem_cons_of_mem _ hl))
      (by omega)
    exact ⟨v, Option.bind_eq_some_iff.mpr ⟨_, hm, hv⟩⟩

/-! ## Restarts -/

/-- The pages that the store of a restart takes are none of the first three of the flash. -/
theorem Ready.entries (h : Ready g s a) {c : PowerCycle}
    (hreads : ReadsBack s (.restart (g := g) c))
    (hstore : store_mapping_tables g s = some s') :
    ∀ i < s.ftl_config.rpp_map_tables, 3 ≤ g.flashPage (s'.ftl_config.mapping_tables i) := by
  obtain ⟨hentries, -⟩ := reserve_pages_entries h.good hstore
  intro i hi
  obtain ⟨hpage, hnum⟩ := hentries i hi
  rw [Nat.zero_add] at hpage hnum
  by_contra hlt
  have hfree := h.good.free _ hpage |>.mpr (by omega)
  have hnext := hreads.2 _ hpage (by omega) hfree
  have := h.free
  omega

/-- Such a restart leaves the tables as its store left them. -/
theorem Ready.power_up (h : Ready g s a) {c : PowerCycle}
    (hreads : ReadsBack s (.restart (g := g) c)) (hstore : store_mapping_tables g s = some s')
    (hready : Ready g s' (a + s.ftl_config.rpp_map_tables)) :
    power_up g layout s' c = s' := by
  have hfits := hreads.1
  have hlow : 9 ≤ g.nand_page_size := by
    by_contra hlt
    have hle : 2 ^ g.nand_page_size ≤ 2 ^ 8 := Nat.pow_le_pow_right (by decide) (by omega)
    have hconfig := hfits.config
    have hsize : SIZEOF_FTL_CONFIG = 9844 := rfl
    unfold Geometry.nandPageBytes at hconfig
    omega
  have hhigh : g.nand_page_size ≤ 14 :=
    (Nat.pow_le_pow_iff_right (by decide)).mp (show 2 ^ g.nand_page_size ≤ 2 ^ 14 from hfits.page)
  obtain ⟨r, hr, htables, hconfig⟩ := (store_flashHolds h.good.rpp hstore
    (h.entries hreads hstore) (layout s') c.memory).load hfits (hready.nand_ds ▸ hlow)
    (by rw [hready.nand_ds]; omega) c.ram
  unfold S4Sim.power_up
  rw [hr]
  simp only
  rw [if_pos, ← hready.searched]
  exact ⟨window_congr fun i _ hi => htables i (by omega),
    window_congr fun i _ hi => hconfig i (by omega)⟩

/-- Once the first three pages of the flash are taken, every restart reads back. -/
theorem Ready.readsBack (h : Ready g s a) (hfits : SavedPagesFit g)
    (hpages : 3 ≤ g.nand_pages_per_block) (ha : 2 * g.total_num_of_planes < a) (c : PowerCycle) :
    ReadsBack s (.restart (g := g) c) := by
  refine ⟨hfits, fun x hx hlt hword => ?_⟩
  have hnum := (h.good.free x hx).mp hword
  obtain ⟨k, hk⟩ : ∃ k, g.flashPage x = k := ⟨_, rfl⟩
  have hpage : g.HasPage { first_page with page := k } :=
    ⟨g.chn_pos, g.dies_per_channel_pos, g.planes_pos, g.blocks_pos, by simp only; omega⟩
  rw [Geometry.flashPage_inj hx hpage (hk.trans (flashPage_config g k).symm), number_config,
    Nat.mul_comm] at hnum
  have := Nat.mul_le_mul_right g.total_num_of_planes (show k ≤ 2 by omega)
  omega

/-! ## The law -/

theorem Ready.step (h : Ready g s a) (hin : InLpaTable op) (hreads : ReadsBack s op)
    (hop : hostStep layout s op = some s') : Ready g s' (a + op.pages s) := by
  cases op with
  | write slba nlbs below => exact h.pages (p := (s, a)) (map_pages_steps h.good hin hop)
  | restart c =>
    obtain ⟨t, hstore, rfl⟩ := Option.map_eq_some_iff.mp hop
    have hready : Ready g t (a + s.ftl_config.rpp_map_tables) :=
      h.pages (p := (s, a)) (reserve_pages_steps h.good hstore)
    rw [h.power_up hreads hstore hready]
    exact hready

/-- In a good state a step finds its pages exactly when there are as many free ones. -/
theorem Ready.findsPages_iff (h : Ready g s a) (hin : InLpaTable op) :
    FindsPages layout s op ↔ HasPages s op := by
  have hfree := h.free
  unfold HasPages
  cases op with
  | write slba nlbs below =>
    constructor
    · rintro ⟨s', hs'⟩
      have hle := (h.pages (p := (s, a)) (map_pages_steps h.good hin hs')).good.le
      simp only [HostOp.pages] at hle ⊢
      omega
    · intro hle
      exact map_pages_returns h.good hin (by simp only [HostOp.pages] at hle; omega)
  | restart c =>
    constructor
    · rintro ⟨s', hs'⟩
      obtain ⟨t, hstore, -⟩ := Option.map_eq_some_iff.mp hs'
      have hle := (h.pages (p := (s, a)) (reserve_pages_steps h.good hstore)).good.le
      simp only [HostOp.pages] at hle ⊢
      omega
    · intro hle
      obtain ⟨t, ht⟩ := reserve_pages_returns (i := 0) (n := s.ftl_config.rpp_map_tables) h.good
        (by simp only [HostOp.pages] at hle; omega)
      exact ⟨_, Option.map_eq_some_iff.mpr ⟨t, ht, rfl⟩⟩

/-- In a run whose steps all have as many free pages as they take, and whose restarts read
back what was saved, every write and every store finds its pages. In the state that such a run
reaches, the next step finds its pages exactly when there are as many free ones. -/
theorem each_write_and_store_finds_its_pages_while_pages_are_left {ops : List (HostOp g)}
    (h : AllSteps (hostStep layout) (fun s op => InLpaTable op ∧ HasPages s op ∧ ReadsBack s op)
      (initialize_ftl g) ops) :
    AllSteps (hostStep layout) (FindsPages layout) (initialize_ftl g) ops ∧
      ∀ s, run (hostStep layout) (initialize_ftl g) ops = some s →
        ∀ op : HostOp g, InLpaTable op → (FindsPages layout s op ↔ HasPages s op) := by
  have hinit : ∃ a, Ready g (initialize_ftl g) a := ⟨1, ready_initialize_ftl g⟩
  have hstep : ∀ t (op : HostOp g) u, (∃ a, Ready g t a) →
      (InLpaTable op ∧ HasPages t op ∧ ReadsBack t op) → hostStep layout t op = some u →
      ∃ a, Ready g u a := by
    rintro t op u ⟨a, ha⟩ ⟨hin, -, hreads⟩ hop
    exact ⟨_, ha.step hin hreads hop⟩
  constructor
  · refine allSteps_of_invariant hstep ?_ hinit h
    rintro t op ⟨a, ha⟩ ⟨hin, hpages, -⟩
    exact (ha.findsPages_iff hin).mpr hpages
  · intro s hs op hin
    obtain ⟨a, ha⟩ := run_invariant_of_ok (I := fun _ s => ∃ a, Ready g s a) hinit
      (fun _ t op u _ hI hok hop => hstep t op u hI hok hop) h hs
    exact ha.findsPages_iff hin

def emptyPowerCycle : PowerCycle where
  memory := ⟨fun _ _ => 0, fun _ => 0⟩
  ram := ⟨fun _ => 0, fun _ => 0, fun _ => 0, fun _ => 0⟩
  other := generated_tables

theorem each_write_and_store_finds_its_pages_around_a_restart :
    AllSteps (hostStep fun _ _ => 0) (FindsPages fun _ _ => 0) (initialize_ftl twoChannels)
      [.write (g := twoChannels) 0 3 (by decide), .restart emptyPowerCycle,
        .write 9 0 (by decide)] := by
  have hin := inLpaTable_of_le (g := twoChannels) (by decide)
  refine (each_write_and_store_finds_its_pages_while_pages_are_left ?_).1
  have h := ready_initialize_ftl twoChannels
  have hfree : (initialize_ftl twoChannels).devicePagesWith twoChannels isFree + 1 = 12 := h.free
  refine ⟨⟨hin _, show 4 ≤ _ by omega, trivial⟩, fun t ht => ?_⟩
  have h : Ready twoChannels t 5 := h.step (hin (.write 0 3 (by decide))) trivial ht
  have hfree : t.devicePagesWith twoChannels isFree + 5 = 12 := h.free
  have hrpp : t.ftl_config.rpp_map_tables = 2 := h.good.rpp
  have hreads := h.readsBack ⟨by decide, by decide⟩ (by decide) (by decide) emptyPowerCycle
  refine ⟨⟨trivial, show t.ftl_config.rpp_map_tables ≤ _ by omega, hreads⟩, fun u hu => ?_⟩
  have h : Ready twoChannels u (5 + t.ftl_config.rpp_map_tables) :=
    Ready.step (g := twoChannels) h
      (show InLpaTable (.restart emptyPowerCycle) from trivial) hreads hu
  have hfree : u.devicePagesWith twoChannels isFree + (5 + t.ftl_config.rpp_map_tables) = 12 :=
    h.free
  exact ⟨⟨hin _, show 1 ≤ _ by omega, trivial⟩, fun _ _ => trivial⟩

/-- LBA 0 is written twelve times to a device of twelve pages. -/
theorem a_rewritten_lba_uses_up_the_device :
    ¬ ∀ ops : List (HostOp twoChannels),
      AllSteps (hostStep fun _ _ => 0) (FindsPages fun _ _ => 0) (initialize_ftl twoChannels)
        ops := by
  intro hall
  obtain ⟨s, hs⟩ :=
    exists_run (hall (List.replicate 12 (.write (g := twoChannels) 0 0 (by decide))))
  have hspins : (run (hostStep fun _ _ => 0) (initialize_ftl twoChannels)
      (List.replicate 12 (.write (g := twoChannels) 0 0 (by decide)))).isSome = false := by
    decide +kernel
  rw [hs] at hspins
  cases hspins

end S4Sim
