-- Saves and losses of power. A store writes the tables to pages that were free, and the
-- configuration last. When the entries that are in use fit the first page of the
-- configuration, the program of that page is what switches from the old tables to the new
-- ones, so a loss of power at any moment of a store leaves the one or the other. The program of
-- one page is done or not.
import S4Sim.Ftl.TableLayout

open LittleEndian Relation Runs Windows

namespace S4Sim

variable {g : Geometry}

/-! ## What a restart finds -/

/-- The tables are the same but for the entries of `mapping_tables` that no store fills. -/
structure SameInUse (g : Geometry) (s t : Ftl) : Prop where
  eq : t = { s with
    ftl_config := { s.ftl_config with mapping_tables := t.ftl_config.mapping_tables } }
  fits : t.ftl_config.Fits
  entries : ∀ i < g.entries, t.ftl_config.mapping_tables i = s.ftl_config.mapping_tables i

/-- The first page of the flash has no configuration. -/
def Blank (flash : Nat → Nat → UInt8) : Prop := nandDsIn (flash 0) < 9

/-- The flash holds the part of the configuration that is in use in its first page, and the
tables in the pages that it names. -/
structure HoldsInUse (g : Geometry) (flash : Nat → Nat → UInt8) (c : FtlConfig)
    (tables : Nat → UInt8) : Prop where
  config : ∀ k < 52 + 8 * g.entries, flash 0 k = c.byte k
  tables : TablesIn g flash c.mapping_tables tables

/-- The build has its configuration in the first three pages of a block, and the part in use in
the first of them. -/
structure OnePageInUse (g : Geometry) : Prop extends SavedPagesFit g where
  in_use : 52 + 8 * g.entries ≤ g.nandPageBytes
  pages : 3 ≤ g.nand_pages_per_block
  host : g.host_page_size ≤ g.nand_page_size

section Load

variable {flash flash' : Nat → Nat → UInt8} {c : FtlConfig} {tables m : Nat → UInt8} {s t : Ftl}
  {L : Layout g} {r : FtlRam}

theorem nandDsIn_front {bytes old : Nat → UInt8} {n : Nat} (h : 4 ≤ n) :
    nandDsIn (writeWindow old 0 n bytes) = nandDsIn bytes := by
  have hword : ∀ k i, k + i ≤ 4 →
      wordAt (writeWindow old 0 n bytes) i k = wordAt bytes i k := by
    intro k
    induction k with
    | zero => exact fun _ _ => rfl
    | succ k ih =>
      intro i hi
      rw [wordAt, wordAt, ih (i + 1) (by omega), writeWindow_front (by omega)]
  exact hword 4 0 (by omega)

/-- What `initialize_ftl` looks at first is the first word of the flash. -/
theorem nandDsIn_first (hfits : SavedPagesFit g) (old buffer : Nat → UInt8) :
    nandDsIn (writeWindow old 0 SIZEOF_FTL_CONFIG (writeWindow buffer 0 g.nandPageBytes
      (flash (g.flashPage first_page)))) = nandDsIn (flash 0) := by
  have hconfig := hfits.config
  have hsize : SIZEOF_FTL_CONFIG = 9844 := rfl
  rw [nandDsIn_front (by omega), nandDsIn_front (by omega),
    show g.flashPage first_page = 0 from flashPage_config g 0]

theorem power_on_blank (hfits : SavedPagesFit g) (h : Blank flash) :
    power_on L flash r = initialize_ftl g := by
  have h : nandDsIn (flash 0) < 9 := h
  unfold power_on load_media
  simp only [nandDsIn_first hfits, if_pos h]

/-- The pages of the tables are among the entries in use. -/
theorem lt_entries {q k : Nat} (h : q * g.nandPageBytes + k < g.mapping_table_bytes) :
    q < g.entries :=
  Nat.lt_succ_of_le ((Nat.le_div_iff_mul_le g.nandPageBytes_pos).mpr (by omega))

/-- What is in use is loaded. -/
theorem HoldsInUse.load (h : HoldsInUse g flash c tables) (hg : OnePageInUse g) (hc : c.Fits)
    (hds : c.nand_ds = g.nand_page_size) (r : FtlRam) :
    ∃ r', load_media g flash r = some r' ∧ (∀ i < g.mapping_table_bytes, r'.tables i = tables i) ∧
      ∀ k < 52 + 8 * g.entries, r'.config k = c.byte k := by
  have hnine := hg.nine_le
  have hin := hg.in_use
  have hentries : g.entries ≤ 1224 := g.entries_le
  have hsize : SIZEOF_FTL_CONFIG = 9844 := rfl
  have hfirst : nandDsIn (flash 0) = g.nand_page_size := by
    rw [← hds]
    exact nandDsIn_eq (hc.words _ (by simp [FtlConfig.words])) fun i hi => h.config i (by omega)
  -- The first page of the configuration is the first in the buffer.
  have hconfig : ∀ (old buffer : Nat → UInt8), ∀ k < 52 + 8 * g.entries,
      writeWindow old 0 SIZEOF_FTL_CONFIG (read_pages g flash
        (fun i => { first_page with page := i }) buffer 3) k = c.byte k := by
    intro old buffer k hk
    rw [writeWindow_front (by omega), read_pages_byte (by omega), flashPage_config,
      Nat.div_eq_of_lt (by omega), Nat.mod_eq_of_lt (by omega), h.config k hk]
  unfold load_media
  simp only [nandDsIn_first hg.toSavedPagesFit, hfirst]
  rw [if_neg (by omega)]
  refine ⟨_, rfl, fun i hi => ?_, fun k hk => hconfig _ _ k hk⟩
  refine (load_tables_spec hg.dvd (fun q k hk hlt => ?_) (Nat.le_refl _) (by omega)
    (by omega)).1 i (Nat.zero_le _) (by omega)
  have hq := lt_entries hlt
  rw [mappingTablesIn_of_fits hc (fun k hk => hconfig _ _ k hk) (i := q) (by omega)]
  exact h.tables q k hk hlt

/-- The tables after `initialize_ftl` are those that the flash holds. -/
theorem HoldsInUse.power_on (h : HoldsInUse g flash s.ftl_config (L.bytes s))
    (hg : OnePageInUse g) (hs : Encodable g s)
    (hsearched : s.last_searched_channel = s.ftl_config.last_selected_ppa)
    (hds : s.ftl_config.nand_ds = g.nand_page_size) (r : FtlRam) :
    SameInUse g s (power_on L flash r) := by
  obtain ⟨r', hload, htables, hconfig⟩ := h.load hg hs.ftl_config hds r
  have hfields := configIn_fields hs.ftl_config fun k hk => hconfig k (by omega)
  have hwhole := hs.tablesIn hsearched htables
  have hpower : S4Sim.power_on L flash r =
      { s with ftl_config := { s.ftl_config with
          mapping_tables := (configIn r'.config).mapping_tables } } := by
    unfold S4Sim.power_on
    rw [hload]
    simp only
    rw [hfields]
    conv_rhs => rw [← hwhole]
    simp only [Layout.tablesIn]
  refine ⟨?_, ?_, fun i hi => ?_⟩
  · rw [hpower]
  · rw [hpower]
    refine ⟨hs.ftl_config.words, hs.ftl_config.last_selected_ppa, fun i => ?_, fun i hi => ?_⟩
    · simp only [configIn]
      split
      · exact fits_ppaAt _ _
      · decide
    · exact if_neg (not_lt.mpr hi)
  · have hlt : i < MAPPING_TABLES_ENTRIES := Nat.lt_of_lt_of_le hi g.entries_le
    rw [hpower]
    simp only [configIn, if_pos hlt]
    exact mappingTablesIn_of_fits hs.ftl_config hconfig (by omega)

theorem SameInUse.ready {a : Nat} (h : SameInUse g s t) (hs : Ready g s a) : Ready g t a := by
  have hgood := hs.good
  rw [h.eq]
  exact ⟨⟨hgood.pos, hgood.le, ⟨hgood.cursors.next_page, hgood.cursors.searched⟩, hgood.free,
    ⟨hgood.inverse.mapped, hgood.inverse.lpn⟩, hgood.words, hgood.rpp, hgood.reserved⟩, hs.free,
    hs.searched, hs.nand_ds⟩

theorem SameInUse.encodable (h : SameInUse g s t) (hs : Encodable g s) : Encodable g t := by
  have hfits := h.fits
  rw [h.eq] at hfits ⊢
  exact hs.withConfig hfits _

end Load

/-! ## The tables that the flash holds -/

/-- The flash holds the tables. The pages that it holds them in were handed out before. -/
structure SavedIn (L : Layout g) (flash : Nat → Nat → UInt8) (s : Ftl) (a : Nat) : Prop where
  ready : Ready g s a
  encodable : Encodable g s
  entries : ∀ i < g.entries, g.HasPage (s.ftl_config.mapping_tables i) ∧
    g.number (s.ftl_config.mapping_tables i) < a ∧
    3 ≤ g.flashPage (s.ftl_config.mapping_tables i)
  holds : HoldsInUse g flash s.ftl_config (L.bytes s)

section SavedIn

variable {L : Layout g} {flash flash' : Nat → Nat → UInt8} {s s' : Ftl} {a n : Nat} {x : Ppa}
  {m : StoreMemory} {tables config : Nat → UInt8}

/-- The flash pages that were handed out before stay, those of the configuration apart. -/
def KeepsPages (g : Geometry) (a : Nat) (flash flash' : Nat → Nat → UInt8) : Prop :=
  ∀ x, g.HasPage x → g.number x < a → 3 ≤ g.flashPage x →
    flash' (g.flashPage x) = flash (g.flashPage x)

/-- So does the first page: the flash pages that a restart needs stay. -/
def KeepsSaved (g : Geometry) (a : Nat) (flash flash' : Nat → Nat → UInt8) : Prop :=
  flash' 0 = flash 0 ∧ KeepsPages g a flash flash'

theorem KeepsPages.mono (h : KeepsPages g a flash flash') {a' : Nat} (ha : a' ≤ a) :
    KeepsPages g a' flash flash' := fun x hx hnum => h x hx (by omega)

theorem SavedIn.frame (h : SavedIn L flash s a) (hkeeps : KeepsSaved g a flash flash') :
    SavedIn L flash' s a := by
  refine ⟨h.ready, h.encodable, h.entries, fun k hk => ?_, fun q k hk hlt => ?_⟩
  · rw [hkeeps.1]
    exact h.holds.config k hk
  · obtain ⟨hpage, hnum, hthree⟩ := h.entries q (lt_entries hlt)
    rw [hkeeps.2 _ hpage hnum hthree]
    exact h.holds.tables q k hk hlt

theorem Blank.frame (h : Blank flash) (hkeeps : KeepsSaved g a flash flash') : Blank flash' := by
  unfold Blank at h ⊢
  rwa [hkeeps.1]

theorem flashPage_ne (hx : g.HasPage x) {y : Ppa} (hy : g.HasPage y)
    (h : g.number x ≠ g.number y) : g.flashPage x ≠ g.flashPage y := by
  intro he
  exact h (congrArg g.number (Geometry.flashPage_inj hx hy he))

/-- Page 0 of the flash is the first page, whose number is 0. -/
theorem flashPage_ne_zero (hx : g.HasPage x) (h : 0 < g.number x) : g.flashPage x ≠ 0 := by
  have hfirst : g.flashPage first_page = 0 := flashPage_config g 0
  rw [← hfirst]
  refine flashPage_ne hx (first_page_hasPage g) ?_
  rw [number_first_page]
  omega

/-- A program of a page that is handed out later. -/
theorem keepsSaved_update (ha : 0 < a) (hx : g.HasPage x) (hnum : a ≤ g.number x)
    (bytes : Nat → UInt8) :
    KeepsSaved g a flash (Function.update flash (g.flashPage x) bytes) := by
  refine ⟨Function.update_of_ne (flashPage_ne_zero hx (by omega)).symm .., fun y hy hlt _ => ?_⟩
  exact Function.update_of_ne (flashPage_ne hy hx (by omega)) ..

theorem SavedIn.power_on (h : SavedIn L flash s a) (hg : OnePageInUse g) (r : FtlRam) :
    SameInUse g s (power_on L flash r) :=
  h.holds.power_on hg h.encodable h.ready.searched h.ready.nand_ds r

/-! ## Stores that are cut -/

/-- The programs of the configuration. -/
def config_programs : List (Ppa × StoredPage) :=
  config_pages.zipIdx.map fun (x, k) => (x, .config k)

def table_programs (g : Geometry) (s : Ftl) : List (Ppa × StoredPage) :=
  program_tables g s.ftl_config.mapping_tables 0 g.mapping_table_bytes g.mapping_table_bytes

/-- The programs of a store that have ended when the power is lost: the first `n` of the
tables, which are programmed one by one, and then some of the three of the configuration, which
are one operation of the NAND driver. -/
def cutPrograms (g : Geometry) (s : Ftl) (n : Nat) (ended : Nat → Bool) :
    List (Ppa × StoredPage) :=
  if n < (table_programs g s).length then (table_programs g s).take n
  else table_programs g s ++ config_programs.filter fun p => ended p.1.page

/-- The store has come to the first page of the configuration. -/
def switched (g : Geometry) (s : Ftl) (n : Nat) (ended : Nat → Bool) : Bool :=
  decide ((table_programs g s).length ≤ n) && ended 0

theorem store_programs_eq (g : Geometry) (s : Ftl) :
    store_programs g s = table_programs g s ++ config_programs := rfl

/-- The programs have written their pages, and no others. -/
structure Programs (g : Geometry) (tables config : Nat → UInt8)
    (programs : List (Ppa × StoredPage)) (flash flash' : Nat → Nat → UInt8) : Prop where
  holds : ∀ p ∈ programs, HoldsStored g tables config (flash' (g.flashPage p.1)) p.2
  other : ∀ n, (∀ p ∈ programs, n ≠ g.flashPage p.1) → flash' n = flash n

theorem programs_program_pages {programs : List (Ppa × StoredPage)}
    (hnodup : (programs.map fun p => g.flashPage p.1).Nodup) (tables config : Nat → UInt8)
    (m : StoreMemory) : Programs g tables config programs m.flash
      (programs.foldl (program_page g tables config) m).flash := by
  refine ⟨fun p hp => program_pages_holds hnodup hp, fun n hn => ?_⟩
  clear hnodup
  induction programs using List.reverseRecOn with
  | nil => rfl
  | append_singleton programs p ih =>
    rw [List.foldl_append, List.foldl_cons, List.foldl_nil,
      program_page_other tables config _ (hn p (by simp))]
    exact ih fun q hq => hn q (List.mem_append_left _ hq)

/-- The pages of the tables are entries of the store. -/
theorem table_programs_targets {p : Ppa × StoredPage} (hp : p ∈ table_programs g s) :
    ∃ i < g.entries, p.1 = s.ftl_config.mapping_tables i := by
  obtain ⟨c, hc, htargets, -⟩ := program_tables_targets (g := g)
    s.ftl_config.mapping_tables 0 g.mapping_table_bytes g.mapping_table_bytes
  have hmem : p.1 ∈ (List.range' 0 c).map s.ftl_config.mapping_tables :=
    htargets ▸ List.mem_map_of_mem hp
  obtain ⟨j, hj, he⟩ := List.mem_map.mp hmem
  have hjc : j < c := by simpa using hj
  exact ⟨j, Nat.lt_of_lt_of_le hjc (le_entries g.nandPageBytes_pos hc), he.symm⟩

theorem config_programs_target {p : Ppa × StoredPage} (hp : p ∈ config_programs) :
    ∃ k < 3, p = ({ first_page with page := k }, .config k) := by
  simp only [config_programs, config_pages, List.zipIdx_cons, List.zipIdx_nil, List.map_cons,
    List.map_nil, List.mem_cons, List.not_mem_nil, or_false] at hp
  rcases hp with rfl | rfl | rfl
  · exact ⟨0, by omega, rfl⟩
  · exact ⟨1, by omega, rfl⟩
  · exact ⟨2, by omega, rfl⟩

theorem cutPrograms_sublist (s : Ftl) (n : Nat) (ended : Nat → Bool) :
    (cutPrograms g s n ended).Sublist (store_programs g s) := by
  rw [store_programs_eq]
  unfold cutPrograms
  split
  · exact (List.take_sublist _ _).trans (List.sublist_append_left _ _)
  · exact (List.Sublist.refl _).append List.filter_sublist

section Cut

variable {ended : Nat → Bool} {programs : List (Ppa × StoredPage)}

theorem cutPrograms_nodup (hpages : 3 ≤ g.nand_pages_per_block) (h : Ready g s a)
    (hstore : store_mapping_tables g s = some s')
    (hkeeps : KeepsConfig (g := g) s .store_mapping_tables) (n : Nat) (ended : Nat → Bool) :
    ((cutPrograms g s' n ended).map fun p => g.flashPage p.1).Nodup := by
  refine ((cutPrograms_sublist s' n ended).map _).nodup (store_programs_nodup h.good.rpp hstore
    fun i hi => ?_)
  rw [h.good.rpp] at hi
  exact (store_entries hpages h hstore hkeeps i hi).2.2

/-- Each program of a store has one of its entries, or a page of the configuration. -/
theorem cutPrograms_target {p : Ppa × StoredPage} (hp : p ∈ cutPrograms g s n ended) :
    (∃ i < g.entries, p.1 = s.ftl_config.mapping_tables i) ∨
      g.flashPage p.1 < 3 ∧ (switched g s n ended = false → g.flashPage p.1 ≠ 0) := by
  unfold cutPrograms at hp
  split at hp
  · exact Or.inl (table_programs_targets (List.mem_of_mem_take hp))
  · rename_i hn
    rcases List.mem_append.mp hp with hp | hp
    · exact Or.inl (table_programs_targets hp)
    · obtain ⟨hmem, hended⟩ := List.mem_filter.mp hp
      obtain ⟨k, hk, rfl⟩ := config_programs_target hmem
      simp only [flashPage_config]
      refine Or.inr ⟨hk, ?_⟩
      rintro hcut rfl
      simp only [switched, Bool.and_eq_false_iff, decide_eq_false_iff_not] at hcut
      rcases hcut with hcut | hcut
      · omega
      · rw [hcut] at hended
        cases hended

/-- A store leaves the pages that were handed out before it. -/
theorem cut_keepsPages (hpages : 3 ≤ g.nand_pages_per_block) (h : Ready g s a)
    (hstore : store_mapping_tables g s = some s')
    (hkeeps : KeepsConfig (g := g) s .store_mapping_tables)
    (hprograms : Programs g tables config (cutPrograms g s' n ended) flash flash') :
    KeepsPages g a flash flash' := by
  intro x hx hnum hthree
  refine hprograms.other _ fun p hp => ?_
  rcases cutPrograms_target hp with ⟨i, hi, hpi⟩ | ⟨hlt, -⟩
  · obtain ⟨hpage, hnum', -⟩ := store_entries hpages h hstore hkeeps i hi
    rw [hpi]
    exact flashPage_ne hx hpage (by omega)
  · omega

/-- A store that is cut before the first page of the configuration leaves that page too. -/
theorem cut_keepsSaved (hpages : 3 ≤ g.nand_pages_per_block) (h : Ready g s a)
    (hstore : store_mapping_tables g s = some s')
    (hkeeps : KeepsConfig (g := g) s .store_mapping_tables)
    (hprograms : Programs g tables config (cutPrograms g s' n ended) flash flash')
    (hcut : switched g s' n ended = false) : KeepsSaved g a flash flash' := by
  refine ⟨hprograms.other _ fun p hp => ?_, cut_keepsPages hpages h hstore hkeeps hprograms⟩
  rcases cutPrograms_target hp with ⟨i, hi, hpi⟩ | ⟨-, hzero⟩
  · have hthree := (store_entries hpages h hstore hkeeps i hi).2.2
    rw [hpi]
    omega
  · exact (hzero hcut).symm

/-- A store that has come there has saved its tables. -/
theorem switched_savedIn {L : Layout g} (hg : OnePageInUse g) (h : Ready g s a)
    (hs : Encodable g s) (hstore : store_mapping_tables g s = some s')
    (hkeeps : KeepsConfig (g := g) s .store_mapping_tables)
    (hprograms : Programs g (L.bytes s') s'.ftl_config.byte (cutPrograms g s' n ended) flash
      flash')
    (hswitched : switched g s' n ended = true) : SavedIn L flash' s' (a + g.entries) := by
  have hentries := store_entries hg.pages h hstore hkeeps
  simp only [switched, Bool.and_eq_true, decide_eq_true_eq] at hswitched
  obtain ⟨hall, hended⟩ := hswitched
  have hcut : cutPrograms g s' n ended =
      table_programs g s' ++ config_programs.filter fun p => ended p.1.page :=
    if_neg (not_lt.mpr hall)
  refine ⟨store_ready h hstore, hs.store h.good hstore, fun i hi => ?_, fun k hk => ?_,
    fun q k hk hlt => ?_⟩
  · obtain ⟨hpage, hnum, hthree⟩ := hentries i hi
    exact ⟨hpage, by omega, hthree⟩
  · have hmem : ((first_page, .config 0) : Ppa × StoredPage) ∈ cutPrograms g s' n ended := by
      rw [hcut]
      refine List.mem_append_right _ (List.mem_filter.mpr ⟨?_, hended⟩)
      simp [config_programs, config_pages]
    have hfirst : g.flashPage first_page = 0 := flashPage_config g 0
    have hbytes := hprograms.holds _ hmem
    have hin := hg.in_use
    have hle : g.entries ≤ 1224 := g.entries_le
    have hsize : SIZEOF_FTL_CONFIG = 9844 := rfl
    simp only [hfirst, HoldsStored, Nat.zero_mul, Nat.zero_add] at hbytes
    exact hbytes k (by omega)
  · have hmem := mem_program_tables (g := g) s'.ftl_config.mapping_tables (i := 0) (q := q)
      (Nat.le_refl g.mapping_table_bytes) (by omega)
    rw [Nat.zero_add] at hmem
    have hbytes := hprograms.holds _ (hcut ▸ List.mem_append_left _ hmem)
    exact hbytes k (by omega)

end Cut

theorem cutPrograms_all (s : Ftl) :
    cutPrograms g s (table_programs g s).length (fun _ => true) = store_programs g s := by
  unfold cutPrograms
  rw [if_neg (Nat.lt_irrefl _), List.filter_eq_self.mpr fun _ _ => rfl]
  rfl

end SavedIn

/-! ## Runs with losses of power -/

/-- The tables, the memory that a store writes, and the tables of the last store that has
come to the first page of the configuration. -/
structure Media where
  s : Ftl
  memory : StoreMemory
  saved : Option Ftl

/-- A page is mapped and programmed, the tables are saved, or the power is lost, also within a
store. `r` is what the RAM holds when the power is back. -/
inductive MediaOp (g : Geometry)
  | write (lpn : Fin g.total_num_of_pages) (bytes : Nat → UInt8)
  | save
  | lose_power (r : FtlRam)
  | lose_power_in_save (n : Nat) (ended : Nat → Bool) (r : FtlRam)

variable (L : Layout g)

/-- `initialize_ftl` after a loss of power. Its buffer for the first page is
`private_pg_buff`. -/
def powerUp (m : Media) (r : FtlRam) : Media :=
  { m with
    s := power_on L m.memory.flash r
    memory := ⟨m.memory.flash, writeWindow r.ZERO_BUFFER 0 g.nandPageBytes fun _ => 0⟩ }

/-- The memory when the programs of a store have ended. -/
def programmed (s : Ftl) (memory : StoreMemory) (programs : List (Ppa × StoredPage)) :
    StoreMemory :=
  programs.foldl (program_page g (L.bytes s) s.ftl_config.byte) memory

/-- `none`: `get_free_ppa` does not return. -/
def mediaStep (m : Media) : MediaOp g → Option Media
  | .write lpn bytes => (make_new_mapping g m.s lpn).map fun (x, s) =>
    { m with s, memory := { m.memory with
        flash := Function.update m.memory.flash (g.flashPage x) bytes } }
  | .save => (store_mapping_tables g m.s).map fun s =>
    ⟨s, programmed L s m.memory (store_programs g s), some s⟩
  | .lose_power r => some (powerUp L m r)
  | .lose_power_in_save n ended r => (store_mapping_tables g m.s).map fun s =>
    powerUp L ⟨s, programmed L s m.memory (cutPrograms g s n ended),
      if switched g s n ended then some s else m.saved⟩ r

/-- A store takes none of the pages that it writes the configuration to. -/
def SavesKeepConfig (m : Media) : MediaOp g → Prop
  | .save | .lose_power_in_save .. => KeepsConfig (g := g) m.s .store_mapping_tables
  | _ => True

instance (m : Media) : (op : MediaOp g) → Decidable (SavesKeepConfig m op)
  | .write .. | .lose_power _ => isTrue trivial
  | .save | .lose_power_in_save .. => inferInstanceAs (Decidable (∀ x ∈ config_pages,
      x ∉ handedOut (g := g) m.s .store_mapping_tables))

/-- The flash holds the saved tables, or it is blank. -/
def HoldsSaved (flash : Nat → Nat → UInt8) (a : Nat) : Option Ftl → Prop
  | none => Blank flash
  | some s => ∃ a₀ ≤ a, SavedIn L flash s a₀

structure MediaReady (m : Media) (a : Nat) : Prop where
  ready : Ready g m.s a
  encodable : Encodable g m.s
  saved : HoldsSaved L m.memory.flash a m.saved

section Runs

variable {L} {flash flash' : Nat → Nat → UInt8} {m m' : Media} {saved : Option Ftl} {s s' : Ftl}
  {a n : Nat} {op : MediaOp g} {memory : StoreMemory} {ended : Nat → Bool}

theorem HoldsSaved.frame (h : HoldsSaved L flash a saved) (hkeeps : KeepsSaved g a flash flash')
    {a' : Nat} (ha : a ≤ a') : HoldsSaved L flash' a' saved := by
  cases saved with
  | none => exact Blank.frame h hkeeps
  | some s =>
    obtain ⟨a₀, ha₀, hs⟩ := h
    exact ⟨a₀, by omega, hs.frame ⟨hkeeps.1, hkeeps.2.mono ha₀⟩⟩

theorem sameInUse_refl (hs : Encodable g s) : SameInUse g s s :=
  ⟨rfl, hs.ftl_config, fun _ _ => rfl⟩

/-- A restart brings back what is saved. -/
theorem HoldsSaved.power_on (h : HoldsSaved L flash a saved) (hg : OnePageInUse g) (r : FtlRam) :
    SameInUse g (saved.getD (initialize_ftl g)) (power_on L flash r) := by
  cases saved with
  | none =>
    rw [power_on_blank hg.toSavedPagesFit h]
    exact sameInUse_refl (encodable_initialize_ftl hg.toSavedPagesFit hg.host)
  | some s =>
    obtain ⟨a₀, -, hs⟩ := h
    exact hs.power_on hg r

/-- After the restart the pages that were handed out since the last save are free again. -/
theorem HoldsSaved.powerUp (h : HoldsSaved L m.memory.flash a m.saved) (hg : OnePageInUse g)
    (r : FtlRam) : ∃ a', MediaReady L (powerUp L m r) a' := by
  have hsame := h.power_on hg r
  have hnew : Encodable g (initialize_ftl g) :=
    encodable_initialize_ftl hg.toSavedPagesFit hg.host
  suffices hall : ∃ a', Ready g (m.saved.getD (initialize_ftl g)) a' ∧
      Encodable g (m.saved.getD (initialize_ftl g)) ∧ HoldsSaved L m.memory.flash a' m.saved by
    obtain ⟨a', hready, henc, hsaved⟩ := hall
    refine ⟨a', ?_, ?_, hsaved⟩
    · simp only [S4Sim.powerUp]
      exact hsame.ready hready
    · simp only [S4Sim.powerUp]
      exact hsame.encodable henc
  cases hs : m.saved with
  | none =>
    rw [hs] at h
    exact ⟨1, ready_initialize_ftl g, hnew, h⟩
  | some sv =>
    rw [hs] at h
    obtain ⟨a₀, -, hsv⟩ := h
    exact ⟨a₀, hsv.ready, hsv.encodable, a₀, Nat.le_refl a₀, hsv⟩

/-- A store, cut or not, leaves the old or the new tables in the flash. -/
theorem HoldsSaved.cut (h : HoldsSaved L flash a saved) (hg : OnePageInUse g)
    (hready : Ready g s a) (hs : Encodable g s) (hstore : store_mapping_tables g s = some s')
    (hkeeps : KeepsConfig (g := g) s .store_mapping_tables)
    (hprograms : Programs g (L.bytes s') s'.ftl_config.byte (cutPrograms g s' n ended) flash
      flash') :
    HoldsSaved L flash' (a + g.entries) (if switched g s' n ended then some s' else saved) := by
  split
  · rename_i hswitched
    exact ⟨_, Nat.le_refl _, switched_savedIn hg hready hs hstore hkeeps hprograms hswitched⟩
  · rename_i hcut
    have hcut := Bool.eq_false_of_not_eq_true hcut
    exact h.frame (cut_keepsSaved hg.pages hready hstore hkeeps hprograms hcut)
      (Nat.le_add_right a _)

theorem MediaReady.step (h : MediaReady L m a) (hg : OnePageInUse g) (hok : SavesKeepConfig m op)
    (hop : mediaStep L m op = some m') : ∃ a', MediaReady L m' a' := by
  have hready := h.ready
  cases op with
  | write lpn bytes =>
    obtain ⟨⟨x, s⟩, hmap, rfl⟩ := Option.map_eq_some_iff.mp hop
    obtain ⟨ha, hx, hnum, rfl⟩ := make_new_mapping_cases hready.good hmap
    have hstep := PageStep.map (s := m.s) ha hx hnum lpn.isLt
    refine ⟨a + 1, hready.page (p := (m.s, a)) hstep,
      h.encodable.map_new_page hready.good hx lpn.isLt,
      h.saved.frame (keepsSaved_update hready.good.pos hx hnum.ge bytes) (Nat.le_succ a)⟩
  | save =>
    obtain ⟨s, hstore, rfl⟩ := Option.map_eq_some_iff.mp hop
    have hprograms := programs_program_pages (cutPrograms_nodup hg.pages hready hstore hok
      (table_programs g s).length fun _ => true) (L.bytes s) s.ftl_config.byte m.memory
    have hcut := h.saved.cut hg hready h.encodable hstore hok hprograms
    rw [cutPrograms_all, if_pos (by simp [switched])] at hcut
    exact ⟨_, store_ready hready hstore, h.encodable.store hready.good hstore, hcut⟩
  | lose_power r =>
    obtain rfl : powerUp L m r = m' := Option.some.inj hop
    exact h.saved.powerUp hg r
  | lose_power_in_save n ended r =>
    obtain ⟨s, hstore, rfl⟩ := Option.map_eq_some_iff.mp hop
    have hprograms := programs_program_pages (cutPrograms_nodup hg.pages hready hstore hok n ended)
      (L.bytes s) s.ftl_config.byte m.memory
    have hcut := h.saved.cut hg hready h.encodable hstore hok hprograms
    exact HoldsSaved.powerUp (m := ⟨s, programmed L s m.memory (cutPrograms g s n ended),
      if switched g s n ended then some s else m.saved⟩) hcut hg r

end Runs

/-- In every run of writes, saves and losses of power, at any moment of a save too, a restart
brings back the tables of the last save that had programmed the first page of the
configuration, and those of new media before. -/
theorem a_restart_brings_back_the_last_save (hg : OnePageInUse g) {memory : StoreMemory}
    (hblank : Blank memory.flash) {ops : List (MediaOp g)} {m : Media}
    (hok : AllSteps (mediaStep L) SavesKeepConfig ⟨initialize_ftl g, memory, none⟩ ops)
    (h : run (mediaStep L) ⟨initialize_ftl g, memory, none⟩ ops = some m) (r : FtlRam) :
    SameInUse g (m.saved.getD (initialize_ftl g)) (power_on L m.memory.flash r) := by
  have hready : ∃ a, MediaReady L m a := by
    refine run_invariant_of_ok (I := fun _ m => ∃ a, MediaReady L m a) ?_ ?_ hok h
    · exact ⟨1, ready_initialize_ftl g, encodable_initialize_ftl hg.toSavedPagesFit hg.host, hblank⟩
    · rintro - t op u - ⟨a, ha⟩ hop hu
      exact ha.step hg hop hu
  obtain ⟨a, ha⟩ := hready
  exact ha.saved.power_on hg r

/-- Five pages, a save, one more page, and a save that is cut after its first page. -/
def cutSave : List (MediaOp twoChannels) :=
  (List.range 5).map (fun i => .write (Fin.ofNat 12 i) fun _ => 1) ++
    [.save, .write ⟨0, by decide⟩ fun _ => 2,
      .lose_power_in_save 1 (fun _ => false) ⟨fun _ => 3, fun _ => 3, fun _ => 3, fun _ => 3⟩]

def newMedia : Media := ⟨initialize_ftl twoChannels, ⟨fun _ _ => 0, fun _ => 0⟩, none⟩

theorem a_restart_brings_back_the_last_save_after_a_cut_save :
    ∃ m, run (mediaStep smallLayout) newMedia cutSave = some m ∧ m.saved.isSome = true ∧
      ∀ r, SameInUse twoChannels (m.saved.getD (initialize_ftl twoChannels))
        (power_on smallLayout m.memory.flash r) := by
  have hone : OnePageInUse twoChannels :=
    ⟨⟨by decide, by decide⟩, by decide, by decide, by decide⟩
  have hrun : (run (mediaStep smallLayout) newMedia cutSave).any (fun m => m.saved.isSome) =
      true := by
    decide +kernel
  obtain ⟨m, hm, hsaved⟩ := (Option.any_eq_true _ _).mp hrun
  have hok : AllSteps (mediaStep smallLayout) SavesKeepConfig newMedia cutSave := by
    decide +kernel
  exact ⟨m, hm, hsaved, fun r => a_restart_brings_back_the_last_save smallLayout hone
    (by unfold Blank; decide) hok hm r⟩

end S4Sim
