-- Which pages the FTL programs, against the pages that are live. The pages that
-- `store_mapping_tables` writes the configuration to are pages 0, 1 and 2 of
-- the first block; `initialize_ftl` reserves page 0 only. The allocator hands out
-- page 1 as the T-th page, for T planes, so the law holds for runs that take
-- fewer than T pages.
import S4Sim.Ftl.PageSteps
import Mathlib.Data.List.Nodup

open Runs

namespace S4Sim

variable {g : Geometry} {s s' : Ftl} {a i : Nat} {x : Ppa}

/-! ## Live pages -/

/-- An LPN is mapped to the page, or the same store has filled it. -/
def Live (g : Geometry) (s : Ftl) (stored : List Ppa) (x : Ppa) : Prop :=
  (∃ lpn < g.total_num_of_pages, s.is_unmapped_lpa lpn = false ∧ s.lpa_table lpn = x) ∨ x ∈ stored

def StoredPage.isTables : StoredPage → Bool
  | .tables .. => true
  | .config _ => false

/-- No program of a store has a live target. The pages in `stored` are those
that the store has filled with mapping tables before. -/
def NoLiveTarget (g : Geometry) (s : Ftl) (stored : List Ppa) : List (Ppa × StoredPage) → Prop
  | [] => True
  | (x, content) :: rest =>
    ¬ Live g s stored x ∧
      NoLiveTarget g s (if content.isTables then stored ++ [x] else stored) rest

/-- The page programs of one call spare the live pages. The data page of a
mapping is judged by the tables before the mapping. -/
def SparesLive (s : Ftl) : FtlOp g → Prop
  | .make_new_mapping lpn =>
    ∀ new_ppa s', make_new_mapping g s lpn = some (new_ppa, s') → ¬ Live g s [] new_ppa
  | .store_mapping_tables =>
    ∀ s', store_mapping_tables g s = some s' → NoLiveTarget g s' [] (store_programs g s')

/-- The pages that `get_free_ppa` returns in one call. -/
def handedOut (s : Ftl) : FtlOp g → List Ppa
  | .make_new_mapping lpn =>
    match make_new_mapping g s lpn with
    | none => []
    | some (new_ppa, _) => [new_ppa]
  | .store_mapping_tables =>
    match store_mapping_tables g s with
    | none => []
    | some s' => (List.range s.ftl_config.rpp_map_tables).map s'.ftl_config.mapping_tables

/-- No configuration page is handed out. -/
def KeepsConfig (s : Ftl) (op : FtlOp g) : Prop := ∀ x ∈ config_pages, x ∉ handedOut s op

/-! ## The entries that a store reserves -/

theorem reserve_pages_lpa_table {n : Nat} (h : Good g s a)
    (hr : reserve_pages g s i n = some s') : s'.lpa_table = s.lpa_table := by
  induction n generalizing s a i with
  | zero =>
    cases hr
    rfl
  | succ n ih =>
    obtain ⟨x, -, -, -, hgood, hrest⟩ := reserve_pages_cases h hr
    exact (ih hgood hrest).trans rfl

/-- Entry `i + j` is page `a + j`, and the entries before `i` stay. -/
theorem reserve_pages_entries {n : Nat} (h : Good g s a) (hr : reserve_pages g s i n = some s') :
    (∀ j < n, g.HasPage (s'.ftl_config.mapping_tables (i + j)) ∧
      g.number (s'.ftl_config.mapping_tables (i + j)) = a + j) ∧
    ∀ k < i, s'.ftl_config.mapping_tables k = s.ftl_config.mapping_tables k := by
  induction n generalizing s a i with
  | zero =>
    cases hr
    exact ⟨fun j hj => absurd hj (by omega), fun k _ => rfl⟩
  | succ n ih =>
    obtain ⟨x, -, hx, hnum, hgood, hrest⟩ := reserve_pages_cases h hr
    obtain ⟨hentries, hkept⟩ := ih hgood hrest
    have hself : s'.ftl_config.mapping_tables i = x := by
      rw [hkept i (by omega), reserve_page_mapping_tables, Function.update_self]
    refine ⟨fun j hj => ?_, fun k hk => ?_⟩
    · rcases Nat.eq_zero_or_pos j with rfl | hpos
      · rw [Nat.add_zero, hself, hnum]
        exact ⟨hx, rfl⟩
      · have hindex : i + 1 + (j - 1) = i + j := by omega
        have hj' := hentries (j - 1) (by omega)
        rw [hindex] at hj'
        exact ⟨hj'.1, by omega⟩
    · rw [hkept k (by omega), reserve_page_mapping_tables, Function.update_of_ne (by omega)]
      rfl

/-! ## The pages that one call hands out -/

/-- A call that returns hands out the pages `a` to `a + n - 1`. -/
theorem mem_handedOut {op : FtlOp g} (h : Good g s a) (hop : ftlStep s op = some s') :
    (∀ x ∈ handedOut s op, g.HasPage x ∧ a ≤ g.number x ∧ g.number x < a + op.pages g) ∧
    ∀ k, a ≤ k → k < a + op.pages g → ∃ x ∈ handedOut s op, g.HasPage x ∧ g.number x = k := by
  cases op with
  | make_new_mapping lpn =>
    obtain ⟨⟨y, t⟩, hm, rfl⟩ := Option.map_eq_some_iff.mp hop
    obtain ⟨-, hy, hnum, -⟩ := make_new_mapping_cases h hm
    have hout : handedOut s (.make_new_mapping lpn) = [y] := by
      simp only [handedOut, hm]
    rw [hout]
    simp only [FtlOp.pages, List.mem_singleton, forall_eq, exists_eq_left]
    exact ⟨⟨hy, by omega, by omega⟩, fun k _ _ => ⟨hy, by omega⟩⟩
  | store_mapping_tables =>
    have hstore : store_mapping_tables g s = some s' := hop
    have hr := hstore
    unfold store_mapping_tables at hr
    obtain ⟨hentries, -⟩ := reserve_pages_entries h hr
    have hout : handedOut (g := g) s .store_mapping_tables =
        (List.range s.ftl_config.rpp_map_tables).map s'.ftl_config.mapping_tables := by
      simp only [handedOut, hstore]
    simp only [Nat.zero_add, h.rpp] at hentries
    rw [hout, h.rpp]
    simp only [FtlOp.pages, List.mem_map, List.mem_range]
    constructor
    · rintro x ⟨j, hj, rfl⟩
      obtain ⟨hx, hnum⟩ := hentries j hj
      exact ⟨hx, by omega, by omega⟩
    · intro k hk hlt
      obtain ⟨hx, hnum⟩ := hentries (k - a) (by omega)
      exact ⟨_, ⟨k - a, by omega, rfl⟩, hx, by omega⟩

/-! ## The numbers of the configuration pages -/

/-- Page `k` of the first block is page `k * T`. -/
theorem number_config (g : Geometry) (k : Nat) :
    g.number { first_page with page := k } = g.total_num_of_planes * k := by
  simp [Geometry.number, Geometry.offset, Geometry.planeIndex, first_page, Ppa.planeOf]

theorem number_config_page {x : Ppa} (hx : x ∈ config_pages) :
    x = first_page ∨ g.total_num_of_planes ≤ g.number x := by
  simp only [config_pages, List.mem_cons, List.not_mem_nil, or_false] at hx
  rcases hx with rfl | rfl | rfl
  · exact Or.inl rfl
  · right
    rw [number_config, Nat.mul_one]
  · right
    rw [number_config]
    omega

theorem keepsConfig_of_le {op : FtlOp g} (h : Good g s a) (hop : ftlStep s op = some s')
    (hle : a + op.pages g ≤ g.total_num_of_planes) : KeepsConfig s op := by
  intro x hx hout
  obtain ⟨-, hge, hlt⟩ := (mem_handedOut h hop).1 x hout
  rcases number_config_page (g := g) hx with rfl | hT
  · have := h.pos
    rw [number_first_page] at hge
    omega
  · omega

/-- The call that reaches page number T hands out page 1 of the first block. -/
theorem not_keepsConfig {op : FtlOp g} (h : Good g s a) (hop : ftlStep s op = some s')
    (hpages : 1 < g.nand_pages_per_block) (ha : a ≤ g.total_num_of_planes)
    (hlt : g.total_num_of_planes < a + op.pages g) : ¬ KeepsConfig s op := by
  intro hkeeps
  obtain ⟨x, hout, hx, hnum⟩ := (mem_handedOut h hop).2 _ ha hlt
  have hone : g.HasPage { first_page with page := 1 } :=
    ⟨g.chn_pos, g.dies_per_channel_pos, g.planes_pos, g.blocks_pos, hpages⟩
  have heq : x = { first_page with page := 1 } :=
    Geometry.number_inj hx hone (by rw [hnum, number_config, Nat.mul_one])
  exact hkeeps x (by rw [heq]; simp [config_pages]) hout

/-! ## The programs of a store -/

theorem noLiveTarget_append {stored : List Ppa} {tabs rest : List (Ppa × StoredPage)}
    (htabs : ∀ p ∈ tabs, p.2.isTables = true) (hnodup : (stored ++ tabs.map Prod.fst).Nodup)
    (hfresh : ∀ p ∈ tabs, ¬ Live g s [] p.1)
    (hrest : NoLiveTarget g s (stored ++ tabs.map Prod.fst) rest) :
    NoLiveTarget g s stored (tabs ++ rest) := by
  induction tabs generalizing stored with
  | nil => simpa using hrest
  | cons p tabs ih =>
    obtain ⟨x, content⟩ := p
    have hx : x ∉ stored := by
      intro hmem
      rw [List.map_cons, List.nodup_append] at hnodup
      exact hnodup.2.2 x hmem x (by simp) rfl
    refine ⟨?_, ?_⟩
    · rintro (hmapped | hmem)
      · exact hfresh (x, content) List.mem_cons_self (Or.inl hmapped)
      · exact hx hmem
    · rw [if_pos (htabs _ List.mem_cons_self)]
      refine ih (fun p hp => htabs p (List.mem_cons_of_mem _ hp)) ?_
        (fun p hp => hfresh p (List.mem_cons_of_mem _ hp)) ?_
      · simpa using hnodup
      · simpa using hrest

theorem noLiveTarget_config {stored : List Ppa} {programs : List (Ppa × StoredPage)}
    (hconfig : ∀ p ∈ programs, p.2.isTables = false ∧ ¬ Live g s stored p.1) :
    NoLiveTarget g s stored programs := by
  induction programs with
  | nil => trivial
  | cons p programs ih =>
    obtain ⟨x, content⟩ := p
    obtain ⟨hc, hlive⟩ := hconfig _ List.mem_cons_self
    refine ⟨hlive, ?_⟩
    simp only at hc
    rw [hc, if_neg Bool.false_ne_true]
    exact ih fun p hp => hconfig p (List.mem_cons_of_mem _ hp)

/-- The program loop fills consecutive entries, no more than the store has
reserved. -/
theorem program_tables_targets (mt : Nat → Ppa) (i bytes n : Nat) :
    ∃ c, c * g.nandPageBytes < bytes + g.nandPageBytes ∧
      (program_tables g mt i bytes n).map Prod.fst = (List.range' i c).map mt ∧
      ∀ p ∈ program_tables g mt i bytes n, p.2.isTables = true := by
  have hpos := g.nandPageBytes_pos
  induction n generalizing i bytes with
  | zero => exact ⟨0, by omega, rfl, by simp [program_tables]⟩
  | succ n ih =>
    unfold program_tables
    split
    · exact ⟨0, by omega, rfl, by simp⟩
    · rename_i hbytes
      obtain ⟨c, hc, htargets, htables⟩ := ih (i + 1) (bytes - min bytes g.nandPageBytes)
      refine ⟨c + 1, ?_, ?_, ?_⟩
      · rw [Nat.succ_mul]
        rcases Nat.le_total bytes g.nandPageBytes with hle | hle
        · rw [Nat.min_eq_left hle, Nat.sub_self, Nat.zero_add] at hc
          have hzero : c = 0 := by
            by_contra hne
            have := Nat.le_mul_of_pos_left g.nandPageBytes (Nat.pos_of_ne_zero hne)
            omega
          subst hzero
          omega
        · rw [Nat.min_eq_right hle] at hc
          omega
      · simp only [List.map_cons, htargets, List.range'_succ]
      · intro p hp
        rcases List.mem_cons.mp hp with rfl | hp
        · rfl
        · exact htables p hp

theorem le_entries {c bytes P : Nat} (hP : 0 < P) (h : c * P < bytes + P) : c ≤ bytes / P + 1 := by
  have hle : (c - 1) * P ≤ bytes := by
    rw [Nat.sub_mul]
    omega
  exact Nat.sub_le_iff_le_add.mp ((Nat.le_div_iff_mul_le hP).mpr hle)

/-- A mapped page below page number T is no configuration page. -/
theorem config_not_mapped (h : Good g s a) (hle : a ≤ g.total_num_of_planes)
    (hx : x ∈ config_pages) : ¬ Live g s [] x := by
  rintro (⟨lpn, hlpn, hm, rfl⟩ | hmem)
  · have hlt := h.mapped_number_lt hlpn hm
    rcases number_config_page (g := g) hx with hfirst | hT
    · exact h.inverse.lpa_ne hlpn hm h.reserved (not_lt_total_tag g).2.2 hfirst
    · omega
  · simp at hmem

theorem sparesLive_store (h : Good g s a)
    (hle : a + FtlOp.pages g .store_mapping_tables ≤ g.total_num_of_planes) :
    SparesLive (g := g) s .store_mapping_tables := by
  intro s' hstore
  have hgood : Good g s' (a + FtlOp.pages g .store_mapping_tables) :=
    good_pages (p := (s, a)) h (ftlStep_pages .store_mapping_tables h hstore)
  unfold store_mapping_tables at hstore
  have hlpa := reserve_pages_lpa_table h hstore
  obtain ⟨hentries, -⟩ := reserve_pages_entries h hstore
  rw [h.rpp] at hentries
  simp only [Nat.zero_add] at hentries
  obtain ⟨c, hc, htargets, htables⟩ := program_tables_targets (g := g)
    s'.ftl_config.mapping_tables 0 g.mapping_table_bytes g.mapping_table_bytes
  have hcle := le_entries g.nandPageBytes_pos hc
  have hentry : ∀ x ∈ (List.range' 0 c).map s'.ftl_config.mapping_tables,
      g.HasPage x ∧ a ≤ g.number x ∧ g.number x < g.total_num_of_planes := by
    intro x hx
    obtain ⟨j, hj, rfl⟩ := List.mem_map.mp hx
    have hjc : j < c := by simpa using hj
    obtain ⟨hpage, hnum⟩ := hentries j (by omega)
    have hle' : a + (g.mapping_table_bytes / g.nandPageBytes + 1) ≤ g.total_num_of_planes := hle
    exact ⟨hpage, by omega, by omega⟩
  unfold store_programs
  refine noLiveTarget_append htables ?_ ?_ ?_
  · -- The entries have different numbers.
    rw [List.nil_append, htargets]
    refine List.Nodup.map_on (fun j hj k hk he => ?_) List.nodup_range'
    have hjc : j < c := by simpa using hj
    have hkc : k < c := by simpa using hk
    have hnj := (hentries j (by omega)).2
    have hnk := (hentries k (by omega)).2
    rw [he] at hnj
    omega
  · -- The LPNs are mapped to pages below `a`.
    intro p hp
    obtain ⟨-, hge, -⟩ := hentry p.1 (htargets ▸ List.mem_map_of_mem hp)
    rintro (⟨lpn, hlpn, hm, he⟩ | hmem)
    · have hm' : s.is_unmapped_lpa lpn = false := by
        unfold Ftl.is_unmapped_lpa at hm ⊢
        rwa [hlpa] at hm
      have := h.mapped_number_lt hlpn hm'
      rw [hlpa] at he
      rw [he] at this
      omega
    · simp at hmem
  · refine noLiveTarget_config fun p hp => ?_
    obtain ⟨⟨y, k⟩, hyk, rfl⟩ := List.mem_map.mp hp
    have hy : y ∈ config_pages := List.fst_mem_of_mem_zipIdx hyk
    refine ⟨rfl, ?_⟩
    rintro (hmapped | hmem)
    · exact config_not_mapped hgood hle hy (Or.inl hmapped)
    · rw [List.nil_append, htargets] at hmem
      obtain ⟨-, hge, hlt⟩ := hentry y hmem
      rcases number_config_page (g := g) hy with rfl | hT
      · have := h.pos
        rw [number_first_page] at hge
        omega
      · omega

/-- A mapping never takes the page of an LPN. -/
theorem sparesLive_map (h : Good g s a) (lpn : Fin g.total_num_of_pages) :
    SparesLive s (.make_new_mapping lpn) := by
  intro new_ppa s' hm
  obtain ⟨-, hx, hnum, -⟩ := make_new_mapping_cases h hm
  rintro (⟨l, hl, hmapped, he⟩ | hmem)
  · exact h.mapped_ne hx hnum hl hmapped he
  · simp at hmem

/-! ## The law -/

theorem pagesTaken_snoc (ops : List (FtlOp g)) (op : FtlOp g) :
    pagesTaken (ops ++ [op]) = pagesTaken ops + op.pages g := by
  unfold pagesTaken
  simp [Nat.add_assoc]

theorem sparesLive_of_le {op : FtlOp g} (h : Good g s a)
    (hle : a + op.pages g ≤ g.total_num_of_planes) : SparesLive s op := by
  cases op with
  | make_new_mapping lpn => exact sparesLive_map h lpn
  | store_mapping_tables => exact sparesLive_store h hle

/-- Every call of a run spares the live pages and the configuration pages
exactly when the run, with the page that `initialize_ftl` reserves, takes no
more pages than there are planes. -/
theorem live_pages_are_spared_up_to_one_page_a_plane (hpages : 1 < g.nand_pages_per_block)
    {ops : List (FtlOp g)} (h : run ftlStep (initialize_ftl g) ops = some s) :
    AllSteps ftlStep (fun s op => SparesLive s op ∧ KeepsConfig s op) (initialize_ftl g) ops ↔
      pagesTaken ops ≤ g.total_num_of_planes := by
  constructor
  · intro hall
    refine run_invariant_of_ok (I := fun ops _ => pagesTaken ops ≤ g.total_num_of_planes) ?_ ?_
      hall h
    · exact g.total_num_of_planes_pos
    · intro acts t op u ht hI hok hop
      by_contra hgt
      rw [pagesTaken_snoc] at hgt
      exact not_keepsConfig (run_good ht) hop hpages hI (by omega) hok.2
  · intro hle
    induction ops using List.reverseRecOn generalizing s with
    | nil => trivial
    | append_singleton ops op ih =>
      rw [pagesTaken_snoc] at hle
      obtain ⟨t, ht, hop⟩ := run_snoc_eq_some.mp h
      refine allSteps_snoc.mpr ⟨ih ht (by omega), fun t' ht' => ?_⟩
      rw [ht] at ht'
      cases ht'
      exact ⟨sparesLive_of_le (run_good ht) hle, keepsConfig_of_le (run_good ht) hop hle⟩

/-- Eight planes of six pages. -/
def eightPlanes : Geometry :=
  { twoChannels with
    nand_dies_per_pkg := 2
    nand_planes_per_die := 2
    dies_pos := Nat.two_pos
    planes_pos := Nat.two_pos
    dies_le := by decide
    planes_le := by decide
    total_le := by decide }

/-- Two LPNs are mapped, the tables are stored in two pages, and both LPNs and a third one
are mapped again. -/
def mapsAroundAStore : List (FtlOp eightPlanes) :=
  [.make_new_mapping ⟨0, by decide⟩, .make_new_mapping ⟨1, by decide⟩, .store_mapping_tables,
    .make_new_mapping ⟨1, by decide⟩, .make_new_mapping ⟨0, by decide⟩,
    .make_new_mapping ⟨2, by decide⟩]

theorem live_pages_are_spared_by_mappings_around_a_store :
    ∃ s, run ftlStep (initialize_ftl eightPlanes) mapsAroundAStore = some s ∧
      AllSteps ftlStep (fun s op => SparesLive s op ∧ KeepsConfig s op)
        (initialize_ftl eightPlanes) mapsAroundAStore := by
  obtain ⟨s, hs⟩ := (a_run_returns_while_pages_are_left mapsAroundAStore).mpr (by decide)
  exact ⟨s, hs, (live_pages_are_spared_up_to_one_page_a_plane (by decide) hs).mpr (by decide)⟩

/-- Two mappings take pages 1 and 2, and page 2 is page 1 of the first block.
The store then programs it while LPN 1 is mapped to it. -/
theorem a_store_overwrites_a_mapped_page :
    ¬ ∀ (ops : List (FtlOp twoChannels)) (s : Ftl),
      run ftlStep (initialize_ftl twoChannels) ops = some s →
        AllSteps ftlStep (fun s op => SparesLive s op ∧ KeepsConfig s op)
          (initialize_ftl twoChannels) ops := by
  intro hall
  obtain ⟨s, hs⟩ := (a_run_returns_while_pages_are_left (g := twoChannels)
    [.make_new_mapping ⟨0, by decide⟩, .make_new_mapping ⟨1, by decide⟩,
      .store_mapping_tables]).mpr (by decide)
  obtain ⟨-, h1⟩ := hall _ s hs
  obtain ⟨-, h2⟩ := h1 _ rfl
  obtain ⟨⟨hstore, -⟩, -⟩ := h2 _ rfl
  obtain ⟨-, -, -, hlive, -⟩ := hstore _ rfl
  exact hlive (Or.inl ⟨1, by decide, rfl, rfl⟩)

end S4Sim
