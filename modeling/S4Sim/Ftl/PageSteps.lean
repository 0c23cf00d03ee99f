-- The FTL one page at a time. `make_new_mapping` takes one page, and
-- `store_mapping_tables` takes one page after the other. `Good` is the invariant
-- of the tables; each page step keeps it, so every run of the FTL keeps it.
import S4Sim.Ftl.AllocationOrder
import S4Sim.Lib.Run
import Mathlib.Logic.Relation

open Relation Runs

namespace S4Sim

/-! ## What the two steps write -/

section Writes

variable (s : Ftl) (lpn i : Nat) (x : Ppa)

@[simp] theorem map_new_page_lpa_table :
    (map_new_page lpn x s).lpa_table = Function.update s.lpa_table lpn x := by
  unfold map_new_page
  split <;> rfl

theorem map_new_page_word_self : (map_new_page lpn x s).ppa_table x = lpn := by
  unfold map_new_page
  split <;> simp [Ftl.decTotalFree, Ftl.incTotalValid, Ftl.incTotalInvalid, Ftl.inc_valid_pages,
    Ftl.setBlock, Ftl.map_lpa_and_ppa, Ftl.set_mapped_lpa]

/-- The word of another page: only the old page of the LPN changes. -/
theorem map_new_page_word {y : Ppa} (hy : y ≠ x) :
    (map_new_page lpn x s).ppa_table y =
      if s.is_unmapped_lpa lpn = false ∧ y = s.lpa_table lpn then INVALID_PPA
      else s.ppa_table y := by
  unfold map_new_page
  split
  · rename_i h
    rw [if_neg (by simp [h])]
    exact Function.update_of_ne hy ..
  · rename_i h
    refine (Function.update_of_ne hy ..).trans ?_
    by_cases hc : y = s.lpa_table lpn
    · subst hc
      rw [if_pos ⟨by simpa using h, rfl⟩]
      simp [Ftl.set_invalid_ppa, Ftl.inc_invalid_pages, Ftl.dec_valid_pages, Ftl.setBlock,
        Ftl.set_mapped_ppa]
    · rw [if_neg (by simp [hc])]
      exact Function.update_of_ne hc ..

@[simp] theorem map_new_page_last_page :
    (map_new_page lpn x s).last_page_per_plane = s.last_page_per_plane := by
  unfold map_new_page
  split <;> rfl

@[simp] theorem map_new_page_last_searched :
    (map_new_page lpn x s).last_searched_channel = s.last_searched_channel := by
  unfold map_new_page
  split <;> rfl

@[simp] theorem map_new_page_rpp :
    (map_new_page lpn x s).ftl_config.rpp_map_tables = s.ftl_config.rpp_map_tables := by
  unfold map_new_page
  split <;> rfl

@[simp] theorem map_new_page_mapping_tables :
    (map_new_page lpn x s).ftl_config.mapping_tables = s.ftl_config.mapping_tables := by
  unfold map_new_page
  split <;> rfl

@[simp] theorem reserve_page_lpa_table : (reserve_page i x s).lpa_table = s.lpa_table := rfl

@[simp] theorem reserve_page_ppa_table :
    (reserve_page i x s).ppa_table = Function.update s.ppa_table x INVALID_PPA := rfl

@[simp] theorem reserve_page_mapping_tables :
    (reserve_page i x s).ftl_config.mapping_tables =
      Function.update s.ftl_config.mapping_tables i x := rfl

end Writes

/-! ## The words of ppa_table -/

/-- An LPN has its two top bits clear. -/
theorem isLpn_of_lt {n : Nat} (h : n < 0x40000000) : isLpn n = true := by
  have hand : n &&& 0xc0000000 = 0 := by
    apply Nat.eq_of_testBit_eq
    intro i
    rw [Nat.testBit_and, Nat.zero_testBit]
    rcases Nat.lt_or_ge i 30 with hi | hi
    · have hmask : ∀ i < 30, Nat.testBit 0xc0000000 i = false := by decide
      rw [hmask i hi, Bool.and_false]
    · have hn : n < 2 ^ i := h.trans_le (Nat.pow_le_pow_right (n := 2) (by omega) hi)
      rw [Nat.testBit_lt_two_pow hn, Bool.false_and]
  simp [isLpn, hand]

theorem Geometry.isLpn_of_lt_total {g : Geometry} {n : Nat} (h : n < g.total_num_of_pages) :
    isLpn n = true := isLpn_of_lt (h.trans_le g.total_num_of_pages_le)

theorem Geometry.lpn_ne {g : Geometry} {n : Nat} (h : n < g.total_num_of_pages) :
    n ≠ FREE_PPA ∧ n ≠ INVALID_PPA ∧ n ≠ RESERVED_PPA := by
  have := g.total_num_of_pages_le
  unfold FREE_PPA INVALID_PPA RESERVED_PPA
  omega

/-- A word is a tag, or it holds an LPN. -/
def GoodWord (g : Geometry) (w : Nat) : Prop :=
  w = FREE_PPA ∨ w = INVALID_PPA ∨ w = RESERVED_PPA ∨ w < g.total_num_of_pages

theorem GoodWord.isLpn_iff {g : Geometry} {w : Nat} (h : GoodWord g w) :
    isLpn w = true ↔ w < g.total_num_of_pages := by
  refine ⟨fun hw => ?_, fun hw => g.isLpn_of_lt_total hw⟩
  rcases h with rfl | rfl | rfl | hlt
  · exact absurd hw (by decide)
  · exact absurd hw (by decide)
  · exact absurd hw (by decide)
  · exact hlt

/-! ## The invariant of the tables -/

/-- The two tables are inverse maps between the mapped LPNs and the pages
that hold an LPN. -/
structure Inverse (g : Geometry) (s : Ftl) : Prop where
  mapped : ∀ lpn < g.total_num_of_pages, s.is_unmapped_lpa lpn = false →
    g.HasPage (s.lpa_table lpn) ∧ s.ppa_table (s.lpa_table lpn) = lpn
  lpn : ∀ x, g.HasPage x → s.ppa_table x < g.total_num_of_pages →
    s.lpa_table (s.ppa_table x) = x

/-- The pages below `a` are handed out, the others are free, and the tables
are inverse maps. The first page is reserved for good. -/
structure Good (g : Geometry) (s : Ftl) (a : Nat) : Prop where
  pos : 0 < a
  le : a ≤ g.total_num_of_pages
  cursors : Cursors g s a
  free : FreeFrom g s a
  inverse : Inverse g s
  words : ∀ x, g.HasPage x → GoodWord g (s.ppa_table x)
  rpp : s.ftl_config.rpp_map_tables = g.mapping_table_bytes / g.nandPageBytes + 1
  reserved : s.ppa_table first_page = RESERVED_PPA

theorem first_word_initialize_ftl (g : Geometry) :
    (initialize_ftl g).ppa_table first_page = RESERVED_PPA := by
  simp [initialize_ftl, Ftl.set_reserved_ppa, Ftl.inc_valid_pages, Ftl.setBlock]

theorem good_initialize_ftl (g : Geometry) : Good g (initialize_ftl g) 1 := by
  refine ⟨Nat.one_pos, g.total_num_of_pages_pos, cursors_initialize_ftl g,
    freeFrom_initialize_ftl g, ⟨?_, ?_⟩, ?_, rfl, first_word_initialize_ftl g⟩
  · intro lpn _ h
    cases h
  · intro x hx hlt
    have hword := freeFrom_initialize_ftl g x hx
    by_cases h : x = first_page
    · subst h
      exact absurd (first_word_initialize_ftl g) (g.lpn_ne hlt).2.2
    · have hw : (initialize_ftl g).ppa_table x = FREE_PPA := Function.update_of_ne h ..
      exact absurd hw (g.lpn_ne hlt).1
  · intro x hx
    by_cases h : x = first_page
    · subst h
      exact Or.inr (Or.inr (Or.inl (first_word_initialize_ftl g)))
    · exact Or.inl (Function.update_of_ne h ..)

/-! ## One page step -/

/-- The state and the number of the next page before and after one page was
taken: for an LPN, or for an entry of `mapping_tables`. -/
inductive PageStep (g : Geometry) : Ftl × Nat → Ftl × Nat → Prop
  | map {s : Ftl} {a lpn : Nat} {x : Ppa} (ha : a < g.total_num_of_pages) (hx : g.HasPage x)
      (hnum : g.number x = a) (hlpn : lpn < g.total_num_of_pages) :
      PageStep g (s, a) (map_new_page lpn x (s.advance x), a + 1)
  | reserve {s : Ftl} {a i : Nat} {x : Ppa} (ha : a < g.total_num_of_pages) (hx : g.HasPage x)
      (hnum : g.number x = a) :
      PageStep g (s, a) (reserve_page i x (s.advance x), a + 1)

section Keeps

variable {g : Geometry} {s : Ftl} {a lpn i : Nat} {x : Ppa}

theorem Good.word_free (h : Good g s a) (hx : g.HasPage x) (hnum : g.number x = a) :
    s.ppa_table x = FREE_PPA := (h.free x hx).mpr hnum.ge

/-- The page of a mapped LPN is not free, so it is not the page just taken. -/
theorem Good.mapped_ne (h : Good g s a) (hx : g.HasPage x) (hnum : g.number x = a)
    (hlpn : lpn < g.total_num_of_pages) (hm : s.is_unmapped_lpa lpn = false) :
    s.lpa_table lpn ≠ x := by
  intro he
  obtain ⟨-, hword⟩ := h.inverse.mapped lpn hlpn hm
  rw [he, h.word_free hx hnum] at hword
  exact (g.lpn_ne hlpn).1 hword.symm

/-- No LPN below the limit is mapped to a page whose word is a tag. -/
theorem Inverse.lpa_ne (h : Inverse g s) (hlpn : lpn < g.total_num_of_pages)
    (hm : s.is_unmapped_lpa lpn = false) {w : Nat} (hw : s.ppa_table x = w)
    (htag : ¬ w < g.total_num_of_pages) : s.lpa_table lpn ≠ x := by
  intro he
  obtain ⟨-, hword⟩ := h.mapped lpn hlpn hm
  rw [he, hw] at hword
  exact htag (hword ▸ hlpn)

theorem not_lt_total_tag (g : Geometry) :
    ¬ FREE_PPA < g.total_num_of_pages ∧ ¬ INVALID_PPA < g.total_num_of_pages ∧
      ¬ RESERVED_PPA < g.total_num_of_pages := by
  have := g.total_num_of_pages_le
  unfold FREE_PPA INVALID_PPA RESERVED_PPA
  omega

/-- A page of another number keeps its side of `a` when page `a` is taken. -/
theorem free_iff_succ {y : Ppa} (hy : g.HasPage y) (hx : g.HasPage x) (hnum : g.number x = a)
    (hyx : y ≠ x) : a ≤ g.number y ↔ a + 1 ≤ g.number y := by
  have hne : g.number y ≠ a := fun he => hyx (Geometry.number_inj hy hx (he.trans hnum.symm))
  omega

theorem cursors_congr {s' : Ftl} (h : Cursors g s a)
    (hlast : s'.last_page_per_plane = s.last_page_per_plane)
    (hsearched : s'.last_searched_channel = s.last_searched_channel) : Cursors g s' a := by
  refine ⟨?_, ?_⟩
  · rw [hlast]
    exact h.next_page
  · rw [hsearched]
    exact h.searched

theorem Good.ne_first_page (h : Good g s a) (hnum : g.number x = a) : x ≠ first_page := by
  rintro rfl
  have := h.pos
  rw [number_first_page] at hnum
  omega

/-- The page of a mapped LPN has a number below `a`. -/
theorem Good.mapped_number_lt (h : Good g s a) (hlpn : lpn < g.total_num_of_pages)
    (hm : s.is_unmapped_lpa lpn = false) : g.number (s.lpa_table lpn) < a := by
  obtain ⟨hpage, hword⟩ := h.inverse.mapped lpn hlpn hm
  by_contra hge
  rw [(h.free _ hpage).mpr (by omega)] at hword
  exact (g.lpn_ne hlpn).1 hword.symm

theorem good_reserve_page (h : Good g s a) (ha : a < g.total_num_of_pages) (hx : g.HasPage x)
    (hnum : g.number x = a) : Good g (reserve_page i x (s.advance x)) (a + 1) := by
  have hword := h.word_free hx hnum
  have htags := not_lt_total_tag g
  have hfirst := h.ne_first_page hnum
  refine ⟨Nat.succ_pos a, ha, cursors_congr (h.cursors.advance hx hnum) rfl rfl, ?_, ⟨?_, ?_⟩, ?_,
    h.rpp, (Function.update_of_ne hfirst.symm ..).trans h.reserved⟩
  · intro y hy
    simp only [reserve_page_ppa_table, Ftl.advance_ppa_table]
    by_cases hyx : y = x
    · subst hyx
      simp only [Function.update_self, hnum]
      exact ⟨fun hf => absurd hf (by decide), fun hle => by omega⟩
    · rw [Function.update_of_ne hyx, h.free y hy]
      exact free_iff_succ hy hx hnum hyx
  · intro l hl hm
    have hne := h.mapped_ne hx hnum hl hm
    obtain ⟨hpage, hw⟩ := h.inverse.mapped l hl hm
    refine ⟨hpage, ?_⟩
    simp only [reserve_page_lpa_table, reserve_page_ppa_table, Ftl.advance_lpa_table,
      Ftl.advance_ppa_table]
    rw [Function.update_of_ne hne, hw]
  · intro y hy
    simp only [reserve_page_lpa_table, reserve_page_ppa_table, Ftl.advance_lpa_table,
      Ftl.advance_ppa_table]
    by_cases hyx : y = x
    · subst hyx
      rw [Function.update_self]
      exact fun hlt => absurd hlt htags.2.1
    · rw [Function.update_of_ne hyx]
      exact h.inverse.lpn y hy
  · intro y hy
    simp only [reserve_page_ppa_table, Ftl.advance_ppa_table]
    by_cases hyx : y = x
    · subst hyx
      rw [Function.update_self]
      exact Or.inr (Or.inl rfl)
    · rw [Function.update_of_ne hyx]
      exact h.words y hy

theorem good_map_new_page (h : Good g s a) (ha : a < g.total_num_of_pages) (hx : g.HasPage x)
    (hnum : g.number x = a) (hlpn : lpn < g.total_num_of_pages) :
    Good g (map_new_page lpn x (s.advance x)) (a + 1) := by
  have htags := not_lt_total_tag g
  have hself := map_new_page_word_self (s.advance x) lpn x
  have hother := fun y => map_new_page_word (s.advance x) lpn x (y := y)
  simp only [Ftl.advance_lpa_table, Ftl.advance_ppa_table] at hother
  have hmap : (s.advance x).is_unmapped_lpa lpn = s.is_unmapped_lpa lpn := rfl
  simp only [hmap] at hother
  refine ⟨Nat.succ_pos a, ha, cursors_congr (h.cursors.advance hx hnum)
    (map_new_page_last_page ..) (map_new_page_last_searched ..), ?_, ⟨?_, ?_⟩, ?_, ?_, ?_⟩
  · intro y hy
    by_cases hyx : y = x
    · subst hyx
      rw [hself, hnum]
      exact ⟨fun hf => absurd hf (g.lpn_ne hlpn).1, fun hle => by omega⟩
    · rw [hother y hyx, ← free_iff_succ hy hx hnum hyx, ← h.free y hy]
      split
      · -- The old page of the LPN held the LPN, so it was not free before.
        rename_i hc
        obtain ⟨-, hw⟩ := h.inverse.mapped lpn hlpn hc.1
        rw [hc.2, hw]
        exact ⟨fun hf => absurd hf (by decide), fun hf => absurd hf (g.lpn_ne hlpn).1⟩
      · rfl
  · intro l hl hm
    rw [map_new_page_lpa_table] at *
    by_cases hll : l = lpn
    · subst hll
      rw [Function.update_self]
      exact ⟨hx, hself⟩
    · rw [Function.update_of_ne hll, Ftl.advance_lpa_table]
      have hm' : s.is_unmapped_lpa l = false := by
        unfold Ftl.is_unmapped_lpa at hm ⊢
        rwa [map_new_page_lpa_table, Function.update_of_ne hll] at hm
      obtain ⟨hpage, hw⟩ := h.inverse.mapped l hl hm'
      refine ⟨hpage, ?_⟩
      rw [hother _ (h.mapped_ne hx hnum hl hm'), if_neg, hw]
      -- Two LPNs do not share a page.
      rintro ⟨hc, he⟩
      obtain ⟨-, hw'⟩ := h.inverse.mapped lpn hlpn hc
      rw [← he, hw] at hw'
      exact hll hw'
  · intro y hy hlt
    by_cases hyx : y = x
    · subst hyx
      rw [hself, map_new_page_lpa_table, Function.update_self]
    · rw [hother y hyx] at hlt ⊢
      split at hlt
      · exact absurd hlt htags.2.1
      · rename_i hc
        rw [if_neg hc, map_new_page_lpa_table]
        have hback := h.inverse.lpn y hy hlt
        by_cases he : s.ppa_table y = lpn
        · -- A page that holds the LPN is its old page, so it is not kept.
          rw [he] at hback
          have hm : s.is_unmapped_lpa lpn = false := by
            unfold Ftl.is_unmapped_lpa
            rw [hback]
            simpa using hy.chn_ne
          exact absurd ⟨hm, hback.symm⟩ hc
        · rw [Function.update_of_ne he]
          exact hback
  · intro y hy
    by_cases hyx : y = x
    · subst hyx
      rw [hself]
      exact Or.inr (Or.inr (Or.inr hlpn))
    · rw [hother y hyx]
      split
      · exact Or.inr (Or.inl rfl)
      · exact h.words y hy
  · rw [map_new_page_rpp]
    exact h.rpp
  · rw [hother _ (h.ne_first_page hnum).symm, if_neg, h.reserved]
    rintro ⟨hc, he⟩
    exact h.inverse.lpa_ne hlpn hc h.reserved htags.2.2 he.symm

theorem PageStep.good {p q : Ftl × Nat} (hstep : PageStep g p q) (h : Good g p.1 p.2) :
    Good g q.1 q.2 := by
  cases hstep with
  | map ha hx hnum hlpn => exact good_map_new_page h ha hx hnum hlpn
  | reserve ha hx hnum => exact good_reserve_page h ha hx hnum

/-! ## A run is a run of page steps -/

/-- The pages of one call: one for a mapping, `rpp_map_tables` for a store. -/
def FtlOp.pages (g : Geometry) : FtlOp g → Nat
  | .make_new_mapping _ => 1
  | .store_mapping_tables => g.mapping_table_bytes / g.nandPageBytes + 1

theorem good_pages {p q : Ftl × Nat} (hp : Good g p.1 p.2) (h : ReflTransGen (PageStep g) p q) :
    Good g q.1 q.2 := by
  induction h with
  | refl => exact hp
  | tail _ hstep ih => exact hstep.good ih

/-- What the first turn of a reservation that returns did. -/
theorem reserve_pages_cases {n : Nat} {s' : Ftl} (h : Good g s a)
    (hr : reserve_pages g s i (n + 1) = some s') :
    ∃ x, a < g.total_num_of_pages ∧ g.HasPage x ∧ g.number x = a ∧
      Good g (reserve_page i x (s.advance x)) (a + 1) ∧
      reserve_pages g (reserve_page i x (s.advance x)) (i + 1) n = some s' := by
  unfold reserve_pages at hr
  split at hr
  · cases hr
  · rename_i x t hget
    obtain ⟨ha, hx, hnum, rfl⟩ := get_free_ppa_cases h.cursors h.free hget
    exact ⟨x, ha, hx, hnum, good_reserve_page h ha hx hnum, hr⟩

theorem reserve_pages_steps {n : Nat} {s' : Ftl} (h : Good g s a)
    (hr : reserve_pages g s i n = some s') :
    ReflTransGen (PageStep g) (s, a) (s', a + n) := by
  induction n generalizing s a i with
  | zero =>
    cases hr
    exact .refl
  | succ n ih =>
    obtain ⟨x, ha, hx, hnum, hgood, hrest⟩ := reserve_pages_cases h hr
    rw [Nat.add_comm n, ← Nat.add_assoc]
    exact .head (.reserve ha hx hnum) (ih hgood hrest)

/-- What a mapping that returns did. -/
theorem make_new_mapping_cases {s' : Ftl} (h : Good g s a)
    (hm : make_new_mapping g s lpn = some (x, s')) :
    a < g.total_num_of_pages ∧ g.HasPage x ∧ g.number x = a ∧
      s' = map_new_page lpn x (s.advance x) := by
  unfold make_new_mapping at hm
  split at hm
  · cases hm
  · rename_i y t hget
    obtain ⟨ha, hx, hnum, rfl⟩ := get_free_ppa_cases h.cursors h.free hget
    cases hm
    exact ⟨ha, hx, hnum, rfl⟩

theorem ftlStep_map_cases {l : Fin g.total_num_of_pages} {s' : Ftl} (h : Good g s a)
    (hop : ftlStep s (.make_new_mapping l) = some s') :
    ∃ x, a < g.total_num_of_pages ∧ g.HasPage x ∧ g.number x = a ∧
      s' = map_new_page l x (s.advance x) := by
  obtain ⟨⟨x, t⟩, hm, rfl⟩ := Option.map_eq_some_iff.mp hop
  exact ⟨x, make_new_mapping_cases h hm⟩

theorem ftlStep_pages (op : FtlOp g) {s' : Ftl} (h : Good g s a) (hop : ftlStep s op = some s') :
    ReflTransGen (PageStep g) (s, a) (s', a + op.pages g) := by
  cases op with
  | make_new_mapping lpn =>
    obtain ⟨x, ha, hx, hnum, rfl⟩ := ftlStep_map_cases h hop
    exact .single (.map ha hx hnum lpn.isLt)
  | store_mapping_tables =>
    unfold ftlStep store_mapping_tables at hop
    rw [h.rpp] at hop
    exact reserve_pages_steps h hop

/-- The pages that a run has taken, with the page that `initialize_ftl` reserves. -/
def pagesTaken (ops : List (FtlOp g)) : Nat := 1 + (ops.map (FtlOp.pages g)).sum

theorem run_pages {ops : List (FtlOp g)} {p : Ftl × Nat} {s' : Ftl} (hp : Good g p.1 p.2)
    (h : run ftlStep p.1 ops = some s') :
    ReflTransGen (PageStep g) p (s', p.2 + (ops.map (FtlOp.pages g)).sum) := by
  induction ops generalizing p with
  | nil =>
    cases h
    exact .refl
  | cons op ops ih =>
    obtain ⟨t, ht, hrest⟩ := Option.bind_eq_some_iff.mp h
    have hsteps := ftlStep_pages op hp ht
    have hgood := good_pages hp hsteps
    have := ih hgood hrest
    rw [List.map_cons, List.sum_cons, ← Nat.add_assoc]
    exact hsteps.trans this

theorem run_good {ops : List (FtlOp g)} (h : run ftlStep (initialize_ftl g) ops = some s) :
    Good g s (pagesTaken ops) :=
  good_pages (good_initialize_ftl g) (run_pages (p := (initialize_ftl g, 1))
    (good_initialize_ftl g) h)

/-! ## When a run returns -/

theorem reserve_pages_returns {n : Nat} (h : Good g s a) (hle : a + n ≤ g.total_num_of_pages) :
    ∃ s', reserve_pages g s i n = some s' := by
  induction n generalizing s a i with
  | zero => exact ⟨s, rfl⟩
  | succ n ih =>
    have hpos := g.total_num_of_planes_pos
    obtain ⟨x, hx, hnum, hget⟩ := get_free_ppa_spec h.cursors h.free (by omega)
      (g.total_num_of_planes - 1)
    rw [Nat.sub_add_cancel hpos] at hget
    have hstep := PageStep.reserve (i := i) (s := s) (by omega) hx hnum
    unfold reserve_pages
    rw [hget]
    exact ih (hstep.good h) (by omega)

theorem ftlStep_returns (op : FtlOp g) (h : Good g s a)
    (hle : a + op.pages g ≤ g.total_num_of_pages) : ∃ s', ftlStep s op = some s' := by
  cases op with
  | make_new_mapping lpn =>
    have hpos := g.total_num_of_planes_pos
    obtain ⟨x, -, -, hget⟩ := get_free_ppa_spec h.cursors h.free hle (g.total_num_of_planes - 1)
    rw [Nat.sub_add_cancel hpos] at hget
    exact ⟨_, by unfold ftlStep make_new_mapping; rw [hget]; rfl⟩
  | store_mapping_tables =>
    unfold ftlStep store_mapping_tables
    rw [h.rpp]
    exact reserve_pages_returns h hle

/-- A run returns exactly when the device has the pages that it takes. -/
theorem a_run_returns_while_pages_are_left (ops : List (FtlOp g)) :
    (∃ s, run ftlStep (initialize_ftl g) ops = some s) ↔ pagesTaken ops ≤ g.total_num_of_pages := by
  constructor
  · rintro ⟨s, hs⟩
    exact (run_good hs).le
  · intro hle
    induction ops using List.reverseRecOn with
    | nil => exact ⟨_, rfl⟩
    | append_singleton ops op ih =>
      unfold pagesTaken at hle ih
      simp only [List.map_append, List.sum_append, List.map_cons, List.map_nil, List.sum_cons,
        List.sum_nil] at hle
      obtain ⟨t, ht⟩ := ih (by omega)
      obtain ⟨u, hu⟩ := ftlStep_returns op (run_good ht) (by unfold pagesTaken; omega)
      exact ⟨u, run_snoc_eq_some.mpr ⟨t, ht, hu⟩⟩

end Keeps

end S4Sim
