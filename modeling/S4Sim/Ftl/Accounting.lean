-- The page counters of the FTL against the words of ppa_table. Every mapping
-- keeps them right. `store_mapping_tables` takes pages and leaves the counters
-- wrong: it takes 1 from a valid counter that never counted the page, and the
-- counters of the device keep the pages as free.
import S4Sim.Ftl.PageSteps
import S4Sim.Lib.Tally

open Runs Tally

namespace S4Sim

/-! ## Counting the words of ppa_table -/

namespace Geometry

variable (g : Geometry)

/-- The blocks of the device. -/
def blocks : Finset Pba :=
  (Finset.range g.nand_num_chn ×ˢ Finset.range g.dies_per_channel ×ˢ
    Finset.range g.nand_planes_per_die ×ˢ Finset.range g.nand_blocks_per_plane).image
    fun q => ⟨q.1, q.2.1, q.2.2.1, q.2.2.2⟩

theorem mem_blocks {b : Pba} : b ∈ g.blocks ↔ g.HasBlock b := by
  unfold blocks HasBlock
  simp only [Finset.mem_image, Finset.mem_product, Finset.mem_range, Prod.exists]
  constructor
  · rintro ⟨c, d, p, k, h, rfl⟩
    exact h
  · intro h
    exact ⟨b.chn, b.die, b.plane, b.block, h, rfl⟩

theorem card_blocks : g.blocks.card = g.total_num_of_block := by
  unfold blocks
  rw [Finset.card_image_of_injective]
  · simp only [Finset.card_product, Finset.card_range]
    unfold total_num_of_block
    rw [total_num_of_planes_eq]
    ring
  · rintro ⟨c, d, p, k⟩ ⟨c', d', p', k'⟩ h
    simp_all

end Geometry

def isFree (w : Nat) : Bool := w == FREE_PPA

def isInvalid (w : Nat) : Bool := w == INVALID_PPA

/-- The page is mapped, or it is reserved. -/
def isUsed (w : Nat) : Bool := isLpn w || w == RESERVED_PPA

/-- The pages of a block whose word meets the test. -/
def Ftl.pagesWith (g : Geometry) (s : Ftl) (P : Nat → Bool) (b : Pba) : Nat :=
  tally (Finset.range g.nand_pages_per_block) (fun page => s.ppa_table (b.pageOf page)) P

/-- The pages of the device whose word meets the test. -/
def Ftl.devicePagesWith (g : Geometry) (s : Ftl) (P : Nat → Bool) : Nat :=
  ∑ b ∈ g.blocks, s.pagesWith g P b

/-- The counters of the blocks and of the device agree with `ppa_table`. -/
structure Accounting (g : Geometry) (s : Ftl) : Prop where
  invalid_pgs : ∀ b, g.HasBlock b → (s.blk_table b).invalid_pgs = s.pagesWith g isInvalid b
  valid_pgs : ∀ b, g.HasBlock b → (s.blk_table b).valid_pgs = s.pagesWith g isUsed b
  free_pgs : ∀ b, g.HasBlock b → s.get_free_pages g b = s.pagesWith g isFree b
  total_invalid : s.ftl_config.total_invalid_pages = ∑ b ∈ g.blocks, (s.blk_table b).invalid_pgs
  total_valid : s.ftl_config.total_valid_pages = ∑ b ∈ g.blocks, (s.blk_table b).valid_pgs
  total_free : s.ftl_config.total_free_pages = s.devicePagesWith g isFree
  adds_up : s.ftl_config.total_valid_pages + s.ftl_config.total_invalid_pages +
    s.ftl_config.total_free_pages = s.ftl_config.total_pages

section Words

variable {g : Geometry} {s s' : Ftl} {x : Ppa} {v : Nat} {P : Nat → Bool}

theorem pagesWith_le (b : Pba) : s.pagesWith g P b ≤ g.nand_pages_per_block :=
  (tally_le_card ..).trans (Finset.card_range _).le

theorem pageOf_ne {b : Pba} (h : b ≠ x.pba) (page : Nat) : b.pageOf page ≠ x := by
  rintro rfl
  exact h rfl

theorem pagesWith_other (hs : s'.ppa_table = Function.update s.ppa_table x v) {b : Pba}
    (h : b ≠ x.pba) : s'.pagesWith g P b = s.pagesWith g P b := by
  refine tally_congr fun page _ => ?_
  rw [hs, Function.update_of_ne (pageOf_ne h page)]

/-- One word changes, and with it the count of its block. -/
theorem pagesWith_update (hs : s'.ppa_table = Function.update s.ppa_table x v)
    (hx : g.HasPage x) :
    s'.pagesWith g P x.pba + (P (s.ppa_table x)).toNat =
      s.pagesWith g P x.pba + (P v).toNat := by
  have hwords : (fun page => s'.ppa_table (x.pba.pageOf page)) =
      Function.update (fun page => s.ppa_table (x.pba.pageOf page)) x.page v := by
    funext page
    by_cases h : page = x.page
    · subst h
      rw [hs, Ppa.pageOf_pba, Function.update_self, Function.update_self]
    · have hne : x.pba.pageOf page ≠ x := fun he => h (congrArg Ppa.page he)
      rw [hs, Function.update_of_ne hne, Function.update_of_ne h]
  unfold Ftl.pagesWith
  rw [hwords]
  exact tally_update P v (Finset.mem_range.mpr hx.2.2.2.2)

theorem devicePagesWith_update (hs : s'.ppa_table = Function.update s.ppa_table x v)
    (hx : g.HasPage x) :
    s'.devicePagesWith g P + (P (s.ppa_table x)).toNat =
      s.devicePagesWith g P + (P v).toNat :=
  sum_update_one (g.mem_blocks.mpr hx.hasBlock) (fun _ h => pagesWith_other hs h)
    (pagesWith_update hs hx)

theorem invalid_tests :
    isFree INVALID_PPA = false ∧ isInvalid INVALID_PPA = true ∧ isUsed INVALID_PPA = false := by
  decide

theorem free_tests :
    isFree FREE_PPA = true ∧ isInvalid FREE_PPA = false ∧ isUsed FREE_PPA = false := by
  decide

theorem isUsed_lpn {w : Nat} (h : w < g.total_num_of_pages) :
    isFree w = false ∧ isInvalid w = false ∧ isUsed w = true := by
  obtain ⟨h1, h2, -⟩ := g.lpn_ne h
  exact ⟨by simpa [isFree], by simpa [isInvalid], by simp [isUsed, g.isLpn_of_lt_total h]⟩

/-- A good word meets exactly one of the tests. -/
theorem GoodWord.one_test {w : Nat} (h : GoodWord g w) :
    (isUsed w).toNat + (isInvalid w).toNat + (isFree w).toNat = 1 := by
  rcases h with rfl | rfl | rfl | h
  · decide
  · decide
  · decide
  · obtain ⟨h1, h2, h3⟩ := isUsed_lpn h
    simp [h1, h2, h3]

theorem pagesWith_total {a : Nat} (h : Good g s a) {b : Pba} (hb : g.HasBlock b) :
    s.pagesWith g isUsed b + s.pagesWith g isInvalid b + s.pagesWith g isFree b =
      g.nand_pages_per_block := by
  unfold Ftl.pagesWith
  rw [tally_add_tally_add_tally, Finset.card_range]
  exact fun page hp => (h.words _ (hb.hasPage (Finset.mem_range.mp hp))).one_test

theorem devicePagesWith_total {a : Nat} (h : Good g s a) :
    s.devicePagesWith g isUsed + s.devicePagesWith g isInvalid + s.devicePagesWith g isFree =
      g.total_num_of_pages := by
  unfold Ftl.devicePagesWith
  rw [← Finset.sum_add_distrib, ← Finset.sum_add_distrib,
    Finset.sum_const_nat fun b hb => pagesWith_total h (g.mem_blocks.mp hb), g.card_blocks]
  rfl

end Words

/-! ## The counters after a mapping -/

/-- The counters of the blocks count their words. -/
def BlocksCounted (g : Geometry) (s : Ftl) : Prop :=
  ∀ b, g.HasBlock b → (s.blk_table b).invalid_pgs = s.pagesWith g isInvalid b ∧
    (s.blk_table b).valid_pgs = s.pagesWith g isUsed b

/-- The counters of the device count its words. -/
structure DeviceCounted (g : Geometry) (s : Ftl) : Prop where
  total_pages : s.ftl_config.total_pages = g.total_num_of_pages
  valid : s.ftl_config.total_valid_pages = s.devicePagesWith g isUsed
  invalid : s.ftl_config.total_invalid_pages = s.devicePagesWith g isInvalid
  free : s.ftl_config.total_free_pages = s.devicePagesWith g isFree

theorem accounting_of_counted {g : Geometry} {s : Ftl} {a : Nat} (h : Good g s a)
    (hb : BlocksCounted g s) (hd : DeviceCounted g s) : Accounting g s := by
  refine ⟨fun b hh => (hb b hh).1, fun b hh => (hb b hh).2, fun b hh => ?_, ?_, ?_, hd.free, ?_⟩
  · have htotal := pagesWith_total h hh
    unfold Ftl.get_free_pages
    rw [(hb b hh).1, (hb b hh).2]
    omega
  · rw [hd.invalid]
    exact Finset.sum_congr rfl fun b hh => ((hb b (g.mem_blocks.mp hh)).1).symm
  · rw [hd.valid]
    exact Finset.sum_congr rfl fun b hh => ((hb b (g.mem_blocks.mp hh)).2).symm
  · rw [hd.valid, hd.invalid, hd.free, hd.total_pages]
    exact devicePagesWith_total h

section Counters

variable {g : Geometry} {s : Ftl} {lpn : Nat} {x : Ppa}

theorem blk_table_invalidate (s : Ftl) (x : Ppa) :
    (((s.set_invalid_ppa x).inc_invalid_pages x).dec_valid_pages x).blk_table =
      Function.update s.blk_table x.pba
        ⟨((s.blk_table x.pba).invalid_pgs + 1) % 2 ^ 16,
          ((s.blk_table x.pba).valid_pgs + (2 ^ 16 - 1)) % 2 ^ 16⟩ := by
  simp [Ftl.set_invalid_ppa, Ftl.inc_invalid_pages, Ftl.dec_valid_pages, Ftl.setBlock]

theorem blk_table_map (s : Ftl) (lpn : Nat) (x : Ppa) :
    ((s.map_lpa_and_ppa lpn x).inc_valid_pages x).blk_table =
      Function.update s.blk_table x.pba
        { s.blk_table x.pba with valid_pgs := ((s.blk_table x.pba).valid_pgs + 1) % 2 ^ 16 } := by
  simp [Ftl.map_lpa_and_ppa, Ftl.set_mapped_ppa, Ftl.set_mapped_lpa, Ftl.inc_valid_pages,
    Ftl.setBlock]

/-- The word of a page changes. The other blocks keep their counters and their words, so the
counters of its own block decide. -/
theorem BlocksCounted.update {s' : Ftl} {v : Nat} {m : BlockMeta} (h : BlocksCounted g s)
    (hs : s'.ppa_table = Function.update s.ppa_table x v)
    (hblk : s'.blk_table = Function.update s.blk_table x.pba m)
    (hinv : m.invalid_pgs = s'.pagesWith g isInvalid x.pba)
    (hval : m.valid_pgs = s'.pagesWith g isUsed x.pba) : BlocksCounted g s' := by
  intro b hb
  rw [hblk]
  by_cases hbx : b = x.pba
  · rw [hbx, Function.update_self]
    exact ⟨hinv, hval⟩
  · rw [Function.update_of_ne hbx, pagesWith_other hs hbx, pagesWith_other hs hbx]
    exact h b hb

/-- The page of a mapped LPN becomes invalid: its block counted it as valid. -/
theorem blocksCounted_invalidate (h : BlocksCounted g s) (hx : g.HasPage x)
    (hlpn : s.ppa_table x < g.total_num_of_pages) :
    BlocksCounted g (((s.set_invalid_ppa x).inc_invalid_pages x).dec_valid_pages x) := by
  have hpages := g.pages_lt
  obtain ⟨-, hold, hused⟩ := isUsed_lpn hlpn
  obtain ⟨hinv, hval⟩ := h _ hx.hasBlock
  have hs : (((s.set_invalid_ppa x).inc_invalid_pages x).dec_valid_pages x).ppa_table =
      Function.update s.ppa_table x INVALID_PPA := rfl
  have h1 := pagesWith_update (P := isInvalid) hs hx
  have h2 := pagesWith_update (P := isUsed) hs hx
  have hle := pagesWith_le (g := g) (P := isInvalid)
    (s := ((s.set_invalid_ppa x).inc_invalid_pages x).dec_valid_pages x) x.pba
  have hle' := pagesWith_le (g := g) (P := isUsed) (s := s) x.pba
  rw [hold, invalid_tests.2.1] at h1
  rw [hused, invalid_tests.2.2] at h2
  simp only [Bool.toNat_true, Bool.toNat_false] at h1 h2
  apply h.update hs (blk_table_invalidate s x)
  · simp only [hinv]
    omega
  · simp only [hval]
    omega

/-- A free page gets an LPN: its block counts one valid page more. -/
theorem blocksCounted_map (h : BlocksCounted g s) (hx : g.HasPage x)
    (hfree : s.ppa_table x = FREE_PPA) (hlpn : lpn < g.total_num_of_pages) :
    BlocksCounted g ((s.map_lpa_and_ppa lpn x).inc_valid_pages x) := by
  have hpages := g.pages_lt
  obtain ⟨-, hnew, hused⟩ := isUsed_lpn hlpn
  obtain ⟨hinv, hval⟩ := h _ hx.hasBlock
  have hs : ((s.map_lpa_and_ppa lpn x).inc_valid_pages x).ppa_table =
      Function.update s.ppa_table x lpn := rfl
  have h1 := pagesWith_update (P := isInvalid) hs hx
  have h2 := pagesWith_update (P := isUsed) hs hx
  have hle := pagesWith_le (g := g) (P := isUsed)
    (s := (s.map_lpa_and_ppa lpn x).inc_valid_pages x) x.pba
  rw [hfree, hnew, free_tests.2.1] at h1
  rw [hfree, hused, free_tests.2.2] at h2
  simp only [Bool.toNat_true, Bool.toNat_false] at h1 h2
  apply h.update hs (blk_table_map s lpn x)
  · simp only [hinv]
    omega
  · simp only [hval]
    omega

theorem devicePages_invalidate {s' : Ftl}
    (hs : s'.ppa_table = Function.update s.ppa_table x INVALID_PPA) (hx : g.HasPage x)
    (hlpn : s.ppa_table x < g.total_num_of_pages) :
    s'.devicePagesWith g isUsed + 1 = s.devicePagesWith g isUsed ∧
      s'.devicePagesWith g isInvalid = s.devicePagesWith g isInvalid + 1 ∧
      s'.devicePagesWith g isFree = s.devicePagesWith g isFree := by
  obtain ⟨hf, hi, hu⟩ := isUsed_lpn hlpn
  have h1 := devicePagesWith_update (P := isUsed) hs hx
  have h2 := devicePagesWith_update (P := isInvalid) hs hx
  have h3 := devicePagesWith_update (P := isFree) hs hx
  rw [hu, invalid_tests.2.2] at h1
  rw [hi, invalid_tests.2.1] at h2
  rw [hf, invalid_tests.1] at h3
  simp only [Bool.toNat_true, Bool.toNat_false] at h1 h2 h3
  omega

theorem devicePages_map {s' : Ftl} (hs : s'.ppa_table = Function.update s.ppa_table x lpn)
    (hx : g.HasPage x) (hfree : s.ppa_table x = FREE_PPA) (hlpn : lpn < g.total_num_of_pages) :
    s'.devicePagesWith g isUsed = s.devicePagesWith g isUsed + 1 ∧
      s'.devicePagesWith g isInvalid = s.devicePagesWith g isInvalid ∧
      s'.devicePagesWith g isFree + 1 = s.devicePagesWith g isFree := by
  obtain ⟨hf, hi, hu⟩ := isUsed_lpn hlpn
  have h1 := devicePagesWith_update (P := isUsed) hs hx
  have h2 := devicePagesWith_update (P := isInvalid) hs hx
  have h3 := devicePagesWith_update (P := isFree) hs hx
  rw [hfree, hu, free_tests.2.2] at h1
  rw [hfree, hi, free_tests.2.1] at h2
  rw [hfree, hf, free_tests.1] at h3
  simp only [Bool.toNat_true, Bool.toNat_false] at h1 h2 h3
  omega

/-- A mapping keeps the counters right, for a new LPN and for a remapped one. -/
theorem counted_map_new_page {a : Nat} (h : Good g s a) (hx : g.HasPage x)
    (hnum : g.number x = a) (hlpn : lpn < g.total_num_of_pages) (hb : BlocksCounted g s)
    (hd : DeviceCounted g s) :
    BlocksCounted g (map_new_page lpn x (s.advance x)) ∧
      DeviceCounted g (map_new_page lpn x (s.advance x)) := by
  have hfree := h.word_free hx hnum
  have htotal := g.total_num_of_pages_le
  have hsum := devicePagesWith_total h
  obtain ⟨hpages, hvalid, hinvalid, hfreed⟩ := hd
  unfold map_new_page
  split
  · have hs : ((s.advance x).map_lpa_and_ppa lpn x).ppa_table =
        Function.update s.ppa_table x lpn := rfl
    obtain ⟨hu, hi, hf⟩ := devicePages_map hs hx hfree hlpn
    refine ⟨blocksCounted_map (s := s.advance x) hb hx hfree hlpn, hpages, ?_, ?_, ?_⟩
    · refine Eq.trans ?_ hu.symm
      show (s.ftl_config.total_valid_pages + 1) % 2 ^ 32 = _
      omega
    · exact hinvalid.trans hi.symm
    · show (s.ftl_config.total_free_pages + (2 ^ 32 - 1)) % 2 ^ 32 =
        ((s.advance x).map_lpa_and_ppa lpn x).devicePagesWith g isFree
      omega
  · rename_i hm
    have hm' : s.is_unmapped_lpa lpn = false := Bool.eq_false_of_not_eq_true hm
    obtain ⟨hcur, hword⟩ := h.inverse.mapped lpn hlpn hm'
    have hne := h.mapped_ne hx hnum hlpn hm'
    have hlt : s.ppa_table (s.lpa_table lpn) < g.total_num_of_pages := hword.symm ▸ hlpn
    simp only [Ftl.advance_lpa_table]
    generalize hs1 : (((s.advance x).set_invalid_ppa (s.lpa_table lpn)).inc_invalid_pages
      (s.lpa_table lpn)).dec_valid_pages (s.lpa_table lpn) = s1
    have hs1p : s1.ppa_table = Function.update s.ppa_table (s.lpa_table lpn) INVALID_PPA :=
      hs1 ▸ rfl
    have hs1c : s1.ftl_config = (s.advance x).ftl_config := hs1 ▸ rfl
    have hs1b : BlocksCounted g s1 := hs1 ▸ blocksCounted_invalidate (s := s.advance x) hb hcur hlt
    have hs1f : s1.ppa_table x = FREE_PPA := by
      rw [hs1p, Function.update_of_ne hne.symm, hfree]
    obtain ⟨hu, hi, hf⟩ := devicePages_invalidate hs1p hcur hlt
    have hs2 : (s1.map_lpa_and_ppa lpn x).ppa_table = Function.update s1.ppa_table x lpn := rfl
    obtain ⟨hu', hi', hf'⟩ := devicePages_map hs2 hx hs1f hlpn
    refine ⟨blocksCounted_map hs1b hx hs1f hlpn, ?_, ?_, ?_, ?_⟩
    · show s1.ftl_config.total_pages = _
      rw [hs1c]
      exact hpages
    · show s1.ftl_config.total_valid_pages = (s1.map_lpa_and_ppa lpn x).devicePagesWith g isUsed
      rw [hs1c]
      show s.ftl_config.total_valid_pages = _
      omega
    · show (s1.ftl_config.total_invalid_pages + 1) % 2 ^ 32 =
        (s1.map_lpa_and_ppa lpn x).devicePagesWith g isInvalid
      rw [hs1c]
      show (s.ftl_config.total_invalid_pages + 1) % 2 ^ 32 = _
      omega
    · show (s1.ftl_config.total_free_pages + (2 ^ 32 - 1)) % 2 ^ 32 =
        (s1.map_lpa_and_ppa lpn x).devicePagesWith g isFree
      rw [hs1c]
      show (s.ftl_config.total_free_pages + (2 ^ 32 - 1)) % 2 ^ 32 = _
      omega

end Counters

/-! ## The counters after initialize_ftl -/

theorem pagesWith_generated (g : Geometry) (P : Nat → Bool) (b : Pba) :
    generated_tables.pagesWith g P b = if P FREE_PPA then g.nand_pages_per_block else 0 := by
  unfold Ftl.pagesWith generated_tables
  rw [tally_const, Finset.card_range]

theorem devicePagesWith_generated (g : Geometry) (P : Nat → Bool) :
    generated_tables.devicePagesWith g P = if P FREE_PPA then g.total_num_of_pages else 0 := by
  unfold Ftl.devicePagesWith
  rw [Finset.sum_const_nat fun b _ => pagesWith_generated g P b, g.card_blocks]
  split
  · rfl
  · rfl

theorem initialize_ftl_ppa_table (g : Geometry) :
    (initialize_ftl g).ppa_table =
      Function.update generated_tables.ppa_table first_page RESERVED_PPA := rfl

theorem counted_initialize_ftl (g : Geometry) :
    BlocksCounted g (initialize_ftl g) ∧ DeviceCounted g (initialize_ftl g) := by
  have hx := first_page_hasPage g
  have hs := initialize_ftl_ppa_table g
  have hfree : generated_tables.ppa_table first_page = FREE_PPA := rfl
  constructor
  · intro b hb
    have hblk : (initialize_ftl g).blk_table =
        Function.update generated_tables.blk_table first_page.pba ⟨0, 1⟩ := rfl
    rw [hblk]
    by_cases hbx : b = first_page.pba
    · subst hbx
      have h1 := pagesWith_update (P := isInvalid) hs hx
      have h2 := pagesWith_update (P := isUsed) hs hx
      rw [hfree, pagesWith_generated] at h1 h2
      simp only [Function.update_self]
      simp [isInvalid, isUsed, isLpn, FREE_PPA, INVALID_PPA, RESERVED_PPA] at h1 h2
      omega
    · rw [Function.update_of_ne hbx, pagesWith_other hs hbx, pagesWith_other hs hbx,
        pagesWith_generated, pagesWith_generated]
      exact ⟨rfl, rfl⟩
  · have h1 := devicePagesWith_update (P := isUsed) hs hx
    have h2 := devicePagesWith_update (P := isInvalid) hs hx
    have h3 := devicePagesWith_update (P := isFree) hs hx
    rw [hfree, devicePagesWith_generated] at h1 h2 h3
    simp [isInvalid, isUsed, isFree, isLpn, FREE_PPA, INVALID_PPA, RESERVED_PPA] at h1 h2 h3
    refine ⟨rfl, ?_, ?_, ?_⟩
    · exact h1.symm
    · exact h2.symm
    · show g.total_num_of_pages - 1 = _
      omega

/-! ## The free pages of a run -/

section FreePages

variable {g : Geometry} {s : Ftl} {a i : Nat} {x : Ppa}

/-- Each page step takes one free page. -/
theorem freePages_step {p q : Ftl × Nat} (hstep : PageStep g p q) (h : Good g p.1 p.2) :
    q.1.devicePagesWith g isFree + 1 = p.1.devicePagesWith g isFree := by
  cases hstep with
  | @reserve s a i x ha hx hnum =>
    have hs : (reserve_page i x (s.advance x)).ppa_table =
        Function.update s.ppa_table x INVALID_PPA := rfl
    have hfree := devicePagesWith_update (P := isFree) hs hx
    rw [h.word_free hx hnum] at hfree
    exact hfree
  | @map s a lpn x ha hx hnum hlpn =>
    have hword := h.word_free hx hnum
    show (map_new_page lpn x (s.advance x)).devicePagesWith g isFree + 1 = _
    unfold map_new_page
    split
    · have hs : ((s.advance x).map_lpa_and_ppa lpn x).ppa_table =
          Function.update s.ppa_table x lpn := rfl
      exact (devicePages_map hs hx hword hlpn).2.2
    · rename_i hm
      have hm' : s.is_unmapped_lpa lpn = false := Bool.eq_false_of_not_eq_true hm
      obtain ⟨hcur, hw⟩ := h.inverse.mapped lpn hlpn hm'
      have hne := h.mapped_ne hx hnum hlpn hm'
      have hs1 : ((s.advance x).set_invalid_ppa (s.lpa_table lpn)).ppa_table =
          Function.update s.ppa_table (s.lpa_table lpn) INVALID_PPA := rfl
      have hs2 :
          (((s.advance x).set_invalid_ppa (s.lpa_table lpn)).map_lpa_and_ppa lpn x).ppa_table =
          Function.update ((s.advance x).set_invalid_ppa (s.lpa_table lpn)).ppa_table x lpn := rfl
      have hf1 := (devicePages_invalidate hs1 hcur (hw.symm ▸ hlpn)).2.2
      have hf2 := (devicePages_map hs2 hx
        (by rw [hs1, Function.update_of_ne hne.symm, hword]) hlpn).2.2
      exact hf2.trans hf1

/-- The free pages and the pages taken are all pages. -/
theorem freePages_steps {p q : Ftl × Nat} (h : Relation.ReflTransGen (PageStep g) p q)
    (hp : Good g p.1 p.2)
    (hsum : p.1.devicePagesWith g isFree + p.2 = g.total_num_of_pages) :
    q.1.devicePagesWith g isFree + q.2 = g.total_num_of_pages := by
  induction h with
  | refl => exact hsum
  | @tail p' q' hpre hstep ih =>
    have hone := freePages_step hstep (good_pages hp hpre)
    have hnext : q'.2 = p'.2 + 1 := by
      cases hstep <;> rfl
    omega

theorem run_freePages {ops : List (FtlOp g)} (h : run ftlStep (initialize_ftl g) ops = some s) :
    s.devicePagesWith g isFree + pagesTaken ops = g.total_num_of_pages := by
  have hsteps := run_pages (p := (initialize_ftl g, 1)) (good_initialize_ftl g) h
  have hfree := (counted_initialize_ftl g).2.free
  have hpos := g.total_num_of_pages_pos
  have hinit : (initialize_ftl g).ftl_config.total_free_pages = g.total_num_of_pages - 1 := rfl
  have hsum : (initialize_ftl g).devicePagesWith g isFree + 1 = g.total_num_of_pages := by omega
  have hlast := freePages_steps hsteps (good_initialize_ftl g) hsum
  exact hlast

/-! ## total_free_pages counts the mappings only -/

def FtlOp.isMap : FtlOp g → Bool
  | .make_new_mapping _ => true
  | .store_mapping_tables => false

/-- The pages of a run: the first page, the mappings, and those of each store. -/
theorem pagesTaken_eq (ops : List (FtlOp g)) :
    pagesTaken ops = 1 + ops.countP FtlOp.isMap +
      (g.mapping_table_bytes / g.nandPageBytes + 1) * ops.countP fun op => !op.isMap := by
  unfold pagesTaken
  rw [Nat.add_assoc]
  congr 1
  induction ops with
  | nil => rfl
  | cons op ops ih =>
    rw [List.map_cons, List.sum_cons, ih, List.countP_cons, List.countP_cons]
    cases op with
    | make_new_mapping lpn =>
      simp only [FtlOp.isMap, FtlOp.pages]
      simp
      omega
    | store_mapping_tables =>
      simp only [FtlOp.isMap, FtlOp.pages]
      simp [Nat.mul_add]
      omega

theorem map_new_page_total_free (lpn : Nat) (x : Ppa) (s : Ftl) :
    (map_new_page lpn x s).ftl_config.total_free_pages =
      (s.ftl_config.total_free_pages + (2 ^ 32 - 1)) % 2 ^ 32 := by
  unfold map_new_page
  split <;> rfl

theorem reserve_pages_total_free {n : Nat} {s' : Ftl} (h : Good g s a)
    (hr : reserve_pages g s i n = some s') :
    s'.ftl_config.total_free_pages = s.ftl_config.total_free_pages := by
  induction n generalizing s a i with
  | zero =>
    cases hr
    rfl
  | succ n ih =>
    obtain ⟨x, -, -, -, hgood, hrest⟩ := reserve_pages_cases h hr
    exact (ih hgood hrest).trans rfl

theorem run_total_free {ops : List (FtlOp g)} (h : run ftlStep (initialize_ftl g) ops = some s) :
    s.ftl_config.total_free_pages + 1 + ops.countP FtlOp.isMap = g.total_num_of_pages := by
  refine run_invariant (I := fun ops s => s.ftl_config.total_free_pages + 1 +
    ops.countP FtlOp.isMap = g.total_num_of_pages) ?_ ?_ h
  · have hpos := g.total_num_of_pages_pos
    show g.total_num_of_pages - 1 + 1 + 0 = _
    omega
  · intro acts t op u ht hI hop
    have hgood := run_good ht
    rw [List.countP_append]
    cases op with
    | make_new_mapping lpn =>
      obtain ⟨x, ha, hx, hnum, rfl⟩ := ftlStep_map_cases hgood hop
      have htotal := g.total_num_of_pages_le
      have hmaps := pagesTaken_eq acts
      rw [map_new_page_total_free]
      show (t.ftl_config.total_free_pages + (2 ^ 32 - 1)) % 2 ^ 32 + 1 +
        (acts.countP FtlOp.isMap + 1) = _
      omega
    | store_mapping_tables =>
      unfold ftlStep store_mapping_tables at hop
      rw [reserve_pages_total_free hgood hop]
      exact hI

/-! ## The law -/

theorem counted_run {ops : List (FtlOp g)} (hops : ∀ op ∈ ops, op ≠ .store_mapping_tables)
    (h : run ftlStep (initialize_ftl g) ops = some s) : BlocksCounted g s ∧ DeviceCounted g s := by
  refine run_invariant (I := fun ops s => (∀ op ∈ ops, op ≠ .store_mapping_tables) →
    BlocksCounted g s ∧ DeviceCounted g s) (fun _ => counted_initialize_ftl g) ?_ h hops
  intro acts t op u ht hI hop hall
  obtain ⟨hb, hd⟩ := hI fun o ho => hall o (List.mem_append_left _ ho)
  cases op with
  | make_new_mapping lpn =>
    obtain ⟨x, -, hx, hnum, rfl⟩ := ftlStep_map_cases (run_good ht) hop
    exact counted_map_new_page (run_good ht) hx hnum lpn.isLt hb hd
  | store_mapping_tables => exact absurd rfl (hall _ (by simp))

/-- The counters agree with `ppa_table` after a run exactly when the run has no
`store_mapping_tables`. -/
theorem the_accounting_holds_without_a_store {ops : List (FtlOp g)}
    (h : run ftlStep (initialize_ftl g) ops = some s) :
    Accounting g s ↔ ∀ op ∈ ops, op ≠ .store_mapping_tables := by
  constructor
  · intro hacc op hop hstore
    -- The counter of the free pages has not seen the pages of the store.
    have hfree := run_freePages h
    have htotal := run_total_free h
    have hpages := pagesTaken_eq ops
    have hmem : 0 < ops.countP fun op => !op.isMap :=
      List.countP_pos_iff.mpr ⟨op, hop, by rw [hstore]; rfl⟩
    have hstored := Nat.mul_pos (Nat.succ_pos (g.mapping_table_bytes / g.nandPageBytes)) hmem
    have hcount := hacc.total_free
    rw [Nat.succ_eq_add_one] at hstored
    generalize (g.mapping_table_bytes / g.nandPageBytes + 1) * _ = stored at hpages hstored
    omega
  · intro hops
    obtain ⟨hb, hd⟩ := counted_run hops h
    exact accounting_of_counted (run_good h) hb hd

/-- Three LPNs are mapped, and two of them once more. -/
theorem the_accounting_holds_after_maps_and_remaps :
    ∃ s, run ftlStep (initialize_ftl twoChannels) ([0, 1, 0, 2, 1].map fun i =>
        .make_new_mapping (g := twoChannels) (Fin.ofNat 12 i)) = some s ∧
      Accounting twoChannels s := by
  obtain ⟨s, hs⟩ := (a_run_returns_while_pages_are_left ([0, 1, 0, 2, 1].map fun i =>
    .make_new_mapping (g := twoChannels) (Fin.ofNat 12 i))).mpr (by decide)
  exact ⟨s, hs, (the_accounting_holds_without_a_store hs).mpr (by simp)⟩

/-- One store leaves 65535 valid pages in the block of its first page. -/
theorem a_store_breaks_the_accounting :
    ¬ ∀ (ops : List (FtlOp twoChannels)) (s : Ftl),
      run ftlStep (initialize_ftl twoChannels) ops = some s → Accounting twoChannels s := by
  intro hall
  obtain ⟨s, hs⟩ := (a_run_returns_while_pages_are_left (g := twoChannels)
    [.store_mapping_tables]).mpr (by decide)
  have hvalid := (hall _ s hs).valid_pgs ⟨1, 0, 0, 0⟩ (by decide)
  have hle := pagesWith_le (g := twoChannels) (s := s) (P := isUsed) ⟨1, 0, 0, 0⟩
  have hwrap : (s.blk_table ⟨1, 0, 0, 0⟩).valid_pgs = 65535 := by
    cases hs
    rfl
  rw [hwrap] at hvalid
  rw [← hvalid] at hle
  exact absurd hle (by decide)

end FreePages

end S4Sim
