-- The bytes of the tables. The section `mapping_tables` holds the four arrays of the tables
-- where the linker puts them. What a store has saved is decoded to the tables and to
-- `ftl_config` as they were.
import S4Sim.Ftl.Capacity
import S4Sim.Lib.Arrays
import Mathlib.Data.List.GetD

open Arrays Digits LittleEndian Relation Runs Windows

namespace S4Sim

/-! ## The places in the arrays -/

namespace Geometry

variable (g : Geometry)

/-- The entry of a plane in an array `[NUM_CHANNELS][DIES_PER_CHANNEL][PLANES_PER_DIE]`. -/
def flashPlane (p : Plane) : Nat :=
  g.nand_planes_per_die * (g.dies_per_channel * p.chn + p.die) + p.plane

/-- The entry of a block, with `[BLOCKS_PER_PLANE]` behind. -/
def flashBlock (b : Pba) : Nat :=
  g.nand_blocks_per_plane * g.flashPlane ⟨b.chn, b.die, b.plane⟩ + b.block

def planeAt (n : Nat) : Plane where
  chn := n / g.nand_planes_per_die / g.dies_per_channel
  die := n / g.nand_planes_per_die % g.dies_per_channel
  plane := n % g.nand_planes_per_die

def blockAt (n : Nat) : Pba :=
  let p := g.planeAt (n / g.nand_blocks_per_plane)
  ⟨p.chn, p.die, p.plane, n % g.nand_blocks_per_plane⟩

def pageAt (n : Nat) : Ppa := (g.blockAt (n / g.nand_pages_per_block)).pageOf
  (n % g.nand_pages_per_block)

variable {g}

theorem planeAt_flashPlane {p : Plane} (h : g.HasPlane p) : g.planeAt (g.flashPlane p) = p := by
  obtain ⟨-, hdie, hplane⟩ := h
  unfold planeAt flashPlane
  rw [digits_div hplane, digits_mod hplane, digits_div hdie, digits_mod hdie]

theorem HasBlock.hasPlane {b : Pba} (h : g.HasBlock b) : g.HasPlane ⟨b.chn, b.die, b.plane⟩ :=
  ⟨h.1, h.2.1, h.2.2.1⟩

theorem blockAt_flashBlock {b : Pba} (h : g.HasBlock b) : g.blockAt (g.flashBlock b) = b := by
  have hblock := h.2.2.2
  unfold blockAt flashBlock
  rw [digits_div hblock, digits_mod hblock, planeAt_flashPlane h.hasPlane]

theorem flashPage_eq (x : Ppa) :
    g.flashPage x = g.nand_pages_per_block * g.flashBlock x.pba + x.page := by
  unfold flashPage offset flashBlock flashPlane pages_per_plane Ppa.pba
  ring

theorem pageAt_flashPage {x : Ppa} (h : g.HasPage x) : g.pageAt (g.flashPage x) = x := by
  rw [flashPage_eq]
  unfold pageAt
  rw [digits_div h.2.2.2.2, digits_mod h.2.2.2.2, blockAt_flashBlock h.hasBlock]
  rfl

theorem flashPlane_lt {p : Plane} (h : g.HasPlane p) :
    g.flashPlane p < g.total_num_of_planes := by
  obtain ⟨hchn, hdie, hplane⟩ := h
  have hrow := (digits_lt_iff (m := g.nand_num_chn) hdie).mpr hchn
  have hlt := (digits_lt_iff (m := g.dies_per_channel * g.nand_num_chn) hplane).mpr hrow
  unfold flashPlane
  refine hlt.trans_eq ?_
  rw [total_num_of_planes_eq]
  ring

theorem flashBlock_lt {b : Pba} (h : g.HasBlock b) : g.flashBlock b < g.total_num_of_block := by
  have hlt := (digits_lt_iff (m := g.total_num_of_planes) h.2.2.2).mpr (flashPlane_lt h.hasPlane)
  unfold flashBlock total_num_of_block
  rw [Nat.mul_comm g.total_num_of_planes]
  exact hlt

theorem flashPage_lt {x : Ppa} (h : g.HasPage x) : g.flashPage x < g.total_num_of_pages := by
  have hlt := (digits_lt_iff (m := g.total_num_of_block) h.2.2.2.2).mpr (flashBlock_lt h.hasBlock)
  rw [flashPage_eq]
  unfold total_num_of_pages
  rw [Nat.mul_comm g.total_num_of_block]
  exact hlt

end Geometry

/-! ## The section of the tables -/

/-- The bytes of a `block_meta_t`. The erase count stays 0. -/
def BlockMeta.byte (m : BlockMeta) : Nat → UInt8
  | 0 => byteOf m.invalid_pgs 0
  | 1 => byteOf m.invalid_pgs 1
  | 2 => byteOf m.valid_pgs 0
  | 3 => byteOf m.valid_pgs 1
  | _ => 0

/-- The `block_meta_t` at an address. -/
def blockMetaAt (m : Nat → UInt8) (addr : Nat) : BlockMeta :=
  ⟨wordAt m addr 2, wordAt m (addr + 2) 2⟩

/-- Where the linker puts the arrays, from `_mapping_table_start_` on. -/
structure Offsets where
  lpa_table : Nat
  ppa_table : Nat
  blk_table : Nat
  last_page_per_plane : Nat

/-- The four arrays, with the bytes of their entries. -/
def sectionTables (g : Geometry) (o : Offsets) (s : Ftl) : List (Table UInt8) :=
  [⟨o.lpa_table, 8, g.total_num_of_pages, fun lpn => (s.lpa_table lpn).byte⟩,
    ⟨o.ppa_table, 4, g.total_num_of_pages, fun n => byteOf (s.ppa_table (g.pageAt n))⟩,
    ⟨o.blk_table, 8, g.total_num_of_block, fun n => (s.blk_table (g.blockAt n)).byte⟩,
    ⟨o.last_page_per_plane, 8, g.total_num_of_planes,
      fun n => (s.last_page_per_plane (g.planeAt n)).byte⟩]

/-- A link of the section: the arrays are apart, and inside the section. -/
structure Layout (g : Geometry) where
  offsets : Offsets
  padding : Nat → UInt8
  apart : ∀ s, (sectionTables g offsets s).Pairwise Table.Apart
  inside : ∀ s, ∀ a ∈ sectionTables g offsets s, a.base + a.size * a.count ≤ g.mapping_table_bytes

namespace Layout

variable {g : Geometry} (L : Layout g)

/-- The bytes of the section. -/
def bytes (s : Ftl) : Nat → UInt8 := memory L.padding (sectionTables g L.offsets s)

/-- The tables in the bytes of the section. What is outside the arrays is as on new media. -/
def tablesIn (m : Nat → UInt8) (ftl_config : FtlConfig) : Ftl where
  lpa_table lpn :=
    if lpn < g.total_num_of_pages then ppaAt m (L.offsets.lpa_table + 8 * lpn)
    else ⟨0xFF, 0, 0, 0, 0⟩
  ppa_table x :=
    if g.HasPage x then wordAt m (L.offsets.ppa_table + 4 * g.flashPage x) 4 else FREE_PPA
  blk_table b :=
    if g.HasBlock b then blockMetaAt m (L.offsets.blk_table + 8 * g.flashBlock b) else ⟨0, 0⟩
  last_page_per_plane p :=
    if g.HasPlane p then ppaAt m (L.offsets.last_page_per_plane + 8 * g.flashPlane p)
    else ⟨p.chn, p.die, p.plane, 0, 0⟩
  last_searched_channel := ftl_config.last_selected_ppa
  ftl_config

end Layout

/-- The configuration in the bytes of `ftl_config`. -/
def configIn (m : Nat → UInt8) : FtlConfig where
  nand_ds := wordAt m 0 4
  host_ds := wordAt m 4 4
  pages_per_block := wordAt m 8 4
  total_pages := wordAt m 12 4
  rpp_ovp := wordAt m 16 4
  rpp_map_tables := wordAt m 20 4
  total_rpp := wordAt m 24 4
  total_logical_pages := wordAt m 28 4
  total_invalid_pages := wordAt m 32 4
  total_valid_pages := wordAt m 36 4
  total_free_pages := wordAt m 40 4
  last_selected_ppa := ppaAt m 44
  mapping_tables i := if i < MAPPING_TABLES_ENTRIES then mappingTablesIn m i else ⟨0, 0, 0, 0, 0⟩

/-- The tables after `initialize_ftl` with what the flash holds. -/
def power_on {g : Geometry} (L : Layout g) (flash : Nat → Nat → UInt8) (r : FtlRam) : Ftl :=
  match load_media g flash r with
  | none => initialize_ftl g
  | some r => L.tablesIn r.tables (configIn r.config)

/-! ## Tables that fit their bytes -/

/-- The fields have the bits of `ppa_t`. -/
structure Ppa.Fits (x : Ppa) : Prop where
  chn : x.chn < 256
  die : x.die < 256
  plane : x.plane < 256
  block : x.block < 65536
  page : x.page < 65536

instance Ppa.decidableFits (x : Ppa) : Decidable x.Fits :=
  decidable_of_iff (x.chn < 256 ∧ x.die < 256 ∧ x.plane < 256 ∧ x.block < 65536 ∧ x.page < 65536)
    ⟨fun ⟨h1, h2, h3, h4, h5⟩ => ⟨h1, h2, h3, h4, h5⟩, fun ⟨h1, h2, h3, h4, h5⟩ =>
      ⟨h1, h2, h3, h4, h5⟩⟩

structure FtlConfig.Fits (c : FtlConfig) : Prop where
  words : ∀ w ∈ c.words, w < 2 ^ 32
  last_selected_ppa : c.last_selected_ppa.Fits
  mapping_tables : ∀ i, (c.mapping_tables i).Fits
  unused : ∀ i, MAPPING_TABLES_ENTRIES ≤ i → c.mapping_tables i = ⟨0, 0, 0, 0, 0⟩

/-- Each entry has the bits of its type, and what is outside the arrays is as on new media. -/
structure Encodable (g : Geometry) (s : Ftl) : Prop where
  lpa_table : ∀ lpn, (s.lpa_table lpn).Fits
  unmapped : ∀ lpn, g.total_num_of_pages ≤ lpn → s.lpa_table lpn = ⟨0xFF, 0, 0, 0, 0⟩
  ppa_table : ∀ x, s.ppa_table x < 2 ^ 32
  free : ∀ x, ¬ g.HasPage x → s.ppa_table x = FREE_PPA
  blk_table : ∀ b, (s.blk_table b).invalid_pgs < 2 ^ 16 ∧ (s.blk_table b).valid_pgs < 2 ^ 16
  empty : ∀ b, ¬ g.HasBlock b → s.blk_table b = ⟨0, 0⟩
  last_page_per_plane : ∀ p, g.HasPlane p → (s.last_page_per_plane p).Fits
  start : ∀ p, ¬ g.HasPlane p → s.last_page_per_plane p = ⟨p.chn, p.die, p.plane, 0, 0⟩
  ftl_config : s.ftl_config.Fits

section Decode

variable {g : Geometry} {L : Layout g} {s : Ftl} {x : Ppa} {m : Nat → UInt8} {addr : Nat}

theorem Geometry.HasPage.fits (h : g.HasPage x) : x.Fits := by
  have hchn := g.chn_le
  have hdies : g.dies_per_channel ≤ 256 := g.dies_le
  have hplanes := g.planes_le
  have hblocks := g.blocks_lt
  have hpages := g.pages_lt
  obtain ⟨h1, h2, h3, h4, h5⟩ := h
  exact ⟨by omega, by omega, by omega, by omega, by omega⟩

theorem fits_ppaAt (m : Nat → UInt8) (addr : Nat) : (ppaAt m addr).Fits :=
  ⟨wordAt_lt (n := 1), wordAt_lt (n := 1), wordAt_lt (n := 1), wordAt_lt (n := 2),
    wordAt_lt (n := 2)⟩

/-- A `ppa_t` is read as it was written. -/
theorem ppaAt_of_fits (hx : x.Fits) (h : ∀ i < 8, m (addr + i) = x.byte i) : ppaAt m addr = x := by
  have hbyte : ∀ k < 8, ∀ w, x.byte k = byteOf w 0 → w < 256 → wordAt m (addr + k) 1 = w := by
    intro k hk w hw hlt
    refine wordAt_eq (fun i hi => ?_) (by simpa using hlt)
    obtain rfl : i = 0 := by omega
    rw [Nat.add_zero, h k hk, hw]
  have hhalf : ∀ k, k + 1 < 8 → ∀ w, x.byte k = byteOf w 0 → x.byte (k + 1) = byteOf w 1 →
      w < 65536 → wordAt m (addr + k) 2 = w := by
    intro k hk w h0 h1 hlt
    refine wordAt_eq (fun i hi => ?_) (by simpa using hlt)
    rcases (by omega : i = 0 ∨ i = 1) with rfl | rfl
    · rw [Nat.add_zero, h k (by omega), h0]
    · rw [Nat.add_assoc, h (k + 1) hk, h1]
  obtain ⟨chn, die, plane, block, page⟩ := x
  simp only [ppaAt, Ppa.mk.injEq]
  refine ⟨hbyte 6 (by omega) _ rfl hx.chn, hbyte 5 (by omega) _ rfl hx.die,
    hbyte 4 (by omega) _ rfl hx.plane, hhalf 2 (by omega) _ rfl rfl hx.block, ?_⟩
  exact hhalf 0 (by omega) _ rfl rfl hx.page

theorem blockMetaAt_eq {b : BlockMeta} (hb : b.invalid_pgs < 2 ^ 16 ∧ b.valid_pgs < 2 ^ 16)
    (h : ∀ i < 8, m (addr + i) = b.byte i) : blockMetaAt m addr = b := by
  have hhalf : ∀ k, k + 1 < 8 → ∀ w, b.byte k = byteOf w 0 → b.byte (k + 1) = byteOf w 1 →
      w < 2 ^ 16 → wordAt m (addr + k) 2 = w := by
    intro k hk w h0 h1 hlt
    refine wordAt_eq (fun i hi => ?_) (by simpa using hlt)
    rcases (by omega : i = 0 ∨ i = 1) with rfl | rfl
    · rw [Nat.add_zero, h k (by omega), h0]
    · rw [Nat.add_assoc, h (k + 1) hk, h1]
  obtain ⟨invalid_pgs, valid_pgs⟩ := b
  simp only [blockMetaAt, BlockMeta.mk.injEq]
  exact ⟨hhalf 0 (by omega) _ rfl rfl hb.1, hhalf 2 (by omega) _ rfl rfl hb.2⟩

/-- The entries of the four arrays are at their places in the section. -/
theorem Layout.cell (L : Layout g) {a : Table UInt8} (ha : a ∈ sectionTables g L.offsets s)
    (h : ∀ i < g.mapping_table_bytes, m i = L.bytes s i) {j k : Nat} (hj : j < a.count)
    (hk : k < a.size) : m (a.base + a.size * j + k) = a.cell j k := by
  have hinside := L.inside s a ha
  have hcovers := (Table.covers_cell hj hk).2
  rw [h _ (by omega)]
  exact memory_cell (L.apart s) ha hj hk

/-- The bytes of the section and the configuration have the whole tables. -/
theorem Encodable.tablesIn (hs : Encodable g s)
    (hsearched : s.last_searched_channel = s.ftl_config.last_selected_ppa)
    (h : ∀ i < g.mapping_table_bytes, m i = L.bytes s i) : L.tablesIn m s.ftl_config = s := by
  have hlpa : (L.tablesIn m s.ftl_config).lpa_table = s.lpa_table := by
    funext lpn
    simp only [Layout.tablesIn]
    split
    · rename_i hlpn
      refine ppaAt_of_fits (hs.lpa_table lpn) fun k hk => ?_
      exact L.cell (a := ⟨_, 8, _, _⟩) List.mem_cons_self h hlpn hk
    · rename_i hlpn
      exact (hs.unmapped lpn (not_lt.mp hlpn)).symm
  have hppa : (L.tablesIn m s.ftl_config).ppa_table = s.ppa_table := by
    funext x
    simp only [Layout.tablesIn]
    split
    · rename_i hx
      refine wordAt_eq (fun k hk => ?_) (hs.ppa_table x)
      have hcell := L.cell (a := ⟨L.offsets.ppa_table, 4, g.total_num_of_pages,
        fun n => byteOf (s.ppa_table (g.pageAt n))⟩) (by simp [sectionTables]) h
        (Geometry.flashPage_lt hx) hk
      simp only [Geometry.pageAt_flashPage hx] at hcell
      exact hcell
    · rename_i hx
      exact (hs.free x hx).symm
  have hblk : (L.tablesIn m s.ftl_config).blk_table = s.blk_table := by
    funext b
    simp only [Layout.tablesIn]
    split
    · rename_i hb
      refine blockMetaAt_eq (hs.blk_table b) fun k hk => ?_
      have hcell := L.cell (a := ⟨L.offsets.blk_table, 8, g.total_num_of_block,
        fun n => (s.blk_table (g.blockAt n)).byte⟩) (by simp [sectionTables]) h
        (Geometry.flashBlock_lt hb) hk
      simp only [Geometry.blockAt_flashBlock hb] at hcell
      exact hcell
    · rename_i hb
      exact (hs.empty b hb).symm
  have hlast : (L.tablesIn m s.ftl_config).last_page_per_plane = s.last_page_per_plane := by
    funext p
    simp only [Layout.tablesIn]
    split
    · rename_i hp
      refine ppaAt_of_fits (hs.last_page_per_plane p hp) fun k hk => ?_
      have hcell := L.cell (a := ⟨L.offsets.last_page_per_plane, 8, g.total_num_of_planes,
        fun n => (s.last_page_per_plane (g.planeAt n)).byte⟩) (by simp [sectionTables]) h
        (Geometry.flashPlane_lt hp) hk
      simp only [Geometry.planeAt_flashPlane hp] at hcell
      exact hcell
    · rename_i hp
      exact (hs.start p hp).symm
  have hsearch : (L.tablesIn m s.ftl_config).last_searched_channel = s.last_searched_channel :=
    hsearched.symm
  cases s
  simp only [Layout.tablesIn, Ftl.mk.injEq] at hlpa hppa hblk hlast hsearch ⊢
  exact ⟨hlpa, hppa, hblk, hlast, hsearch, trivial⟩

/-- The entries of `mapping_tables` whose bytes are there are read as they were written. -/
theorem mappingTablesIn_of_fits {c : FtlConfig} (hc : c.Fits) {n i : Nat}
    (h : ∀ k < n, m k = c.byte k) (hi : 52 + 8 * i + 8 ≤ n) :
    mappingTablesIn m i = c.mapping_tables i := by
  refine ppaAt_of_fits (hc.mapping_tables i) fun k hk => ?_
  rw [h _ (by omega)]
  unfold FtlConfig.byte
  rw [if_neg (by omega), if_neg (by omega), show (52 + 8 * i + k - 52) / 8 = i by omega,
    show (52 + 8 * i + k - 52) % 8 = k by omega]

/-- So are the fields before them. -/
theorem configIn_fields {c : FtlConfig} (hc : c.Fits) (h : ∀ k < 52, m k = c.byte k) :
    configIn m = { c with mapping_tables := (configIn m).mapping_tables } := by
  have hword : ∀ k < 11, wordAt m (4 * k) 4 = c.words.getD k 0 := by
    intro k hk
    have hmem : c.words.getD k 0 ∈ c.words := by
      have hlen : k < c.words.length := hk
      rw [List.getD_eq_getElem _ _ hlen]
      exact List.getElem_mem hlen
    refine wordAt_eq (fun i hi => ?_) (hc.words _ hmem)
    rw [h _ (by omega)]
    unfold FtlConfig.byte
    rw [if_pos (by omega), digits_div hi, digits_mod hi]
  have hlast : ppaAt m 44 = c.last_selected_ppa := by
    refine ppaAt_of_fits hc.last_selected_ppa fun k hk => ?_
    rw [h _ (by omega)]
    unfold FtlConfig.byte
    rw [if_neg (by omega), if_pos (by omega), Nat.add_sub_cancel_left]
  cases c
  simp only [configIn, FtlConfig.mk.injEq]
  exact ⟨hword 0 (by omega), hword 1 (by omega), hword 2 (by omega), hword 3 (by omega),
    hword 4 (by omega), hword 5 (by omega), hword 6 (by omega), hword 7 (by omega),
    hword 8 (by omega), hword 9 (by omega), hword 10 (by omega), hlast, trivial⟩

/-- The bytes of `ftl_config` have the whole configuration. -/
theorem configIn_eq {c : FtlConfig} (hc : c.Fits) (h : ∀ i < SIZEOF_FTL_CONFIG, m i = c.byte i) :
    configIn m = c := by
  have hsize : SIZEOF_FTL_CONFIG = 9844 := rfl
  have hentries : (configIn m).mapping_tables = c.mapping_tables := by
    funext i
    simp only [configIn]
    split
    · rename_i hi
      have hi : i < 1224 := hi
      exact mappingTablesIn_of_fits hc h (by omega)
    · rename_i hi
      exact (hc.unused i (not_lt.mp hi)).symm
  rw [configIn_fields hc fun k hk => h k (by omega), hentries]

end Decode

/-! ## Every run keeps them so -/

section Keeps

variable {g : Geometry} {s s' : Ftl} {c : FtlConfig} {x : Ppa} {a lpn i : Nat}

theorem FtlConfig.Fits.counters (h : c.Fits) (invalid valid free : Nat) :
    FtlConfig.Fits { c with
      total_invalid_pages := invalid % 2 ^ 32
      total_valid_pages := valid % 2 ^ 32
      total_free_pages := free % 2 ^ 32 } := by
  refine ⟨?_, h.last_selected_ppa, h.mapping_tables, h.unused⟩
  have hlt : ∀ n, n % 2 ^ 32 < 2 ^ 32 := fun n => Nat.mod_lt n (by decide)
  have hwords := h.words
  simp only [FtlConfig.words, List.forall_mem_cons] at hwords ⊢
  obtain ⟨h0, h1, h2, h3, h4, h5, h6, h7, -⟩ := hwords
  exact ⟨h0, h1, h2, h3, h4, h5, h6, h7, hlt _, hlt _, hlt _, List.forall_mem_nil _⟩

namespace Encodable

theorem withConfig (h : Encodable g s) (hc : c.Fits) (searched : Ppa) :
    Encodable g { s with ftl_config := c, last_searched_channel := searched } :=
  ⟨h.lpa_table, h.unmapped, h.ppa_table, h.free, h.blk_table, h.empty, h.last_page_per_plane,
    h.start, hc⟩

theorem set_mapped_ppa (h : Encodable g s) (hlpn : lpn < g.total_num_of_pages) (hx : x.Fits) :
    Encodable g (s.set_mapped_ppa lpn x) := by
  refine ⟨fun l => ?_, fun l hl => ?_, h.ppa_table, h.free, h.blk_table, h.empty,
    h.last_page_per_plane, h.start, h.ftl_config⟩
  · simp only [Ftl.set_mapped_ppa, Function.update_apply]
    split
    · exact hx
    · exact h.lpa_table l
  · simp only [Ftl.set_mapped_ppa]
    rw [Function.update_of_ne (by omega)]
    exact h.unmapped l hl

/-- The word of a page of the device changes. -/
theorem set_word (h : Encodable g s) (hx : g.HasPage x) {w : Nat} (hw : w < 2 ^ 32) :
    Encodable g { s with ppa_table := Function.update s.ppa_table x w } := by
  refine ⟨h.lpa_table, h.unmapped, fun y => ?_, fun y hy => ?_, h.blk_table, h.empty,
    h.last_page_per_plane, h.start, h.ftl_config⟩
  · simp only [Function.update_apply]
    split
    · exact hw
    · exact h.ppa_table y
  · have hne : y ≠ x := fun he => hy (he ▸ hx)
    simp only [Function.update_of_ne hne]
    exact h.free y hy

theorem setBlock (h : Encodable g s) (hx : g.HasPage x) {m : BlockMeta}
    (hm : m.invalid_pgs < 2 ^ 16 ∧ m.valid_pgs < 2 ^ 16) : Encodable g (s.setBlock x m) := by
  refine ⟨h.lpa_table, h.unmapped, h.ppa_table, h.free, fun b => ?_, fun b hb => ?_,
    h.last_page_per_plane, h.start, h.ftl_config⟩
  · simp only [Ftl.setBlock, Function.update_apply]
    split
    · exact hm
    · exact h.blk_table b
  · have hne : b ≠ x.pba := fun he => hb (he ▸ hx.hasBlock)
    simp only [Ftl.setBlock, Function.update_of_ne hne]
    exact h.empty b hb

theorem inc_valid_pages (h : Encodable g s) (hx : g.HasPage x) :
    Encodable g (s.inc_valid_pages x) :=
  h.setBlock hx ⟨(h.blk_table x.pba).1, Nat.mod_lt _ (by decide)⟩

theorem dec_valid_pages (h : Encodable g s) (hx : g.HasPage x) :
    Encodable g (s.dec_valid_pages x) :=
  h.setBlock hx ⟨(h.blk_table x.pba).1, Nat.mod_lt _ (by decide)⟩

theorem inc_invalid_pages (h : Encodable g s) (hx : g.HasPage x) :
    Encodable g (s.inc_invalid_pages x) :=
  h.setBlock hx ⟨Nat.mod_lt _ (by decide), (h.blk_table x.pba).2⟩

/-- The cursors go to the page behind a page of the device. -/
theorem advance (h : Encodable g s) (hx : g.HasPage x) : Encodable g (s.advance x) := by
  have hfits := hx.fits
  have hlt := hx.2.2.2.2
  have hpages := g.pages_lt
  have hnext : Ppa.Fits { x with page := x.page + 1 } :=
    ⟨hfits.chn, hfits.die, hfits.plane, hfits.block, by simp only; omega⟩
  refine ⟨h.lpa_table, h.unmapped, h.ppa_table, h.free, h.blk_table, h.empty, fun p hp => ?_,
    fun p hp => ?_, h.ftl_config.words, hnext, h.ftl_config.mapping_tables,
    h.ftl_config.unused⟩
  · simp only [Ftl.advance, Function.update_apply]
    split
    · exact hnext
    · exact h.last_page_per_plane p hp
  · have hne : p ≠ x.planeOf := fun he => hp (he ▸ hx.hasPlane)
    exact (Function.update_of_ne hne ..).trans (h.start p hp)

theorem map_lpa_and_ppa (h : Encodable g s) (hlpn : lpn < g.total_num_of_pages)
    (hx : g.HasPage x) : Encodable g (s.map_lpa_and_ppa lpn x) := by
  have htotal := g.total_num_of_pages_le
  exact (h.set_mapped_ppa hlpn hx.fits).set_word hx (by omega)

theorem map_new_page (h : Encodable g s) (hgood : Good g s a) (hx : g.HasPage x)
    (hlpn : lpn < g.total_num_of_pages) : Encodable g (map_new_page lpn x (s.advance x)) := by
  have hadvance := h.advance hx
  unfold S4Sim.map_new_page
  split
  · have hmapped := (hadvance.map_lpa_and_ppa hlpn hx).inc_valid_pages hx
    have hcounters := hmapped.ftl_config.counters (s.ftl_config.total_invalid_pages)
      (s.ftl_config.total_valid_pages + 1) (s.ftl_config.total_free_pages + (2 ^ 32 - 1))
    have hinvalid : s.ftl_config.total_invalid_pages % 2 ^ 32 = s.ftl_config.total_invalid_pages :=
      Nat.mod_eq_of_lt (h.ftl_config.words _ (by simp [FtlConfig.words]))
    rw [hinvalid] at hcounters
    exact hmapped.withConfig hcounters _
  · rename_i hm
    -- The old page of the LPN is a page of the device.
    have hm : s.is_unmapped_lpa lpn = false := Bool.eq_false_of_not_eq_true hm
    have hold := (hgood.inverse.mapped lpn hlpn hm).1
    have hinvalid := ((hadvance.set_word hold (w := INVALID_PPA) (by decide)).inc_invalid_pages
      hold).dec_valid_pages hold
    have hmapped := (hinvalid.map_lpa_and_ppa hlpn hx).inc_valid_pages hx
    have hcounters := hmapped.ftl_config.counters (s.ftl_config.total_invalid_pages + 1)
      s.ftl_config.total_valid_pages (s.ftl_config.total_free_pages + (2 ^ 32 - 1))
    have hvalid : s.ftl_config.total_valid_pages % 2 ^ 32 = s.ftl_config.total_valid_pages :=
      Nat.mod_eq_of_lt (h.ftl_config.words _ (by simp [FtlConfig.words]))
    rw [hvalid] at hcounters
    exact hmapped.withConfig hcounters _

theorem reserve_page (h : Encodable g s) (hx : g.HasPage x) (hi : i < MAPPING_TABLES_ENTRIES) :
    Encodable g (reserve_page i x (s.advance x)) := by
  have hadvance := h.advance hx
  have hentry : FtlConfig.Fits { (s.advance x).ftl_config with
      mapping_tables := Function.update (s.advance x).ftl_config.mapping_tables i x } := by
    have hc := hadvance.ftl_config
    refine ⟨hc.words, hc.last_selected_ppa, fun j => ?_, fun j hj => ?_⟩
    · simp only [Function.update_apply]
      split
      · exact hx.fits
      · exact hc.mapping_tables j
    · simp only
      rw [Function.update_of_ne (by omega)]
      exact hc.unused j hj
  exact (((hadvance.withConfig hentry _).set_word hx (w := INVALID_PPA)
    (by decide)).inc_invalid_pages hx).dec_valid_pages hx

theorem reserve_pages {n : Nat} (h : Encodable g s) (hgood : Good g s a)
    (hn : i + n ≤ MAPPING_TABLES_ENTRIES) (hr : reserve_pages g s i n = some s') :
    Encodable g s' := by
  induction n generalizing s a i with
  | zero =>
    cases hr
    exact h
  | succ n ih =>
    obtain ⟨x, -, hx, -, hgood', hrest⟩ := reserve_pages_cases hgood hr
    exact ih (h.reserve_page hx (by omega)) hgood' (by omega) hrest

theorem store (h : Encodable g s) (hgood : Good g s a)
    (hstore : store_mapping_tables g s = some s') : Encodable g s' := by
  have hfit := g.tables_fit
  refine h.reserve_pages hgood ?_ hstore
  rw [hgood.rpp]
  unfold Geometry.nandPageBytes
  omega

theorem ftlStep {op : FtlOp g} (h : Encodable g s) (hgood : Good g s a)
    (hop : ftlStep s op = some s') : Encodable g s' := by
  cases op with
  | make_new_mapping lpn =>
    obtain ⟨x, -, hx, -, rfl⟩ := ftlStep_map_cases hgood hop
    exact h.map_new_page hgood hx lpn.isLt
  | store_mapping_tables => exact h.store hgood hop

end Encodable

/-- The page sizes of the build are at most 16 KB. -/
theorem SavedPagesFit.page_size (h : SavedPagesFit g) : g.nand_page_size ≤ 14 :=
  (Nat.pow_le_pow_iff_right (by decide)).mp (show 2 ^ g.nand_page_size ≤ 2 ^ 14 from h.page)

theorem encodable_initialize_ftl (hfits : SavedPagesFit g)
    (hhost : g.host_page_size ≤ g.nand_page_size) : Encodable g (initialize_ftl g) := by
  have hzero : Ppa.Fits ⟨0, 0, 0, 0, 0⟩ := by decide
  have hunmapped : Ppa.Fits ⟨0xFF, 0, 0, 0, 0⟩ := by decide
  have hfirst := first_page_hasPage g
  have hconfig : (new_media_config g).Fits := by
    refine ⟨?_, show Ppa.Fits { first_page with page := 1 } by decide, fun i => hzero,
      fun i _ => rfl⟩
    have hsize := hfits.page_size
    have hpages := g.pages_lt
    have htotal := g.total_num_of_pages_le
    have hentries := g.tables_fit
    have hlt : ∀ n, n % 2 ^ 32 < 2 ^ 32 := fun n => Nat.mod_lt n (by decide)
    have hrpp : g.mapping_table_bytes / g.nandPageBytes + 1 < 2 ^ 32 := by
      unfold Geometry.nandPageBytes
      exact Nat.lt_of_le_of_lt hentries (by decide)
    simp only [FtlConfig.words, List.forall_mem_cons, new_media_config]
    exact ⟨by omega, by omega, by omega, by omega, hlt _, hrpp, hlt _, hlt _, by simp, by simp,
      by omega, List.forall_mem_nil _⟩
  have hgenerated : Encodable g { generated_tables with
      last_page_per_plane := fun p => ⟨p.chn, p.die, p.plane, 0, 0⟩
      ftl_config := new_media_config g } := by
    have hfree : FREE_PPA < 2 ^ 32 := by decide
    refine ⟨fun _ => hunmapped, fun _ _ => rfl, fun _ => hfree, fun _ _ => rfl,
      fun _ => by simp [generated_tables], fun _ _ => rfl, fun p hp => ?_, fun _ _ => rfl, hconfig⟩
    have hpage : g.HasPage ⟨p.chn, p.die, p.plane, 0, 0⟩ :=
      ⟨hp.1, hp.2.1, hp.2.2, g.blocks_pos, g.pages_pos⟩
    exact hpage.fits
  have hreserved := (hgenerated.set_word hfirst (w := RESERVED_PPA) (by decide)).inc_valid_pages
    hfirst
  refine ⟨hreserved.lpa_table, hreserved.unmapped, hreserved.ppa_table, hreserved.free,
    hreserved.blk_table, hreserved.empty, fun p hp => ?_, fun p hp => ?_, hconfig⟩
  · simp only [initialize_ftl, Function.update_apply]
    split
    · decide
    · exact hreserved.last_page_per_plane p hp
  · have hne : p ≠ first_page.planeOf := fun he => hp (he ▸ hfirst.hasPlane)
    exact (Function.update_of_ne hne ..).trans (hreserved.start p hp)

theorem run_encodable (hfits : SavedPagesFit g) (hhost : g.host_page_size ≤ g.nand_page_size)
    {ops : List (FtlOp g)} (h : run ftlStep (initialize_ftl g) ops = some s) : Encodable g s := by
  have hready : ∃ a, Good g s a ∧ Encodable g s := by
    refine run_keeps (I := fun s => ∃ a, Good g s a ∧ Encodable g s) ?_
      ⟨1, good_initialize_ftl g, encodable_initialize_ftl hfits hhost⟩ h
    rintro t op u ⟨a, hgood, henc⟩ hop
    exact ⟨_, good_pages (p := (t, a)) hgood (ftlStep_pages op hgood hop), henc.ftlStep hgood hop⟩
  obtain ⟨-, -, henc⟩ := hready
  exact henc

end Keeps

/-! ## The law -/

/-- The entries of `mapping_tables` that a store fills. -/
def Geometry.entries (g : Geometry) : Nat := g.mapping_table_bytes / g.nandPageBytes + 1

theorem Geometry.entries_le (g : Geometry) : g.entries ≤ MAPPING_TABLES_ENTRIES := g.tables_fit

section Law

variable {g : Geometry} {L : Layout g} {s s' : Ftl} {x : Ppa} {a : Nat}

theorem SavedPagesFit.nine_le (h : SavedPagesFit g) : 9 ≤ g.nand_page_size := by
  by_contra hlt
  have hle : 2 ^ g.nand_page_size ≤ 2 ^ 8 := Nat.pow_le_pow_right (by decide) (by omega)
  have hconfig := h.config
  have hsize : SIZEOF_FTL_CONFIG = 9844 := rfl
  unfold Geometry.nandPageBytes at hconfig
  omega

/-- A page below the third of the flash is a page of the configuration. -/
theorem mem_config_pages (hpages : 3 ≤ g.nand_pages_per_block) (hx : g.HasPage x)
    (h : g.flashPage x < 3) : x ∈ config_pages := by
  obtain ⟨k, hk⟩ : ∃ k, g.flashPage x = k := ⟨_, rfl⟩
  have hpage : g.HasPage { first_page with page := k } :=
    ⟨g.chn_pos, g.dies_per_channel_pos, g.planes_pos, g.blocks_pos, by simp only; omega⟩
  rw [Geometry.flashPage_inj hx hpage (hk.trans (flashPage_config g k).symm)]
  rcases (by omega : k = 0 ∨ k = 1 ∨ k = 2) with rfl | rfl | rfl <;>
    simp [config_pages, first_page]

/-- The pages that a store of the tables takes. -/
theorem store_entries (hpages : 3 ≤ g.nand_pages_per_block) (h : Ready g s a)
    (hstore : store_mapping_tables g s = some s')
    (hkeeps : KeepsConfig (g := g) s .store_mapping_tables) : ∀ i < g.entries,
    g.HasPage (s'.ftl_config.mapping_tables i) ∧
      g.number (s'.ftl_config.mapping_tables i) = a + i ∧
      3 ≤ g.flashPage (s'.ftl_config.mapping_tables i) := by
  obtain ⟨hentries, -⟩ := reserve_pages_entries h.good hstore
  intro i hi
  have hi' : i < s.ftl_config.rpp_map_tables := h.good.rpp ▸ hi
  obtain ⟨hpage, hnum⟩ := hentries i hi'
  rw [Nat.zero_add] at hpage hnum
  refine ⟨hpage, hnum, ?_⟩
  by_contra hlt
  refine hkeeps _ (mem_config_pages hpages hpage (by omega)) ?_
  simp only [handedOut, hstore]
  exact List.mem_map_of_mem (List.mem_range.mpr hi')

theorem store_ready (h : Ready g s a) (hstore : store_mapping_tables g s = some s') :
    Ready g s' (a + g.entries) := by
  have hsteps := reserve_pages_steps h.good hstore
  rw [h.good.rpp] at hsteps
  exact h.pages (p := (s, a)) hsteps

end Law

/-- After every run, the tables that a store has saved are read back as they were: all four
arrays and the configuration, entry for entry, from the flash and whatever the RAM holds. -/
theorem the_saved_tables_are_loaded_whole {g : Geometry} (L : Layout g) (hfits : SavedPagesFit g)
    (hhost : g.host_page_size ≤ g.nand_page_size) (hpages : 3 ≤ g.nand_pages_per_block)
    {ops : List (FtlOp g)} {s s' : Ftl} (h : run ftlStep (initialize_ftl g) ops = some s)
    (hstore : store_mapping_tables g s = some s')
    (hkeeps : KeepsConfig (g := g) s .store_mapping_tables) (m : StoreMemory) (r : FtlRam) :
    power_on L (program_pages g (L.bytes s') s' m).flash r = s' := by
  have hready : Ready g s (pagesTaken ops) := (ready_initialize_ftl g).pages
    (p := (initialize_ftl g, 1)) (run_pages (good_initialize_ftl g) h)
  have hready' := store_ready hready hstore
  have henc := (run_encodable hfits hhost h).store hready.good hstore
  have hnine := hfits.nine_le
  have hsize := hfits.page_size
  have hfirst : ∀ i < s.ftl_config.rpp_map_tables,
      3 ≤ g.flashPage (s'.ftl_config.mapping_tables i) := by
    intro i hi
    rw [hready.good.rpp] at hi
    exact (store_entries hpages hready hstore hkeeps i hi).2.2
  obtain ⟨r', hload, htables, hconfig⟩ := (store_flashHolds hready.good.rpp hstore hfirst
    (L.bytes s') m).load hfits (by rw [hready'.nand_ds]; omega) (by rw [hready'.nand_ds]; omega) r
  unfold power_on
  rw [hload]
  simp only
  rw [configIn_eq henc.ftl_config hconfig]
  exact henc.tablesIn hready'.searched htables

/-- The arrays of the small device, one behind the other. -/
def smallLayout : Layout twoChannels where
  offsets := ⟨0, 96, 144, 176⟩
  padding _ := 0
  apart s := by simp [sectionTables, Table.Apart, twoChannels, Geometry.total_num_of_pages,
    Geometry.total_num_of_block, Geometry.total_num_of_planes, Geometry.total_num_of_dies,
    Geometry.total_num_of_pkgs]
  inside s := by simp [sectionTables, twoChannels, Geometry.total_num_of_pages,
    Geometry.total_num_of_block, Geometry.total_num_of_planes, Geometry.total_num_of_dies,
    Geometry.total_num_of_pkgs]

/-- Five LPNs are mapped, so the store takes pages 6 and 7. -/
theorem the_saved_tables_are_loaded_whole_after_five_mappings :
    ∃ s s' : Ftl, run ftlStep (initialize_ftl twoChannels)
        ((List.range 5).map fun i => .make_new_mapping (g := twoChannels) (Fin.ofNat 12 i)) =
          some s ∧ store_mapping_tables twoChannels s = some s' ∧ ∀ m r,
        power_on smallLayout (program_pages twoChannels (smallLayout.bytes s') s' m).flash r =
          s' := by
  have hrun : (run ftlStep (initialize_ftl twoChannels) ((List.range 5).map fun i =>
      .make_new_mapping (g := twoChannels) (Fin.ofNat 12 i))).any (fun s =>
        config_pages.all fun x => x ∉ handedOut (g := twoChannels) s .store_mapping_tables) =
      true := by
    decide +kernel
  obtain ⟨s, hs, hkeeps⟩ := (Option.any_eq_true _ _).mp hrun
  obtain ⟨s', hs'⟩ := ftlStep_returns .store_mapping_tables (run_good hs) (by decide)
  refine ⟨s, s', hs, hs', fun m r => ?_⟩
  refine the_saved_tables_are_loaded_whole smallLayout ⟨by decide, by decide⟩ (by decide)
    (by decide) hs hs' (fun x hx => ?_) m r
  simpa using List.all_eq_true.mp hkeeps x hx

end S4Sim
