-- The geometry of the flash array: the --nand_* options of the build, the
-- macros of global_macro.h over them, and the physical addresses of
-- issd_types.h.
import Mathlib.Data.Nat.ModEq
import Mathlib.Tactic.Ring

namespace S4Sim

/-! ## Physical addresses -/

/-- One plane: the index of a `last_page_per_plane` entry. -/
structure Plane where
  chn : Nat
  die : Nat
  plane : Nat
  deriving DecidableEq, Repr

/-- One erase block, as `pba_t`. -/
structure Pba where
  chn : Nat
  die : Nat
  plane : Nat
  block : Nat
  deriving DecidableEq, Repr

/-- The fields of `ppa_t.path`. The byte `resv` is 0 in every address that
the firmware builds, so it is left out. -/
structure Ppa where
  chn : Nat
  die : Nat
  plane : Nat
  block : Nat
  page : Nat
  deriving DecidableEq, Repr

namespace Ppa

def pba (x : Ppa) : Pba := ⟨x.chn, x.die, x.plane, x.block⟩

def planeOf (x : Ppa) : Plane := ⟨x.chn, x.die, x.plane⟩

@[simp] theorem pba_mk (c d p b w : Nat) : (Ppa.mk c d p b w).pba = ⟨c, d, p, b⟩ := rfl

@[simp] theorem planeOf_mk (c d p b w : Nat) : (Ppa.mk c d p b w).planeOf = ⟨c, d, p⟩ := rfl

end Ppa

/-- A page of a block. -/
def Pba.pageOf (b : Pba) (page : Nat) : Ppa := ⟨b.chn, b.die, b.plane, b.block, page⟩

@[simp] theorem Pba.pba_pageOf (b : Pba) (page : Nat) : (b.pageOf page).pba = b := rfl

@[simp] theorem Pba.page_pageOf (b : Pba) (page : Nat) : (b.pageOf page).page = page := rfl

theorem Ppa.pageOf_pba (x : Ppa) : x.pba.pageOf x.page = x := rfl

/-! ## The build options -/

/-- The entries of `ftl_config_t.mapping_tables`. -/
def MAPPING_TABLES_ENTRIES : Nat := 1224

/-- The options of one build. `mapping_table_bytes` is the size of the
linker section between `_mapping_table_start_` and `_mapping_table_end_`.
The bounds are those of the fields of `ppa_t` (8 bits for the channel, die and
plane, 16 bits for the block and the page, with room for the one-past index
that the loops reach), of the two tag bits of a `ppa_table` word, and of the
array `mapping_tables`. -/
structure Geometry where
  nand_num_chn : Nat
  nand_pkgs_per_chn : Nat
  nand_dies_per_pkg : Nat
  nand_planes_per_die : Nat
  nand_blocks_per_plane : Nat
  nand_pages_per_block : Nat
  nand_page_size : Nat
  host_page_size : Nat
  over_provision_factor : Nat
  mapping_table_bytes : Nat
  chn_pos : 0 < nand_num_chn
  pkgs_pos : 0 < nand_pkgs_per_chn
  dies_pos : 0 < nand_dies_per_pkg
  planes_pos : 0 < nand_planes_per_die
  blocks_pos : 0 < nand_blocks_per_plane
  pages_pos : 0 < nand_pages_per_block
  chn_le : nand_num_chn ≤ 64
  dies_le : nand_pkgs_per_chn * nand_dies_per_pkg ≤ 256
  planes_le : nand_planes_per_die ≤ 256
  blocks_lt : nand_blocks_per_plane < 65536
  pages_lt : nand_pages_per_block < 65536
  total_le : nand_num_chn * nand_pkgs_per_chn * nand_dies_per_pkg * nand_planes_per_die *
    nand_blocks_per_plane * nand_pages_per_block ≤ 0x40000000
  tables_fit : mapping_table_bytes / 2 ^ nand_page_size + 1 ≤ MAPPING_TABLES_ENTRIES

namespace Geometry

variable (g : Geometry)

/-! ## The macros of global_macro.h -/

def dies_per_channel : Nat := g.nand_pkgs_per_chn * g.nand_dies_per_pkg

def total_num_of_pkgs : Nat := g.nand_num_chn * g.nand_pkgs_per_chn

def total_num_of_dies : Nat := g.total_num_of_pkgs * g.nand_dies_per_pkg

def total_num_of_planes : Nat := g.total_num_of_dies * g.nand_planes_per_die

def total_num_of_block : Nat := g.total_num_of_planes * g.nand_blocks_per_plane

def total_num_of_pages : Nat := g.total_num_of_block * g.nand_pages_per_block

def pages_per_plane : Nat := g.nand_blocks_per_plane * g.nand_pages_per_block

def nandPageBytes : Nat := 2 ^ g.nand_page_size

theorem dies_per_channel_pos : 0 < g.dies_per_channel := Nat.mul_pos g.pkgs_pos g.dies_pos

theorem total_num_of_planes_pos : 0 < g.total_num_of_planes :=
  Nat.mul_pos (Nat.mul_pos (Nat.mul_pos g.chn_pos g.pkgs_pos) g.dies_pos) g.planes_pos

theorem nandPageBytes_pos : 0 < g.nandPageBytes := Nat.two_pow_pos _

theorem pages_per_plane_pos : 0 < g.pages_per_plane := Nat.mul_pos g.blocks_pos g.pages_pos

theorem total_num_of_planes_eq :
    g.total_num_of_planes = g.nand_num_chn * (g.dies_per_channel * g.nand_planes_per_die) := by
  unfold total_num_of_planes total_num_of_dies total_num_of_pkgs dies_per_channel
  ring

theorem total_num_of_pages_eq :
    g.total_num_of_pages = g.pages_per_plane * g.total_num_of_planes := by
  unfold total_num_of_pages total_num_of_block pages_per_plane
  ring

theorem total_num_of_pages_pos : 0 < g.total_num_of_pages := by
  rw [total_num_of_pages_eq]
  exact Nat.mul_pos g.pages_per_plane_pos g.total_num_of_planes_pos

theorem total_num_of_pages_le : g.total_num_of_pages ≤ 0x40000000 := g.total_le

/-! ## The addresses of the array -/

def HasPlane (p : Plane) : Prop :=
  p.chn < g.nand_num_chn ∧ p.die < g.dies_per_channel ∧ p.plane < g.nand_planes_per_die

def HasBlock (b : Pba) : Prop :=
  b.chn < g.nand_num_chn ∧ b.die < g.dies_per_channel ∧ b.plane < g.nand_planes_per_die ∧
    b.block < g.nand_blocks_per_plane

/-- The address is inside the array `ppa_table`. -/
def HasPage (x : Ppa) : Prop :=
  x.chn < g.nand_num_chn ∧ x.die < g.dies_per_channel ∧ x.plane < g.nand_planes_per_die ∧
    x.block < g.nand_blocks_per_plane ∧ x.page < g.nand_pages_per_block

instance (p : Plane) : Decidable (g.HasPlane p) := by unfold HasPlane; infer_instance

instance (b : Pba) : Decidable (g.HasBlock b) := by unfold HasBlock; infer_instance

instance (x : Ppa) : Decidable (g.HasPage x) := by unfold HasPage; infer_instance

variable {g}

theorem HasPage.hasPlane {x : Ppa} (h : g.HasPage x) : g.HasPlane x.planeOf :=
  ⟨h.1, h.2.1, h.2.2.1⟩

theorem HasPage.hasBlock {x : Ppa} (h : g.HasPage x) : g.HasBlock x.pba :=
  ⟨h.1, h.2.1, h.2.2.1, h.2.2.2.1⟩

theorem HasBlock.hasPage {b : Pba} (h : g.HasBlock b) {page : Nat}
    (hp : page < g.nand_pages_per_block) : g.HasPage (b.pageOf page) :=
  ⟨h.1, h.2.1, h.2.2.1, h.2.2.2, hp⟩

/-- The channel 0xFF of an unmapped entry is the channel of no page. -/
theorem HasPage.chn_ne {x : Ppa} (h : g.HasPage x) : x.chn ≠ 0xFF := by
  have := g.chn_le
  have := h.1
  omega

end Geometry

/-- A device of 12 pages: two channels of one plane with two blocks of three
pages. Its mapping tables take two pages. -/
def twoChannels : Geometry where
  nand_num_chn := 2
  nand_pkgs_per_chn := 1
  nand_dies_per_pkg := 1
  nand_planes_per_die := 1
  nand_blocks_per_plane := 2
  nand_pages_per_block := 3
  nand_page_size := 12
  host_page_size := 12
  over_provision_factor := 10
  mapping_table_bytes := 5000
  chn_pos := by decide
  pkgs_pos := by decide
  dies_pos := by decide
  planes_pos := by decide
  blocks_pos := by decide
  pages_pos := by decide
  chn_le := by decide
  dies_le := by decide
  planes_le := by decide
  blocks_lt := by decide
  pages_lt := by decide
  total_le := by decide
  tables_fit := by decide

end S4Sim
