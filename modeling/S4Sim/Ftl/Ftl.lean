-- The flash translation layer, from ftl.h and ftl.c: the two mapping tables,
-- the block table, the page allocator, `make_new_mapping` and the part of
-- `store_mapping_tables` that reserves and programs pages.
import S4Sim.Ftl.Geometry

namespace S4Sim

/-! ## The tags of a ppa_table word -/

def FREE_PPA : Nat := 0x40000000

def INVALID_PPA : Nat := 0x80000000

def RESERVED_PPA : Nat := 0xc0000000

/-- `! (word & VALID_PPA_MASK)`: the two top bits of the word are clear. -/
def isLpn (word : Nat) : Bool := word &&& 0xc0000000 == 0

/-! ## The tables -/

/-- The two page counters of a `block_meta_t`, each of 16 bits. -/
structure BlockMeta where
  invalid_pgs : Nat
  valid_pgs : Nat
  deriving DecidableEq, Repr

structure FtlConfig where
  nand_ds : Nat
  host_ds : Nat
  pages_per_block : Nat
  total_pages : Nat
  rpp_ovp : Nat
  rpp_map_tables : Nat
  total_rpp : Nat
  total_logical_pages : Nat
  total_invalid_pages : Nat
  total_valid_pages : Nat
  total_free_pages : Nat
  last_selected_ppa : Ppa
  mapping_tables : Nat → Ppa

/-- The memory of the FTL. The arrays are functions of their index. -/
structure Ftl where
  lpa_table : Nat → Ppa
  ppa_table : Ppa → Nat
  blk_table : Pba → BlockMeta
  last_page_per_plane : Plane → Ppa
  last_searched_channel : Ppa
  ftl_config : FtlConfig

namespace Ftl

variable (s : Ftl)

/-! ## The macros of ftl.h -/

def is_unmapped_lpa (lpn : Nat) : Bool := (s.lpa_table lpn).chn == 0xFF

def set_mapped_ppa (lpn : Nat) (ppa : Ppa) : Ftl :=
  { s with lpa_table := Function.update s.lpa_table lpn ppa }

def set_mapped_lpa (lpn : Nat) (ppa : Ppa) : Ftl :=
  { s with ppa_table := Function.update s.ppa_table ppa lpn }

def map_lpa_and_ppa (lpn : Nat) (ppa : Ppa) : Ftl :=
  (s.set_mapped_ppa lpn ppa).set_mapped_lpa lpn ppa

def set_invalid_ppa (ppa : Ppa) : Ftl :=
  { s with ppa_table := Function.update s.ppa_table ppa INVALID_PPA }

def set_reserved_ppa (ppa : Ppa) : Ftl :=
  { s with ppa_table := Function.update s.ppa_table ppa RESERVED_PPA }

def is_valid_ppa (ppa : Ppa) : Bool := isLpn (s.ppa_table ppa)

/-- Sets the `blk_table` entry of a page's block. -/
def setBlock (ppa : Ppa) (m : BlockMeta) : Ftl :=
  { s with blk_table := Function.update s.blk_table ppa.pba m }

def inc_valid_pages (ppa : Ppa) : Ftl :=
  let m := s.blk_table ppa.pba
  s.setBlock ppa { m with valid_pgs := (m.valid_pgs + 1) % 2 ^ 16 }

def dec_valid_pages (ppa : Ppa) : Ftl :=
  let m := s.blk_table ppa.pba
  s.setBlock ppa { m with valid_pgs := (m.valid_pgs + (2 ^ 16 - 1)) % 2 ^ 16 }

def inc_invalid_pages (ppa : Ppa) : Ftl :=
  let m := s.blk_table ppa.pba
  s.setBlock ppa { m with invalid_pgs := (m.invalid_pgs + 1) % 2 ^ 16 }

/-- `GET_FREE_PAGES`, of type `int`: it is below 0 when the two counters are
above the pages of a block. -/
def get_free_pages (g : Geometry) (b : Pba) : Int :=
  g.nand_pages_per_block - ((s.blk_table b).valid_pgs + (s.blk_table b).invalid_pgs)

/-! ## The 32-bit counters of the device -/

def incTotalValid : Ftl :=
  { s with ftl_config := { s.ftl_config with
      total_valid_pages := (s.ftl_config.total_valid_pages + 1) % 2 ^ 32 } }

def incTotalInvalid : Ftl :=
  { s with ftl_config := { s.ftl_config with
      total_invalid_pages := (s.ftl_config.total_invalid_pages + 1) % 2 ^ 32 } }

def decTotalFree : Ftl :=
  { s with ftl_config := { s.ftl_config with
      total_free_pages := (s.ftl_config.total_free_pages + (2 ^ 32 - 1)) % 2 ^ 32 } }

end Ftl

/-! ## initialize_ftl on new media -/

/-- The tables that gen_mapping_tables writes: no LPN is mapped and each page
is free. The other memory is zero. -/
def generated_tables : Ftl where
  lpa_table _ := ⟨0xFF, 0, 0, 0, 0⟩
  ppa_table _ := FREE_PPA
  blk_table _ := ⟨0, 0⟩
  last_page_per_plane _ := ⟨0, 0, 0, 0, 0⟩
  last_searched_channel := ⟨0, 0, 0, 0, 0⟩
  ftl_config :=
    { nand_ds := 0, host_ds := 0, pages_per_block := 0, total_pages := 0, rpp_ovp := 0,
      rpp_map_tables := 0, total_rpp := 0, total_logical_pages := 0, total_invalid_pages := 0,
      total_valid_pages := 0, total_free_pages := 0, last_selected_ppa := ⟨0, 0, 0, 0, 0⟩,
      mapping_tables := fun _ => ⟨0, 0, 0, 0, 0⟩ }

/-- `first_page`: all fields 0. -/
def first_page : Ppa := ⟨0, 0, 0, 0, 0⟩

variable (g : Geometry)

/-- The configuration that `initialize_ftl` gives new media. -/
def new_media_config : FtlConfig where
  nand_ds := g.nand_page_size
  host_ds := g.host_page_size
  pages_per_block := g.nand_pages_per_block
  total_pages := g.total_num_of_pages
  rpp_ovp := g.total_num_of_pages / 100 * g.over_provision_factor % 2 ^ 32
  rpp_map_tables := g.mapping_table_bytes / g.nandPageBytes + 1
  total_rpp := (g.total_num_of_pages / 100 * g.over_provision_factor +
    (g.mapping_table_bytes / g.nandPageBytes + 1)) % 2 ^ 32
  total_logical_pages := (g.total_num_of_pages + 2 ^ 32 -
    (g.total_num_of_pages / 100 * g.over_provision_factor +
      (g.mapping_table_bytes / g.nandPageBytes + 1)) % 2 ^ 32) % 2 ^ 32 *
    2 ^ (g.nand_page_size - g.host_page_size) % 2 ^ 32
  total_invalid_pages := 0
  total_valid_pages := 1
  total_free_pages := g.total_num_of_pages - 1
  last_selected_ppa := { first_page with page := 1 }
  mapping_tables _ := ⟨0, 0, 0, 0, 0⟩

/-- The state after `initialize_ftl` read a first page that holds no
configuration (`ftl_config.nand_ds < 9`). -/
def initialize_ftl : Ftl :=
  let s : Ftl := { generated_tables with
    last_page_per_plane := fun p => ⟨p.chn, p.die, p.plane, 0, 0⟩ }
  let s := s.set_reserved_ppa first_page
  let s := s.inc_valid_pages first_page
  { s with
    ftl_config := new_media_config g
    last_page_per_plane :=
      Function.update s.last_page_per_plane first_page.planeOf { first_page with page := 1 }
    last_searched_channel := { first_page with page := 1 } }

/-! ## The page allocator -/

/-- `IS_FREE_PPA`. A probe outside the array, at the block one past the last,
reads memory of another plane and is counted as not free. -/
def is_free_ppa (s : Ftl) (ppa : Ppa) : Bool :=
  decide (g.HasPage ppa) && s.ppa_table ppa == FREE_PPA

/-- The plane that `find_free_page` searches: channels first, then dies,
then planes. -/
def next_plane (p : Plane) : Plane :=
  if p.chn + 1 ≥ g.nand_num_chn then
    if p.die + 1 ≥ g.dies_per_channel then
      if p.plane + 1 ≥ g.nand_planes_per_die then ⟨0, 0, 0⟩ else ⟨0, 0, p.plane + 1⟩
    else ⟨0, p.die + 1, p.plane⟩
  else ⟨p.chn + 1, p.die, p.plane⟩

/-- The loop over the pages of one block, for the pages that are left. -/
def find_in_block (s : Ftl) (i_ppa : Ppa) : Nat → Option Ppa
  | 0 => none
  | n + 1 =>
    if is_free_ppa g s i_ppa then some i_ppa
    else find_in_block s { i_ppa with page := i_ppa.page + 1 } n

/-- The first page of the next block. The index one past the last block is
reached before it goes back to 0. -/
def next_block (i_ppa : Ppa) : Ppa :=
  { i_ppa with
    block := if i_ppa.block + 1 > g.nand_blocks_per_plane then 0 else i_ppa.block + 1
    page := 0 }

/-- The loop over the blocks of one plane: the free page, or the address where
the loop ended. -/
def find_in_plane (s : Ftl) (i_ppa : Ppa) : Nat → Except Ppa Ppa
  | 0 => .error i_ppa
  | n + 1 =>
    match find_in_block g s i_ppa (g.nand_pages_per_block - i_ppa.page) with
    | some x => .ok x
    | none => find_in_plane s (next_block g i_ppa) n

def find_free_page (s : Ftl) : Option Ppa × Ftl :=
  let p := next_plane g s.last_searched_channel.planeOf
  match find_in_plane g s (s.last_page_per_plane p) g.nand_blocks_per_plane with
  | .ok new_ppa =>
    let i_ppa := { new_ppa with page := new_ppa.page + 1 }
    (some new_ppa,
      { s with
        ftl_config := { s.ftl_config with last_selected_ppa := i_ppa }
        last_searched_channel := i_ppa
        last_page_per_plane := Function.update s.last_page_per_plane i_ppa.planeOf i_ppa })
  | .error i_ppa => (none, { s with last_searched_channel := i_ppa })

/-- `get_free_ppa` calls `find_free_page` until it finds a page. `none`: it did
not find one in the given number of calls. -/
def get_free_ppa (s : Ftl) : Nat → Option (Ppa × Ftl)
  | 0 => none
  | n + 1 =>
    match find_free_page g s with
    | (some new_ppa, s') => some (new_ppa, s')
    | (none, s') => get_free_ppa s' n

/-! ## make_new_mapping -/

/-- `make_new_mapping` after it has its new page. -/
def map_new_page (lpn : Nat) (new_ppa : Ppa) (s : Ftl) : Ftl :=
  if s.is_unmapped_lpa lpn then
    (((s.map_lpa_and_ppa lpn new_ppa).inc_valid_pages new_ppa).incTotalValid).decTotalFree
  else
    let current_mapped_ppa := s.lpa_table lpn
    let s := ((s.set_invalid_ppa current_mapped_ppa).inc_invalid_pages
      current_mapped_ppa).dec_valid_pages current_mapped_ppa
    (((s.map_lpa_and_ppa lpn new_ppa).inc_valid_pages new_ppa).incTotalInvalid).decTotalFree

/-- A call that visits each plane once and finds no page never finds one, so
`none` is a call that does not return. -/
def make_new_mapping (s : Ftl) (lpn : Nat) : Option (Ppa × Ftl) :=
  match get_free_ppa g s g.total_num_of_planes with
  | none => none
  | some (new_ppa, s) => some (new_ppa, map_new_page lpn new_ppa s)

/-! ## store_mapping_tables -/

/-- The body of the reservation loop, after it has its page. -/
def reserve_page (i : Nat) (free_page : Ppa) (s : Ftl) : Ftl :=
  let s := { s with ftl_config := { s.ftl_config with
    mapping_tables := Function.update s.ftl_config.mapping_tables i free_page } }
  ((s.set_invalid_ppa free_page).inc_invalid_pages free_page).dec_valid_pages free_page

/-- The loop that takes pages for the mapping tables, from entry `i`, for the
entries that are left. -/
def reserve_pages (s : Ftl) (i : Nat) : Nat → Option Ftl
  | 0 => some s
  | n + 1 =>
    match get_free_ppa g s g.total_num_of_planes with
    | none => none
    | some (free_page, s) => reserve_pages (reserve_page i free_page s) (i + 1) n

/-- What one page program of `store_mapping_tables` writes: the bytes of the
mapping tables from an offset, the rest of the page zero, or one of the pages
of the configuration. -/
inductive StoredPage
  | tables (offset len : Nat)
  | config (page : Nat)
  deriving DecidableEq, Repr

/-- The loop that programs the mapping tables, page `current_pg_index` next.
Each turn takes at least one byte, so `bytes_remaining` turns are enough. -/
def program_tables (mapping_tables : Nat → Ppa) (current_pg_index bytes_remaining : Nat) :
    Nat → List (Ppa × StoredPage)
  | 0 => []
  | n + 1 =>
    if bytes_remaining = 0 then []
    else
      let current_data_len := min bytes_remaining g.nandPageBytes
      (mapping_tables current_pg_index,
        .tables (current_pg_index * g.nandPageBytes) current_data_len) ::
      program_tables mapping_tables (current_pg_index + 1) (bytes_remaining - current_data_len) n

/-- The pages of the configuration, "first n(3) page in flash". -/
def config_pages : List Ppa :=
  [first_page, { first_page with page := 1 }, { first_page with page := 2 }]

/-- The page programs of `store_mapping_tables`, in order. -/
def store_programs (s : Ftl) : List (Ppa × StoredPage) :=
  program_tables g s.ftl_config.mapping_tables 0 g.mapping_table_bytes g.mapping_table_bytes ++
    config_pages.zipIdx.map fun (x, k) => (x, .config k)

/-- The memory after `store_mapping_tables`. -/
def store_mapping_tables (s : Ftl) : Option Ftl :=
  reserve_pages g s 0 s.ftl_config.rpp_map_tables

/-! ## Runs of the FTL -/

/-- The calls that change the tables. Each LPN is inside `lpa_table`. -/
inductive FtlOp
  | make_new_mapping (lpn : Fin g.total_num_of_pages)
  | store_mapping_tables

variable {g}

/-- One call. `none`: it does not return. -/
def ftlStep (s : Ftl) : FtlOp g → Option Ftl
  | .make_new_mapping lpn => (make_new_mapping g s lpn).map Prod.snd
  | .store_mapping_tables => store_mapping_tables g s

end S4Sim
