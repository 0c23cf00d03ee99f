-- The tables over a power cycle, byte by byte. `store_mapping_tables` writes the
-- section of the tables one page at a time, and then `ftl_config_t` to the first three
-- pages of the flash. `restore_mapping_tables` reads the configuration back, and with
-- it the section, 64 KB at a time. The operation objects of the page programs are taken as
-- fresh; Firmware/OperationObjects.lean has their pools.
import S4Sim.Ftl.ConfigPages
import S4Sim.Ftl.FreePageSearch
import S4Sim.Lib.LittleEndian
import S4Sim.Lib.Window

open Digits LittleEndian Windows

namespace S4Sim

/-! ## ftl_config_t in memory -/

/-- The eight bytes of a `ppa_t`. -/
def Ppa.byte (x : Ppa) : Nat → UInt8
  | 0 => byteOf x.page 0
  | 1 => byteOf x.page 1
  | 2 => byteOf x.block 0
  | 3 => byteOf x.block 1
  | 4 => byteOf x.plane 0
  | 5 => byteOf x.die 0
  | 6 => byteOf x.chn 0
  | _ => 0

/-- The fields before `last_selected_ppa`, of 32 bits each. -/
def FtlConfig.words (c : FtlConfig) : List Nat :=
  [c.nand_ds, c.host_ds, c.pages_per_block, c.total_pages, c.rpp_ovp, c.rpp_map_tables,
    c.total_rpp, c.total_logical_pages, c.total_invalid_pages, c.total_valid_pages,
    c.total_free_pages]

def SIZEOF_FTL_CONFIG : Nat := 52 + 8 * MAPPING_TABLES_ENTRIES

def FtlConfig.byte (c : FtlConfig) (i : Nat) : UInt8 :=
  if i < 44 then byteOf (c.words.getD (i / 4) 0) (i % 4)
  else if i < 52 then c.last_selected_ppa.byte (i - 44)
  else (c.mapping_tables ((i - 52) / 8)).byte ((i - 52) % 8)

/-- The `ppa_t` at an address. -/
def ppaAt (m : Nat → UInt8) (addr : Nat) : Ppa where
  chn := wordAt m (addr + 6) 1
  die := wordAt m (addr + 5) 1
  plane := wordAt m (addr + 4) 1
  block := wordAt m (addr + 2) 2
  page := wordAt m addr 2

/-- `ftl_config.nand_ds` in the bytes of a configuration. -/
def nandDsIn (config : Nat → UInt8) : Nat := wordAt config 0 4

/-- `ftl_config.mapping_tables` in the bytes of a configuration. -/
def mappingTablesIn (config : Nat → UInt8) (i : Nat) : Ppa := ppaAt config (52 + 8 * i)

/-! ## The flash -/

/-- The place of a page in the flash: the pages of a plane are in a row, and so are the
planes of a die, the dies of a channel and the channels. -/
def Geometry.flashPage (g : Geometry) (x : Ppa) : Nat :=
  g.pages_per_plane * (g.nand_planes_per_die * (g.dies_per_channel * x.chn + x.die) + x.plane) +
    g.offset x

section Save

variable (g : Geometry)

/-- What a store writes: the flash, page by page, and its page buffer. -/
structure StoreMemory where
  flash : Nat → Nat → UInt8
  private_pg_buff : Nat → UInt8

/-- One page program of `store_mapping_tables`. The buffer is zeroed behind the last bytes of
the tables. The configuration is copied once, before its three pages; the copies of the
second and the third page change nothing. -/
def program_page (tables config : Nat → UInt8) (m : StoreMemory) : Ppa × StoredPage → StoreMemory
  | (x, .tables offset len) =>
    let zeroed := writeWindow m.private_pg_buff len (g.nandPageBytes - len) fun _ => 0
    let buffer_addr := writeWindow zeroed 0 len fun i => tables (offset + i)
    ⟨Function.update m.flash (g.flashPage x) buffer_addr, buffer_addr⟩
  | (x, .config page) =>
    let buffer_addr := writeWindow m.private_pg_buff 0 SIZEOF_FTL_CONFIG config
    ⟨Function.update m.flash (g.flashPage x) fun i => buffer_addr (page * g.nandPageBytes + i),
      buffer_addr⟩

/-- The flash after the page programs of a store. `tables` are the bytes of the section of
the mapping tables after the pages were reserved. -/
def program_pages (tables : Nat → UInt8) (s : Ftl) (m : StoreMemory) : StoreMemory :=
  (store_programs g s).foldl (program_page g tables s.ftl_config.byte) m

end Save

/-! ## restore_mapping_tables -/

def load_mp_buffer_size : Nat := 2 ^ 16

section Restore

variable (g : Geometry) (flash : Nat → Nat → UInt8)

def load_mp_buffer_pages : Nat := 2 ^ 16 / g.nandPageBytes

/-- Reads the first `n` of the pages into the buffer, one behind the other. -/
def read_pages (pages : Nat → Ppa) (buffer_addr : Nat → UInt8) : Nat → Nat → UInt8
  | 0 => buffer_addr
  | n + 1 =>
    writeWindow (read_pages pages buffer_addr n) (n * g.nandPageBytes) g.nandPageBytes
      (flash (g.flashPage (pages n)))

/-- The bytes and the pages of one turn of the loop over the tables. -/
def chunk (bytes_remaining : Nat) : Nat × Nat :=
  if bytes_remaining < load_mp_buffer_size then
    let current_page_count := bytes_remaining / g.nandPageBytes
    (bytes_remaining,
      if current_page_count * g.nandPageBytes < bytes_remaining then current_page_count + 1
      else current_page_count)
  else (load_mp_buffer_size, load_mp_buffer_pages g)

/-- The loop that reads the tables. Each turn copies at least one byte, so
`bytes_remaining` turns are enough. -/
def load_tables (mapping_tables : Nat → Ppa) (current_pg_index current_map_tables_addr
    bytes_remaining : Nat) (buffer_addr tables : Nat → UInt8) : Nat → Nat → UInt8
  | 0 => tables
  | n + 1 =>
    if bytes_remaining = 0 then tables
    else
      let (current_data_len, current_page_count) := chunk g bytes_remaining
      let buffer_addr := read_pages g flash (fun i => mapping_tables (current_pg_index + i))
        buffer_addr current_page_count
      load_tables mapping_tables (current_pg_index + current_page_count)
        (current_map_tables_addr + current_data_len) (bytes_remaining - current_data_len)
        buffer_addr (writeWindow tables current_map_tables_addr current_data_len buffer_addr) n

/-- The RAM of the FTL: the section of the tables, `ftl_config`, and the two buffers. -/
structure FtlRam where
  tables : Nat → UInt8
  config : Nat → UInt8
  ZERO_BUFFER : Nat → UInt8
  load_mp_buffer : Nat → UInt8

def restore_mapping_tables (r : FtlRam) : FtlRam :=
  let buffer_addr := read_pages g flash (fun i => { first_page with page := i }) r.load_mp_buffer 3
  let config := writeWindow r.config 0 SIZEOF_FTL_CONFIG buffer_addr
  { r with
    config
    tables := load_tables g flash (mappingTablesIn config) 0 0 g.mapping_table_bytes buffer_addr
      r.tables g.mapping_table_bytes }

/-- `initialize_ftl` up to its two branches. `none`: the flash holds no configuration, so
the media is new. -/
def load_media (r : FtlRam) : Option FtlRam :=
  let buffer := writeWindow r.ZERO_BUFFER 0 g.nandPageBytes (flash (g.flashPage first_page))
  let config := writeWindow r.config 0 SIZEOF_FTL_CONFIG buffer
  if nandDsIn config < 9 then none
  else
    some (restore_mapping_tables g flash
      { r with config, ZERO_BUFFER := writeWindow buffer 0 g.nandPageBytes fun _ => 0 })

end Restore

variable {g : Geometry} {flash : Nat → Nat → UInt8} {s s' : Ftl} {x y : Ppa} {i n : Nat}

/-! ## The configuration is read as it was written -/

theorem ppaAt_eq {m : Nat → UInt8} {addr : Nat} (hx : g.HasPage x)
    (h : ∀ i < 8, m (addr + i) = x.byte i) : ppaAt m addr = x := by
  obtain ⟨hchn, hdie, hplane, hblock, hpage⟩ := hx
  have hchn_le := g.chn_le
  have hdies_le : g.dies_per_channel ≤ 256 := g.dies_le
  have hplanes_le := g.planes_le
  have hblocks_lt := g.blocks_lt
  have hpages_lt := g.pages_lt
  have hbyte : ∀ k < 8, ∀ w, x.byte k = byteOf w 0 → w < 256 → wordAt m (addr + k) 1 = w := by
    intro k hk w hw hlt
    refine wordAt_eq (fun i hi => ?_) (by simpa using hlt)
    obtain rfl : i = 0 := by omega
    rw [Nat.add_zero, h k hk, hw]
  have hhalf : ∀ k, k + 1 < 8 → ∀ w, x.byte k = byteOf w 0 → x.byte (k + 1) = byteOf w 1 →
      w < 65536 → wordAt m (addr + k) 2 = w := by
    intro k hk w h0 h1 hlt
    refine wordAt_eq (fun i hi => ?_) (by simpa using hlt)
    rcases (by omega : i = 0 ∨ i = 1) with rfl | rfl
    · rw [Nat.add_zero, h k (by omega), h0]
    · rw [Nat.add_assoc, h (k + 1) hk, h1]
  cases x
  simp only at hchn hdie hplane hblock hpage
  simp only [ppaAt, Ppa.mk.injEq]
  refine ⟨hbyte 6 (by omega) _ rfl (by omega), hbyte 5 (by omega) _ rfl (by omega),
    hbyte 4 (by omega) _ rfl (by omega), hhalf 2 (by omega) _ rfl rfl (by omega), ?_⟩
  exact hhalf 0 (by omega) _ rfl rfl (by omega)

theorem nandDsIn_eq {m : Nat → UInt8} {c : FtlConfig} (hds : c.nand_ds < 2 ^ 32)
    (h : ∀ i < 4, m i = c.byte i) : nandDsIn m = c.nand_ds := by
  refine wordAt_eq (fun i hi => ?_) hds
  rw [Nat.zero_add, h i hi]
  unfold FtlConfig.byte
  rw [if_pos (by omega), Nat.div_eq_of_lt hi, Nat.mod_eq_of_lt hi]
  rfl

theorem mappingTablesIn_eq {m : Nat → UInt8} {c : FtlConfig}
    (h : ∀ i < SIZEOF_FTL_CONFIG, m i = c.byte i) (hi : i < MAPPING_TABLES_ENTRIES)
    (hpage : g.HasPage (c.mapping_tables i)) : mappingTablesIn m i = c.mapping_tables i := by
  refine ppaAt_eq hpage fun k hk => ?_
  rw [h _ (by unfold SIZEOF_FTL_CONFIG; omega)]
  unfold FtlConfig.byte
  rw [if_neg (by omega), if_neg (by omega), show (52 + 8 * i + k - 52) / 8 = i by omega,
    show (52 + 8 * i + k - 52) % 8 = k by omega]

/-! ## The pages that a store programs -/

theorem Geometry.flashPage_inj (hx : g.HasPage x) (hy : g.HasPage y)
    (h : g.flashPage x = g.flashPage y) : x = y := by
  obtain ⟨-, hdie, hplane, hblock, hpage⟩ := hx
  obtain ⟨-, hdie', hplane', hblock', hpage'⟩ := hy
  have hoff : g.offset x < g.pages_per_plane := by
    unfold offset pages_per_plane
    rw [Nat.mul_comm g.nand_blocks_per_plane]
    exact (digits_lt_iff hpage).mpr hblock
  have hoff' : g.offset y < g.pages_per_plane := by
    unfold offset pages_per_plane
    rw [Nat.mul_comm g.nand_blocks_per_plane]
    exact (digits_lt_iff hpage').mpr hblock'
  obtain ⟨hchip, hoffset⟩ := digits_inj hoff hoff' h
  obtain ⟨hrow, hpl⟩ := digits_inj hplane hplane' hchip
  obtain ⟨hch, hd⟩ := digits_inj hdie hdie' hrow
  obtain ⟨hb, hp⟩ := digits_inj hpage hpage' hoffset
  cases x
  cases y
  simp_all

/-- The configuration lies in pages 0, 1 and 2 of the flash. -/
theorem flashPage_config (g : Geometry) (k : Nat) :
    g.flashPage { first_page with page := k } = k := by
  simp [Geometry.flashPage, Geometry.offset, first_page]

/-- The page holds what the store wrote to it. -/
def HoldsStored (g : Geometry) (tables config bytes : Nat → UInt8) : StoredPage → Prop
  | .tables offset len => ∀ i < len, bytes i = tables (offset + i)
  | .config page => ∀ i, page * g.nandPageBytes + i < SIZEOF_FTL_CONFIG →
    bytes i = config (page * g.nandPageBytes + i)

theorem program_page_holds (tables config : Nat → UInt8) (m : StoreMemory)
    (p : Ppa × StoredPage) :
    HoldsStored g tables config
      ((program_page g tables config m p).flash (g.flashPage p.1)) p.2 := by
  obtain ⟨x, content⟩ := p
  cases content with
  | tables offset len =>
    intro i hi
    simp only [program_page, Function.update_self]
    exact writeWindow_front hi
  | config page =>
    intro i hi
    simp only [program_page, Function.update_self]
    exact writeWindow_front hi

theorem program_page_other (tables config : Nat → UInt8) (m : StoreMemory)
    {p : Ppa × StoredPage} {page : Nat} (h : page ≠ g.flashPage p.1) :
    (program_page g tables config m p).flash page = m.flash page := by
  obtain ⟨x, content⟩ := p
  cases content <;> exact Function.update_of_ne h ..

/-- Programs of different pages leave each page with what was written to it. -/
theorem program_pages_holds {tables config : Nat → UInt8} {m : StoreMemory}
    {programs : List (Ppa × StoredPage)}
    (hnodup : (programs.map fun p => g.flashPage p.1).Nodup) {p : Ppa × StoredPage}
    (hp : p ∈ programs) :
    HoldsStored g tables config
      ((programs.foldl (program_page g tables config) m).flash (g.flashPage p.1)) p.2 := by
  induction programs using List.reverseRecOn with
  | nil => cases hp
  | append_singleton programs q ih =>
    rw [List.map_append, List.nodup_append] at hnodup
    obtain ⟨hpre, -, hlast⟩ := hnodup
    rw [List.foldl_append, List.foldl_cons, List.foldl_nil]
    rcases List.mem_append.mp hp with hp | hp
    · have hne : g.flashPage p.1 ≠ g.flashPage q.1 :=
        hlast _ (List.mem_map_of_mem hp) _ (by simp)
      rw [program_page_other tables config _ hne]
      exact ih hpre hp
    · obtain rfl := List.mem_singleton.mp hp
      exact program_page_holds ..

/-! ## The pages that a restore reads -/

theorem read_pages_byte {pages : Nat → Ppa} {buffer : Nat → UInt8}
    (hi : i < n * g.nandPageBytes) :
    read_pages g flash pages buffer n i =
      flash (g.flashPage (pages (i / g.nandPageBytes))) (i % g.nandPageBytes) := by
  have hpos := g.nandPageBytes_pos
  induction n with
  | zero => omega
  | succ n ih =>
    rw [Nat.succ_mul] at hi
    unfold read_pages
    rcases Nat.lt_or_ge i (n * g.nandPageBytes) with hlt | hge
    · rw [writeWindow_outside (Or.inl hlt), ih hlt]
    · -- The byte is in the last page.
      obtain ⟨k, rfl⟩ := Nat.exists_eq_add_of_le hge
      have hk : k < g.nandPageBytes := by omega
      rw [writeWindow_inside hk, Nat.mul_comm n, digits_div hk, digits_mod hk]

/-- The pages of a turn hold its bytes, and no turn but the last ends inside a page. -/
theorem chunk_spec (hdvd : g.nandPageBytes ∣ load_mp_buffer_size) (bytes : Nat) :
    (chunk g bytes).1 ≤ (chunk g bytes).2 * g.nandPageBytes ∧ (chunk g bytes).1 ≤ bytes ∧
      ((chunk g bytes).1 = (chunk g bytes).2 * g.nandPageBytes ∨ (chunk g bytes).1 = bytes) ∧
      (0 < bytes → 0 < (chunk g bytes).1) := by
  have hpos := g.nandPageBytes_pos
  unfold chunk
  split
  · simp only
    have hmod := Nat.div_add_mod' bytes g.nandPageBytes
    have hlt := Nat.mod_lt bytes hpos
    refine ⟨?_, Nat.le_refl _, Or.inr trivial, fun h => h⟩
    split
    · rw [Nat.succ_mul]
      omega
    · omega
  · rename_i hge
    have hpages : load_mp_buffer_pages g * g.nandPageBytes = load_mp_buffer_size :=
      Nat.div_mul_cancel hdvd
    have : 0 < load_mp_buffer_size := by decide
    exact ⟨hpages.ge, Nat.le_of_not_lt hge, Or.inl hpages.symm, fun _ => this⟩

/-- Page `q` of the tables is in the flash, up to the end of the tables. -/
def TablesIn (g : Geometry) (flash : Nat → Nat → UInt8) (mapping_tables : Nat → Ppa)
    (saved : Nat → UInt8) : Prop :=
  ∀ q k, k < g.nandPageBytes → q * g.nandPageBytes + k < g.mapping_table_bytes →
    flash (g.flashPage (mapping_tables q)) k = saved (q * g.nandPageBytes + k)

/-- The loop leaves the saved bytes from its address on, and the bytes before it as they are. -/
theorem load_tables_spec {mt : Nat → Ppa} {saved buffer tables : Nat → UInt8}
    (hdvd : g.nandPageBytes ∣ load_mp_buffer_size) (hsaved : TablesIn g flash mt saved)
    {q bytes : Nat} (hn : bytes ≤ n)
    (htotal : 0 < bytes → q * g.nandPageBytes + bytes = g.mapping_table_bytes)
    {addr : Nat} (haddr : 0 < bytes → addr = q * g.nandPageBytes) :
    (∀ i, addr ≤ i → i < addr + bytes →
      load_tables g flash mt q addr bytes buffer tables n i = saved i) ∧
    ∀ i < addr, load_tables g flash mt q addr bytes buffer tables n i = tables i := by
  induction n generalizing q addr bytes buffer tables with
  | zero => exact ⟨fun i hle hlt => by omega, fun i _ => rfl⟩
  | succ n ih =>
    unfold load_tables
    split
    · exact ⟨fun i hle hlt => by omega, fun i _ => rfl⟩
    · rename_i hbytes
      have hpos : 0 < bytes := Nat.pos_of_ne_zero hbytes
      have htotal := htotal hpos
      obtain rfl := haddr hpos
      obtain ⟨hcover, hle, hlast, hlen⟩ := chunk_spec hdvd bytes
      have hlen := hlen hpos
      generalize chunk g bytes = turn at hcover hle hlast hlen ⊢
      obtain ⟨len, count⟩ := turn
      simp only at hcover hle hlast hlen ⊢
      -- When a turn ends inside a page, nothing is left.
      have hnext : 0 < bytes - len → (q + count) * g.nandPageBytes = q * g.nandPageBytes + len := by
        intro hmore
        rw [Nat.add_mul]
        omega
      have htotal' : 0 < bytes - len →
          (q + count) * g.nandPageBytes + (bytes - len) = g.mapping_table_bytes := by
        intro hmore
        have := hnext hmore
        omega
      have hleft : bytes - len ≤ n := by omega
      obtain ⟨hrest, hkept⟩ := ih hleft htotal' fun hmore => (hnext hmore).symm
      refine ⟨fun i hge hlt => ?_, fun i hlt => ?_⟩
      · rcases Nat.lt_or_ge i (q * g.nandPageBytes + len) with hin | hout
        · obtain ⟨k, rfl⟩ := Nat.exists_eq_add_of_le hge
          have hk : k < len := by omega
          rw [hkept _ hin, writeWindow_inside hk, read_pages_byte (Nat.lt_of_lt_of_le hk hcover)]
          have hdiv := Nat.div_add_mod' k g.nandPageBytes
          have hpage := hsaved (q + k / g.nandPageBytes) (k % g.nandPageBytes)
            (Nat.mod_lt _ g.nandPageBytes_pos)
          rw [Nat.add_mul, Nat.add_assoc, hdiv] at hpage
          exact hpage (by omega)
        · exact hrest i hout (by omega)
      · rw [hkept i (by omega), writeWindow_outside (Or.inl hlt)]

/-! ## The pages that a store reserves -/

theorem get_free_ppa_free {t : Ftl} (h : get_free_ppa g s n = some (x, t)) :
    g.HasPage x ∧ s.ppa_table x = FREE_PPA ∧ t.ppa_table = s.ppa_table ∧
      t.ftl_config.mapping_tables = s.ftl_config.mapping_tables ∧
      t.ftl_config.nand_ds = s.ftl_config.nand_ds := by
  induction n generalizing s with
  | zero => cases h
  | succ n ih =>
    unfold get_free_ppa at h
    rcases find_free_page_cases g s with ⟨y, hy, he⟩ | ⟨y, -, he⟩
    · rw [he] at h
      cases h
      obtain ⟨hpage, hfree⟩ := is_free_ppa_eq_true.mp (find_in_plane_ok hy).1
      exact ⟨hpage, hfree, rfl, rfl, rfl⟩
    · rw [he] at h
      exact ih (s := { s with last_searched_channel := y }) h

/-- The entries are free pages, and different ones: a page that is reserved is no longer free. -/
theorem reserve_pages_distinct (h : reserve_pages g s i n = some s') :
    (∀ j < n, g.HasPage (s'.ftl_config.mapping_tables (i + j)) ∧
      s.ppa_table (s'.ftl_config.mapping_tables (i + j)) = FREE_PPA) ∧
    (∀ j < n, ∀ k < n, s'.ftl_config.mapping_tables (i + j) =
      s'.ftl_config.mapping_tables (i + k) → j = k) ∧
    (∀ k < i, s'.ftl_config.mapping_tables k = s.ftl_config.mapping_tables k) ∧
    s'.ftl_config.nand_ds = s.ftl_config.nand_ds := by
  induction n generalizing s i with
  | zero =>
    cases h
    exact ⟨fun j hj => by omega, fun j hj => by omega, fun k _ => rfl, rfl⟩
  | succ n ih =>
    unfold reserve_pages at h
    split at h
    · cases h
    · rename_i x t hget
      obtain ⟨hpage, hfree, hwords, htables, hds⟩ := get_free_ppa_free hget
      obtain ⟨hentries, hinj, hkept, hds'⟩ := ih h
      have hself : s'.ftl_config.mapping_tables i = x := by
        rw [hkept i (by omega), reserve_page_mapping_tables, Function.update_self]
      have hlater : ∀ j < n, g.HasPage (s'.ftl_config.mapping_tables (i + (j + 1))) ∧
          s'.ftl_config.mapping_tables (i + (j + 1)) ≠ x ∧
          s.ppa_table (s'.ftl_config.mapping_tables (i + (j + 1))) = FREE_PPA := by
        intro j hj
        obtain ⟨hp, hw⟩ := hentries j hj
        rw [show i + 1 + j = i + (j + 1) by omega] at hp hw
        rw [reserve_page_ppa_table, hwords] at hw
        have hne : s'.ftl_config.mapping_tables (i + (j + 1)) ≠ x := by
          intro he
          rw [he, Function.update_self] at hw
          exact absurd hw (by decide)
        rw [Function.update_of_ne hne] at hw
        exact ⟨hp, hne, hw⟩
      refine ⟨?_, ?_, ?_, hds'.trans hds⟩
      · intro j hj
        cases j with
        | zero =>
          rw [Nat.add_zero, hself]
          exact ⟨hpage, hfree⟩
        | succ j =>
          obtain ⟨hp, -, hw⟩ := hlater j (by omega)
          exact ⟨hp, hw⟩
      · intro j hj k hk he
        cases j with
        | zero =>
          cases k with
          | zero => rfl
          | succ k => exact absurd (he.symm.trans hself) (hlater k (by omega)).2.1
        | succ j =>
          cases k with
          | zero => exact absurd (he.trans hself) (hlater j (by omega)).2.1
          | succ k =>
            rw [show i + (j + 1) = i + 1 + j by omega, show i + (k + 1) = i + 1 + k by omega] at he
            rw [hinj j (by omega) k (by omega) he]
      · intro k hk
        rw [hkept k (by omega), reserve_page_mapping_tables, Function.update_of_ne (by omega),
          htables]

/-- Page `q` of the tables is one of the programs of a store. -/
theorem mem_program_tables (mt : Nat → Ppa) {q bytes : Nat} (hn : bytes ≤ n)
    (hq : q * g.nandPageBytes < bytes) :
    (mt (i + q), .tables ((i + q) * g.nandPageBytes)
      (min (bytes - q * g.nandPageBytes) g.nandPageBytes)) ∈ program_tables g mt i bytes n := by
  have hpos := g.nandPageBytes_pos
  induction n generalizing i q bytes with
  | zero => omega
  | succ n ih =>
    unfold program_tables
    rw [if_neg (by omega)]
    cases q with
    | zero =>
      rw [Nat.add_zero, Nat.zero_mul, Nat.sub_zero]
      exact List.mem_cons_self
    | succ q =>
      rw [Nat.succ_mul] at hq ⊢
      have hmin : min bytes g.nandPageBytes = g.nandPageBytes := Nat.min_eq_right (by omega)
      have hfewer : bytes - g.nandPageBytes ≤ n := by omega
      have := ih (i := i + 1) (q := q) hfewer (by omega)
      rw [show i + 1 + q = i + (q + 1) by omega,
        show bytes - g.nandPageBytes - q * g.nandPageBytes =
          bytes - (q * g.nandPageBytes + g.nandPageBytes) by omega] at this
      rw [hmin]
      exact List.mem_cons_of_mem _ this

/-! ## The law -/

/-- The build has a page size for which the configuration fits its three pages, and these
the buffer of the restore. -/
structure SavedPagesFit (g : Geometry) : Prop where
  config : SIZEOF_FTL_CONFIG ≤ 3 * g.nandPageBytes
  page : g.nandPageBytes ≤ 16384

theorem SavedPagesFit.dvd (h : SavedPagesFit g) : g.nandPageBytes ∣ load_mp_buffer_size := by
  have hle : 2 ^ g.nand_page_size ≤ 2 ^ 14 := h.page
  have := (Nat.pow_le_pow_iff_right (by decide)).mp hle
  exact Nat.pow_dvd_pow 2 (by omega)

/-- The flash holds the configuration in its first three pages, and the tables in the pages
that the configuration names. -/
structure FlashHolds (g : Geometry) (flash : Nat → Nat → UInt8) (c : FtlConfig)
    (tables : Nat → UInt8) : Prop where
  config : ∀ page < 3, ∀ k, page * g.nandPageBytes + k < SIZEOF_FTL_CONFIG →
    flash page k = c.byte (page * g.nandPageBytes + k)
  tables : TablesIn g flash c.mapping_tables tables
  entries : ∀ i < g.mapping_table_bytes / g.nandPageBytes + 1, g.HasPage (c.mapping_tables i)

/-- The configuration is read back. -/
theorem FlashHolds.restore_config {c : FtlConfig} {tables old buffer : Nat → UInt8}
    (h : FlashHolds g flash c tables) (hfits : SavedPagesFit g) (hi : i < SIZEOF_FTL_CONFIG) :
    writeWindow old 0 SIZEOF_FTL_CONFIG
      (read_pages g flash (fun i => { first_page with page := i }) buffer 3) i = c.byte i := by
  have hlt : i < 3 * g.nandPageBytes := Nat.lt_of_lt_of_le hi hfits.config
  rw [writeWindow_front hi, read_pages_byte hlt, flashPage_config]
  have hdiv := Nat.div_add_mod' i g.nandPageBytes
  have hpage := h.config (i / g.nandPageBytes)
    ((Nat.div_lt_iff_lt_mul g.nandPageBytes_pos).mpr hlt) (i % g.nandPageBytes)
  rw [hdiv] at hpage
  exact hpage hi

/-- With it, the pages of the tables are found. -/
theorem FlashHolds.tablesIn {c : FtlConfig} {config tables : Nat → UInt8}
    (h : FlashHolds g flash c tables) (hconfig : ∀ i < SIZEOF_FTL_CONFIG, config i = c.byte i) :
    TablesIn g flash (mappingTablesIn config) tables := by
  intro q k hk hlt
  have hq : q < g.mapping_table_bytes / g.nandPageBytes + 1 :=
    Nat.lt_succ_of_le ((Nat.le_div_iff_mul_le g.nandPageBytes_pos).mpr (by omega))
  have hfit : q < MAPPING_TABLES_ENTRIES := Nat.lt_of_lt_of_le hq g.tables_fit
  rw [mappingTablesIn_eq hconfig hfit (h.entries q hq)]
  exact h.tables q k hk hlt

/-- The first page begins with `nand_ds`. -/
theorem FlashHolds.nand_ds {c : FtlConfig} {tables old buffer : Nat → UInt8}
    (h : FlashHolds g flash c tables) (hfits : SavedPagesFit g) (hds : c.nand_ds < 2 ^ 32) :
    nandDsIn (writeWindow old 0 SIZEOF_FTL_CONFIG (writeWindow buffer 0 g.nandPageBytes
      (flash (g.flashPage first_page)))) = c.nand_ds := by
  have hconfig := hfits.config
  have hsize : SIZEOF_FTL_CONFIG = 9844 := rfl
  refine nandDsIn_eq hds fun i hi => ?_
  have hpage := h.config 0 (by omega) i (by omega)
  rw [Nat.zero_mul, Nat.zero_add] at hpage
  rw [writeWindow_front (by omega), writeWindow_front (by omega),
    show g.flashPage first_page = 0 from flashPage_config g 0, hpage]

/-- What the flash holds is loaded. -/
theorem FlashHolds.load {c : FtlConfig} {tables : Nat → UInt8} (h : FlashHolds g flash c tables)
    (hfits : SavedPagesFit g) (hds : 9 ≤ c.nand_ds) (hds_lt : c.nand_ds < 2 ^ 32) (r : FtlRam) :
    ∃ r', load_media g flash r = some r' ∧ (∀ i < g.mapping_table_bytes, r'.tables i = tables i) ∧
      ∀ i < SIZEOF_FTL_CONFIG, r'.config i = c.byte i := by
  unfold load_media
  simp only [h.nand_ds hfits hds_lt]
  rw [if_neg (by omega)]
  refine ⟨_, rfl, fun i hi => ?_, fun i hi => h.restore_config hfits hi⟩
  exact (load_tables_spec hfits.dvd (h.tablesIn fun i hi => h.restore_config hfits hi)
    (Nat.le_refl _) (by omega) (by omega)).1 i (Nat.zero_le _) (by omega)

/-- The page programs of a store go to different pages of the flash. -/
theorem store_programs_nodup (hrpp : s.ftl_config.rpp_map_tables =
      g.mapping_table_bytes / g.nandPageBytes + 1)
    (hstore : store_mapping_tables g s = some s')
    (hfirst : ∀ i < s.ftl_config.rpp_map_tables,
      3 ≤ g.flashPage (s'.ftl_config.mapping_tables i)) :
    ((store_programs g s').map fun p => g.flashPage p.1).Nodup := by
  obtain ⟨hentries, hinj, -, -⟩ := reserve_pages_distinct hstore
  simp only [Nat.zero_add] at hentries hinj
  obtain ⟨c, hc, htargets, -⟩ := program_tables_targets (g := g)
    s'.ftl_config.mapping_tables 0 g.mapping_table_bytes g.mapping_table_bytes
  have hcle : c ≤ s.ftl_config.rpp_map_tables := by
    rw [hrpp]
    exact le_entries g.nandPageBytes_pos hc
  have htables : (program_tables g s'.ftl_config.mapping_tables 0 g.mapping_table_bytes
      g.mapping_table_bytes).map (fun p => g.flashPage p.1) =
      (List.range' 0 c).map fun j => g.flashPage (s'.ftl_config.mapping_tables j) := by
    have := congrArg (List.map g.flashPage) htargets
    simpa only [List.map_map, Function.comp_def] using this
  have hpages : (store_programs g s').map (fun p => g.flashPage p.1) =
      (List.range' 0 c).map (fun j => g.flashPage (s'.ftl_config.mapping_tables j)) ++
        [0, 1, 2] := by
    unfold store_programs
    rw [List.map_append, htables]
    simp only [config_pages, List.zipIdx_cons, List.zipIdx_nil, List.map_cons, List.map_nil]
    rw [flashPage_config, flashPage_config, flashPage_config]
    rfl
  rw [hpages, List.nodup_append]
  refine ⟨?_, by decide, ?_⟩
  · refine List.Nodup.map_on (fun j hj k hk he => ?_) List.nodup_range'
    have hjc : j < c := by simpa using hj
    have hkc : k < c := by simpa using hk
    refine hinj j (by omega) k (by omega) ?_
    exact Geometry.flashPage_inj (hentries j (by omega)).1 (hentries k (by omega)).1 he
  · rintro page hp _ hpage rfl
    obtain ⟨j, hj, hpj⟩ := List.mem_map.mp hp
    have hjc : j < c := by simpa using hj
    have hge := hfirst j (by omega)
    rw [hpj] at hge
    have hlt : page < 3 := by
      simp only [List.mem_cons, List.not_mem_nil, or_false] at hpage
      omega
    omega

/-- After the page programs the flash holds what they saved. -/
theorem store_flashHolds (hrpp : s.ftl_config.rpp_map_tables =
      g.mapping_table_bytes / g.nandPageBytes + 1)
    (hstore : store_mapping_tables g s = some s')
    (hfirst : ∀ i < s.ftl_config.rpp_map_tables,
      3 ≤ g.flashPage (s'.ftl_config.mapping_tables i))
    (tables : Nat → UInt8) (m : StoreMemory) :
    FlashHolds g (program_pages g tables s' m).flash s'.ftl_config tables := by
  obtain ⟨hentries, -, -, -⟩ := reserve_pages_distinct hstore
  simp only [Nat.zero_add, hrpp] at hentries
  have hholds : ∀ p ∈ store_programs g s', HoldsStored g tables s'.ftl_config.byte
      ((program_pages g tables s' m).flash (g.flashPage p.1)) p.2 := fun p hp =>
    program_pages_holds (store_programs_nodup hrpp hstore hfirst) hp
  refine ⟨?_, ?_, fun i hi => (hentries i hi).1⟩
  · intro page hpage
    have hmem : (({ first_page with page := page }, .config page) : Ppa × StoredPage) ∈
        store_programs g s' := by
      apply List.mem_append_right
      rcases (by omega : page = 0 ∨ page = 1 ∨ page = 2) with rfl | rfl | rfl <;>
        simp [config_pages, first_page]
    have := hholds _ hmem
    rw [flashPage_config] at this
    exact this
  · intro q k hk hlt
    have hmem := mem_program_tables (g := g) s'.ftl_config.mapping_tables (i := 0) (q := q)
      (Nat.le_refl g.mapping_table_bytes) (by omega)
    rw [Nat.zero_add] at hmem
    exact hholds _ (List.mem_append_left _ hmem) k (by omega)

/-- After a store that takes none of the first three pages of the flash, a power cycle
that loses the RAM and `initialize_ftl`, the tables and `ftl_config` are byte for byte what they
were when the store ended. `layout` gives the bytes of the section of the tables; `m` is what
the flash and the page buffer were before the store, `r` is the RAM after the power cycle. -/
theorem the_tables_survive_a_power_cycle (layout : Ftl → Nat → UInt8) (hfits : SavedPagesFit g)
    (hds : 9 ≤ s.ftl_config.nand_ds) (hds_lt : s.ftl_config.nand_ds < 2 ^ 32)
    (hrpp : s.ftl_config.rpp_map_tables = g.mapping_table_bytes / g.nandPageBytes + 1)
    (hstore : store_mapping_tables g s = some s')
    (hfirst : ∀ i < s.ftl_config.rpp_map_tables, 3 ≤ g.flashPage (s'.ftl_config.mapping_tables i))
    (m : StoreMemory) (r : FtlRam) :
    ∃ r', load_media g (program_pages g (layout s') s' m).flash r = some r' ∧
      (∀ i < g.mapping_table_bytes, r'.tables i = layout s' i) ∧
      ∀ i < SIZEOF_FTL_CONFIG, r'.config i = s'.ftl_config.byte i := by
  obtain ⟨-, -, -, hkeeps⟩ := reserve_pages_distinct hstore
  have hholds := store_flashHolds hrpp hstore hfirst (layout s') m
  exact hholds.load hfits (hkeeps ▸ hds) (hkeeps ▸ hds_lt) r

/-- Four LPNs are mapped, and the store takes pages 8 and 3 of the flash. -/
theorem the_tables_survive_a_power_cycle_after_four_mappings :
    ∃ s s' : Ftl,
      Runs.run ftlStep (initialize_ftl twoChannels)
        (List.replicate 4 (.make_new_mapping (g := twoChannels) ⟨0, by decide⟩)) = some s ∧
      store_mapping_tables twoChannels s = some s' ∧
      ∃ r', load_media twoChannels (program_pages twoChannels UInt8.ofNat s'
          ⟨fun _ _ => 0xFF, fun _ => 1⟩).flash
          ⟨fun _ => 0, fun _ => 0, fun _ => 0, fun _ => 0⟩ = some r' ∧
        (∀ i < twoChannels.mapping_table_bytes, r'.tables i = UInt8.ofNat i) ∧
        ∀ i < SIZEOF_FTL_CONFIG, r'.config i = s'.ftl_config.byte i := by
  obtain ⟨s, hs⟩ := (a_run_returns_while_pages_are_left (g := twoChannels)
    (List.replicate 4 (.make_new_mapping ⟨0, by decide⟩))).mpr (by decide)
  have hgood := run_good hs
  obtain ⟨s', hs'⟩ := ftlStep_returns .store_mapping_tables hgood (by decide)
  refine ⟨s, s', hs, hs', ?_⟩
  have hds : s.ftl_config.nand_ds = 12 := by
    cases hs
    rfl
  have hfits : SavedPagesFit twoChannels := ⟨by decide, by decide⟩
  refine the_tables_survive_a_power_cycle (fun _ => UInt8.ofNat) hfits (by omega) (by omega)
    hgood.rpp hs' ?_ _ _
  obtain ⟨hentries, -⟩ := reserve_pages_entries hgood hs'
  intro i hi
  obtain ⟨hpage, hnum⟩ := hentries i hi
  rw [Nat.zero_add] at hpage hnum
  rw [hgood.rpp] at hi
  have hi : i < 2 := hi
  rcases (by omega : i = 0 ∨ i = 1) with rfl | rfl
  · rw [Geometry.number_inj (y := ⟨1, 0, 0, 0, 2⟩) hpage (by decide) (hnum.trans (by decide))]
    decide
  · rw [Geometry.number_inj (y := ⟨0, 0, 0, 1, 0⟩) hpage (by decide) (hnum.trans (by decide))]
    decide

end S4Sim
