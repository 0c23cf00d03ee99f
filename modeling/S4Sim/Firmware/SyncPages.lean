-- The synchronous page operations of the equal-page build, from equal.pages.c and
-- low_level_nand_io.c, which an applet calls. The mapping is switched page by page, and the
-- transfer of the pages is put off to the end. Until then they are in an operation object,
-- which holds 128 of them. Nobody looks at what `add_program_op_page` returns without room.
import S4Sim.Firmware.OperationObjects
import S4Sim.Firmware.State
import S4Sim.Ftl.Capacity
import S4Sim.Ftl.MappingTables

open Runs Windows

namespace S4Sim

/-! ## The pages of an operation object -/

/-- One element of `pages`. -/
structure OpPage where
  ppa : Ppa
  ssd_addr : Nat
  deriving DecidableEq, Repr

/-- The size of `pages`. -/
def OP_PAGES : Nat := 128

/-- The body of the next two functions: the number of pages, or 0 without room. -/
def add_op_page (pages : List OpPage) (ppa : Ppa) (ssd_addr : Nat) : Nat × List OpPage :=
  if pages.length ≥ OP_PAGES then (0, pages)
  else (pages.length + 1, pages ++ [⟨ppa, ssd_addr⟩])

def add_read_op_page (pages : List OpPage) (ppa : Ppa) (ssd_addr : Nat) : Nat × List OpPage :=
  add_op_page pages ppa ssd_addr

def add_program_op_page (pages : List OpPage) (ppa : Ppa) (ssd_addr : Nat) : Nat × List OpPage :=
  add_op_page pages ppa ssd_addr

/-- What the page operations work on. `ram` is the memory of the SSD. -/
structure PageStore where
  ftl : Ftl
  flash : Ppa → Nat → UInt8
  ram : Nat → UInt8
  op_objs : OpObjs

namespace PageStore

variable (m : PageStore)

/-- The body of the next two functions. `none`: they write to a null pointer. -/
def begin_op (req_type : Nat) : Option (OpPtr × PageStore) :=
  let (op, op_objs) := m.op_objs.malloc_op_obj req_type
  op.map fun op => (op, { m with op_objs })

def begin_read_op : Option (OpPtr × PageStore) := m.begin_op FLASH_READ_OPERATION

def begin_program_op : Option (OpPtr × PageStore) := m.begin_op FLASH_PROGRAM_OPERATION

variable (c : Config)

/-- `__do_sync_flash_read`, when the controllers have done all pages. -/
def do_sync_flash_read (pages : List OpPage) : PageStore :=
  { m with
    ram := pages.foldl (fun ram p => writeWindow ram p.ssd_addr c.pageBytes (m.flash p.ppa)) m.ram }

/-- `__do_sync_flash_program`, when the controllers have done all pages. -/
def do_sync_flash_program (pages : List OpPage) : PageStore :=
  { m with
    flash := pages.foldl
      (fun flash p => Function.update flash p.ppa fun i => m.ram (p.ssd_addr + i)) m.flash }

def sync_end_read_op (rop : OpPtr) (pages : List OpPage) : PageStore :=
  { m.do_sync_flash_read c pages with op_objs := m.op_objs.free_op_obj rop }

def sync_end_program_op (pop : OpPtr) (pages : List OpPage) : PageStore :=
  { m.do_sync_flash_program pages with op_objs := m.op_objs.free_op_obj pop }

/-! ## The loops over the pages -/

/-- `lpg_buffer + ( lpn_index << HOST_DS )` -/
def pageAddr (lpg_buffer lpn_index : Nat) : Nat :=
  (lpg_buffer + lpn_index * c.pageBytes % 2 ^ 32) % 2 ^ 32

/-- The loop of `__sync_program_pages`, for the pages that are left. `none`: the LPN is outside
`lpa_table`, or no free page is found. -/
def program_turns (lpg_buffer : Nat) :
    Nat → (lpn_index lpn : Nat) → PageStore → List OpPage → Option (PageStore × List OpPage)
  | 0, _, _, m, pages => some (m, pages)
  | n + 1, lpn_index, lpn, m, pages =>
    if lpn < c.g.total_num_of_pages then
      (make_new_mapping c.g m.ftl lpn).bind fun (new_ppa, ftl) =>
        program_turns lpg_buffer n (lpn_index + 1) ((lpn + 1) % 2 ^ 32) { m with ftl }
          (add_program_op_page pages new_ppa (pageAddr c lpg_buffer lpn_index)).2
    else none

/-- `__sync_program_pages`: what it returns, and the memory after it. -/
def sync_program_pages (start_lpn num_of_lpg lpg_buffer : Nat) : Option (Nat × PageStore) :=
  m.begin_program_op.bind fun (pop, m) =>
    (program_turns c lpg_buffer num_of_lpg 0 start_lpn m []).map fun (m, pages) =>
      (num_of_lpg, m.sync_end_program_op pop pages)

/-- The loop of `__sync_read_pages`. A page that is not mapped is zeroed at once. -/
def read_turns (lpg_buffer : Nat) :
    Nat → (lpn_index lpn : Nat) → PageStore → List OpPage → Option (PageStore × List OpPage)
  | 0, _, _, m, pages => some (m, pages)
  | n + 1, lpn_index, lpn, m, pages =>
    let ssd_addr := pageAddr c lpg_buffer lpn_index
    if lpn < c.g.total_num_of_pages then
      if m.ftl.is_unmapped_lpa lpn then
        read_turns lpg_buffer n (lpn_index + 1) ((lpn + 1) % 2 ^ 32)
          { m with ram := writeWindow m.ram ssd_addr (4 * (c.pageBytes / 4)) fun _ => 0 } pages
      else
        read_turns lpg_buffer n (lpn_index + 1) ((lpn + 1) % 2 ^ 32) m
          (add_read_op_page pages (m.ftl.lpa_table lpn) ssd_addr).2
    else none

/-- `__sync_read_pages` -/
def sync_read_pages (start_lpn num_of_lpg lpg_buffer : Nat) : Option (Nat × PageStore) :=
  m.begin_read_op.bind fun (rop, m) =>
    (read_turns c lpg_buffer num_of_lpg 0 start_lpn m []).map fun (m, pages) =>
      (num_of_lpg, m.sync_end_read_op c rop pages)

/-! ## The property -/

/-- What a page reads as: zeros, or its flash page. -/
def stored (lpn i : Nat) : UInt8 :=
  if m.ftl.is_unmapped_lpa lpn then 0 else m.flash (m.ftl.lpa_table lpn) i

/-- Pages that are programmed and read again are the same ones, or the program fails and leaves
the mapping when they are too many. The other pages read as before. -/
def ReadBack (start_lpn num_of_lpg lpg_buffer read_buffer : Nat) : Prop :=
  ∃ status t status' u,
    m.sync_program_pages c start_lpn num_of_lpg lpg_buffer = some (status, t) ∧
    t.sync_read_pages c start_lpn num_of_lpg read_buffer = some (status', u) ∧
    ((∀ i < num_of_lpg * c.pageBytes, u.ram (read_buffer + i) = m.ram (lpg_buffer + i)) ∨
      (num_of_lpg > OP_PAGES ∧ status ≠ num_of_lpg ∧ t.ftl.lpa_table = m.ftl.lpa_table)) ∧
    ∀ lpn < c.g.total_num_of_pages, (lpn < start_lpn ∨ start_lpn + num_of_lpg ≤ lpn) →
      ∀ i < c.pageBytes, u.stored lpn i = m.stored lpn i

/-- A program operation gets an object, and a read operation after it. -/
def ObjectsGiven : Prop :=
  ∃ pop, (m.op_objs.malloc_op_obj FLASH_PROGRAM_OPERATION).1 = some pop ∧
    ((((m.op_objs.malloc_op_obj FLASH_PROGRAM_OPERATION).2.free_op_obj pop).malloc_op_obj
      FLASH_READ_OPERATION).1).isSome = true

/-- The pages have room in an operation object, or the others are in the buffer already. -/
def PagesFit (num_of_lpg lpg_buffer read_buffer : Nat) : Prop :=
  num_of_lpg ≤ OP_PAGES ∨ ∀ i, OP_PAGES * c.pageBytes ≤ i → i < num_of_lpg * c.pageBytes →
    m.ram (read_buffer + i) = m.ram (lpg_buffer + i)

/-! ## The objects -/

theorem begin_op_cases {m m' : PageStore} {req_type : Nat} {op : OpPtr}
    (h : m.begin_op req_type = some (op, m')) :
    (m.op_objs.malloc_op_obj req_type).1 = some op ∧
      m' = { m with op_objs := (m.op_objs.malloc_op_obj req_type).2 } := by
  obtain ⟨op', hop, he⟩ := Option.map_eq_some_iff.mp h
  obtain ⟨rfl, rfl⟩ := Prod.mk.inj he
  exact ⟨hop, rfl⟩

/-! ## The pages in the object -/

/-- The pages of a range in an operation object: as many as it has room for. -/
def listed (c : Config) (ftl : Ftl) (start_lpn lpg_buffer n : Nat) : List OpPage :=
  (List.range (min n OP_PAGES)).map fun k =>
    ⟨ftl.lpa_table (start_lpn + k), pageAddr c lpg_buffer k⟩

variable {m : PageStore} {c : Config} {ftl ftl' : Ftl} {start_lpn lpg_buffer n j a : Nat}

theorem add_listed :
    (add_op_page (listed c ftl start_lpn lpg_buffer n) (ftl.lpa_table (start_lpn + n))
      (pageAddr c lpg_buffer n)).2 = listed c ftl start_lpn lpg_buffer (n + 1) := by
  have hlen : (listed c ftl start_lpn lpg_buffer n).length = min n OP_PAGES := by simp [listed]
  unfold add_op_page
  rw [hlen]
  rcases Nat.lt_or_ge n OP_PAGES with hlt | hge
  · rw [if_neg (by omega)]
    unfold listed
    rw [Nat.min_eq_left (Nat.le_of_lt hlt), Nat.min_eq_left hlt, List.range_succ, List.map_append]
    rfl
  · rw [if_pos (by omega)]
    unfold listed
    rw [Nat.min_eq_right hge, Nat.min_eq_right (Nat.le_succ_of_le hge)]

theorem listed_congr (h : ∀ k < n, ftl'.lpa_table (start_lpn + k) = ftl.lpa_table (start_lpn + k)) :
    listed c ftl' start_lpn lpg_buffer n = listed c ftl start_lpn lpg_buffer n := by
  unfold listed
  rw [List.map_inj_left]
  intro k hk
  rw [List.mem_range] at hk
  rw [h k (by omega)]

theorem mem_listed {op : OpPage} : op ∈ listed c ftl start_lpn lpg_buffer n ↔
    ∃ k < min n OP_PAGES,
      (⟨ftl.lpa_table (start_lpn + k), pageAddr c lpg_buffer k⟩ : OpPage) = op := by
  simp [listed]

/-- A page of a buffer that is in the memory. -/
theorem pageAddr_eq (hbuf : lpg_buffer + n * c.pageBytes ≤ 2 ^ 32) {k : Nat} (hk : k < n) :
    pageAddr c lpg_buffer k = lpg_buffer + k * c.pageBytes := by
  have hpos : 0 < c.pageBytes := Nat.two_pow_pos _
  have hmul := Nat.mul_le_mul_right c.pageBytes (Nat.succ_le_of_lt hk)
  rw [Nat.succ_mul] at hmul
  unfold pageAddr
  rw [Nat.mod_eq_of_lt (a := k * c.pageBytes) (by omega), Nat.mod_eq_of_lt (by omega)]

/-! ## Programming -/

/-- The pages of a range are mapped anew, to flash pages from number `a` on. -/
structure Remapped (g : Geometry) (s s' : Ftl) (start_lpn n a : Nat) : Prop where
  inside : ∀ lpn, start_lpn ≤ lpn → lpn < start_lpn + n →
    s'.is_unmapped_lpa lpn = false ∧ a ≤ g.number (s'.lpa_table lpn)
  outside : ∀ lpn, (lpn < start_lpn ∨ start_lpn + n ≤ lpn) → s'.lpa_table lpn = s.lpa_table lpn

theorem program_turns_spec (start_lpn lpg_buffer j : Nat) (h : Good c.g m.ftl a)
    (ha : a + n ≤ c.g.total_num_of_pages)
    (hrange : start_lpn + j + n ≤ c.g.total_num_of_pages) :
    ∃ ftl', program_turns c lpg_buffer n j (start_lpn + j) m
        (listed c m.ftl start_lpn lpg_buffer j) =
          some ({ m with ftl := ftl' }, listed c ftl' start_lpn lpg_buffer (j + n)) ∧
      Good c.g ftl' (a + n) ∧ Remapped c.g m.ftl ftl' (start_lpn + j) n a := by
  induction n generalizing m j a with
  | zero =>
    refine ⟨m.ftl, rfl, h, ?_, fun _ _ => rfl⟩
    intro lpn hle hlt
    omega
  | succ n ih =>
    have htotal := c.g.total_num_of_pages_le
    have hlpn : start_lpn + j < c.g.total_num_of_pages := by omega
    have hone : a + 1 ≤ c.g.total_num_of_pages := by omega
    obtain ⟨s, hs⟩ := ftlStep_returns (.make_new_mapping ⟨start_lpn + j, hlpn⟩) h hone
    obtain ⟨⟨x, s⟩, hmap, rfl⟩ := Option.map_eq_some_iff.mp hs
    obtain ⟨-, hx, hnum, rfl⟩ := make_new_mapping_cases h hmap
    have hgood := good_map_new_page h (by omega) hx hnum hlpn
    generalize hs1 : map_new_page (start_lpn + j) x (m.ftl.advance x) = s1 at hmap hgood
    have htable : s1.lpa_table = Function.update m.ftl.lpa_table (start_lpn + j) x := by
      rw [← hs1, map_new_page_lpa_table, Ftl.advance_lpa_table]
    have hself : s1.lpa_table (start_lpn + j) = x := by rw [htable, Function.update_self]
    have hother : ∀ lpn, lpn ≠ start_lpn + j → s1.lpa_table lpn = m.ftl.lpa_table lpn := by
      intro lpn hne
      rw [htable, Function.update_of_ne hne]
    have hpages : (add_program_op_page (listed c m.ftl start_lpn lpg_buffer j) x
        (pageAddr c lpg_buffer j)).2 = listed c s1 start_lpn lpg_buffer (j + 1) := by
      rw [← add_listed, hself, listed_congr fun k hk => hother _ (by omega)]
      rfl
    obtain ⟨ftl', hturns, hgood', hrest⟩ := ih (m := { m with ftl := s1 }) (j + 1) hgood
      (by omega) (by omega)
    have hnext : (start_lpn + j + 1) % 2 ^ 32 = start_lpn + (j + 1) := by
      rw [Nat.mod_eq_of_lt (by omega), Nat.add_assoc]
    refine ⟨ftl', ?_, ?_, ?_, ?_⟩
    · rw [program_turns, if_pos hlpn, hmap, Option.bind_some]
      simp only [hpages, hnext]
      rw [hturns, Nat.add_right_comm, Nat.add_assoc]
    · rwa [Nat.add_right_comm, Nat.add_assoc] at hgood'
    · intro lpn hle hlt
      by_cases hfirst : lpn = start_lpn + j
      · subst hfirst
        have hkept := hrest.outside (start_lpn + j) (Or.inl (by omega))
        rw [hself] at hkept
        refine ⟨?_, ?_⟩
        · unfold Ftl.is_unmapped_lpa
          rw [hkept]
          simpa using hx.chn_ne
        · rw [hkept, hnum]
      · obtain ⟨hmapped, hfresh⟩ := hrest.inside lpn (by omega) (by omega)
        exact ⟨hmapped, by omega⟩
    · intro lpn hout
      rw [hrest.outside lpn (by omega)]
      exact hother lpn (by omega)

/-- The flash after the pages in the object are programmed. -/
theorem flash_programmed (m : PageStore) (lpg_buffer : Nat) (hgood : Good c.g ftl' (a + n))
    (h : Remapped c.g m.ftl ftl' start_lpn n a)
    (hrange : start_lpn + n ≤ c.g.total_num_of_pages) :
    (∀ k < min n OP_PAGES,
      (m.do_sync_flash_program (listed c ftl' start_lpn lpg_buffer n)).flash
        (ftl'.lpa_table (start_lpn + k)) = fun i => m.ram (pageAddr c lpg_buffer k + i)) ∧
    ∀ x, c.g.number x < a →
      (m.do_sync_flash_program (listed c ftl' start_lpn lpg_buffer n)).flash x = m.flash x := by
  have hflash : (m.do_sync_flash_program (listed c ftl' start_lpn lpg_buffer n)).flash =
      updateEach OpPage.ppa (fun p _ i => m.ram (p.ssd_addr + i)) m.flash
        (listed c ftl' start_lpn lpg_buffer n) := rfl
  rw [hflash]
  constructor
  · intro k hk
    have hnodup : ((listed c ftl' start_lpn lpg_buffer n).map OpPage.ppa).Nodup := by
      rw [listed, List.map_map]
      refine List.Nodup.map_on ?_ List.nodup_range
      intro i hi j hj he
      rw [List.mem_range] at hi hj
      have hinj : start_lpn + i = start_lpn + j :=
        hgood.inverse.lpa_table_inj (by omega) (by omega) (h.inside _ (by omega) (by omega)).1
          (h.inside _ (by omega) (by omega)).1 he
      omega
    exact updateEach_of_mem hnodup (mem_listed.mpr ⟨k, hk, rfl⟩)
  · intro x hx
    refine updateEach_other ?_
    intro hmem
    obtain ⟨op, hop, rfl⟩ := List.mem_map.mp hmem
    obtain ⟨k, hk, rfl⟩ := mem_listed.mp hop
    have hfresh := (h.inside (start_lpn + k) (by omega) (by omega)).2
    exact absurd hx (Nat.not_lt_of_le hfresh)

theorem stored_congr {t : PageStore} {lpn : Nat}
    (hlpa : t.ftl.lpa_table lpn = m.ftl.lpa_table lpn)
    (hflash : m.ftl.is_unmapped_lpa lpn = false →
      t.flash (m.ftl.lpa_table lpn) = m.flash (m.ftl.lpa_table lpn)) (i : Nat) :
    t.stored lpn i = m.stored lpn i := by
  unfold stored Ftl.is_unmapped_lpa at *
  rw [hlpa]
  split
  · rfl
  · rename_i hm
    rw [hflash (Bool.eq_false_iff.mpr hm)]

/-- What `__sync_program_pages` leaves: the range is mapped, the pages that found room hold
their part of the buffer, and the other pages read as before. -/
structure Programmed (c : Config) (m t : PageStore) (start_lpn n lpg_buffer : Nat) : Prop where
  mapped : ∀ lpn, start_lpn ≤ lpn → lpn < start_lpn + n → t.ftl.is_unmapped_lpa lpn = false
  pages : ∀ k < min n OP_PAGES, ∀ i,
    t.flash (t.ftl.lpa_table (start_lpn + k)) i = m.ram (pageAddr c lpg_buffer k + i)
  others : ∀ lpn < c.g.total_num_of_pages, (lpn < start_lpn ∨ start_lpn + n ≤ lpn) →
    ∀ i, t.stored lpn i = m.stored lpn i
  ram : t.ram = m.ram

theorem sync_program_pages_spec {pop : OpPtr} {m1 : PageStore} (lpg_buffer : Nat)
    (h : Good c.g m.ftl a)
    (ha : a + n ≤ c.g.total_num_of_pages) (hrange : start_lpn + n ≤ c.g.total_num_of_pages)
    (hbegin : m.begin_program_op = some (pop, m1)) :
    ∃ t, m.sync_program_pages c start_lpn n lpg_buffer = some (n, t) ∧
      t.op_objs = m1.op_objs.free_op_obj pop ∧ Programmed c m t start_lpn n lpg_buffer := by
  obtain ⟨-, rfl⟩ := begin_op_cases hbegin
  obtain ⟨ftl', hturns, hgood, hmaps⟩ := program_turns_spec (n := n) start_lpn lpg_buffer 0
    (m := { m with op_objs := (m.op_objs.malloc_op_obj FLASH_PROGRAM_OPERATION).2 }) h ha hrange
  have hempty : listed c m.ftl start_lpn lpg_buffer 0 = [] := rfl
  simp only [Nat.add_zero, Nat.zero_add, hempty] at hturns hmaps
  obtain ⟨hpages, hold⟩ := flash_programmed m lpg_buffer hgood hmaps hrange
  unfold sync_program_pages
  rw [hbegin, Option.bind_some]
  simp only [hturns, Option.map_some]
  refine ⟨_, rfl, rfl, ?_, ?_, ?_, rfl⟩
  · intro lpn hle hlt
    exact (hmaps.inside lpn hle hlt).1
  · intro k hk i
    exact congrFun (hpages k hk) i
  · intro lpn hlpn hout i
    refine stored_congr (hmaps.outside lpn hout) ?_ i
    intro hm
    exact hold _ (h.mapped_number_lt hlpn hm)

/-! ## Reading -/

/-- A range whose pages are all mapped: the loop puts them into the object. -/
theorem read_turns_spec (start_lpn lpg_buffer j : Nat)
    (hmapped : ∀ lpn, start_lpn + j ≤ lpn → lpn < start_lpn + j + n →
      m.ftl.is_unmapped_lpa lpn = false)
    (hrange : start_lpn + j + n ≤ c.g.total_num_of_pages) :
    read_turns c lpg_buffer n j (start_lpn + j) m (listed c m.ftl start_lpn lpg_buffer j) =
      some (m, listed c m.ftl start_lpn lpg_buffer (j + n)) := by
  induction n generalizing j with
  | zero => rfl
  | succ n ih =>
    have htotal := c.g.total_num_of_pages_le
    have hlpn : start_lpn + j < c.g.total_num_of_pages := by omega
    have hm := hmapped (start_lpn + j) (by omega) (by omega)
    have hnext : (start_lpn + j + 1) % 2 ^ 32 = start_lpn + (j + 1) := by
      rw [Nat.mod_eq_of_lt (by omega), Nat.add_assoc]
    have hpages : (add_read_op_page (listed c m.ftl start_lpn lpg_buffer j)
        (m.ftl.lpa_table (start_lpn + j)) (pageAddr c lpg_buffer j)).2 =
          listed c m.ftl start_lpn lpg_buffer (j + 1) := add_listed
    rw [read_turns]
    simp only [hlpn, hm, if_true, Bool.false_eq_true, if_false, hpages, hnext]
    rw [ih (j + 1) (fun lpn hle hlt => hmapped lpn (by omega) (by omega)) (by omega),
      Nat.add_right_comm,
      Nat.add_assoc]

/-- The memory after the pages in the object are read. -/
theorem ram_read (ftl : Ftl) (start_lpn : Nat) (hbuf : lpg_buffer + n * c.pageBytes ≤ 2 ^ 32) :
    (∀ k < min n OP_PAGES, ∀ i < c.pageBytes,
      (m.do_sync_flash_read c (listed c ftl start_lpn lpg_buffer n)).ram
        (lpg_buffer + k * c.pageBytes + i) = m.flash (ftl.lpa_table (start_lpn + k)) i) ∧
    ∀ i, min n OP_PAGES * c.pageBytes ≤ i →
      (m.do_sync_flash_read c (listed c ftl start_lpn lpg_buffer n)).ram (lpg_buffer + i) =
        m.ram (lpg_buffer + i) := by
  have hram : (m.do_sync_flash_read c (listed c ftl start_lpn lpg_buffer n)).ram =
      writeAll m.ram c.pageBytes ((listed c ftl start_lpn lpg_buffer n).map
        fun p => (p.ssd_addr, m.flash p.ppa)) := by
    rw [writeAll, List.foldl_map]
    rfl
  have hwindow : ∀ w ∈ (listed c ftl start_lpn lpg_buffer n).map
      (fun p => (p.ssd_addr, m.flash p.ppa)), ∃ k < min n OP_PAGES,
        w = (lpg_buffer + k * c.pageBytes, m.flash (ftl.lpa_table (start_lpn + k))) := by
    intro w hw
    obtain ⟨op, hop, rfl⟩ := List.mem_map.mp hw
    obtain ⟨k, hk, rfl⟩ := mem_listed.mp hop
    exact ⟨k, hk, by rw [pageAddr_eq hbuf (by omega)]⟩
  rw [hram]
  constructor
  · intro k hk i hi
    -- What each address of the buffer gets.
    obtain ⟨target, htarget⟩ : ∃ target : Nat → UInt8, ∀ k i, i < c.pageBytes →
        target (lpg_buffer + k * c.pageBytes + i) = m.flash (ftl.lpa_table (start_lpn + k)) i := by
      refine ⟨fun j => m.flash (ftl.lpa_table (start_lpn + (j - lpg_buffer) / c.pageBytes))
        ((j - lpg_buffer) % c.pageBytes), ?_⟩
      intro k i hi
      have hdigits : (k * c.pageBytes + i) / c.pageBytes = k ∧
          (k * c.pageBytes + i) % c.pageBytes = i :=
        (Nat.div_mod_unique (Nat.zero_lt_of_lt hi)).mpr ⟨by ring, hi⟩
      simp only [Nat.add_assoc, Nat.add_sub_cancel_left, hdigits.1, hdigits.2]
    rw [writeAll_covered target, htarget k i hi]
    · intro w hw j hj
      obtain ⟨k', -, rfl⟩ := hwindow w hw
      exact (htarget k' j hj).symm
    · refine ⟨_, List.mem_map_of_mem (mem_listed.mpr ⟨k, hk, rfl⟩), ?_⟩
      simp only
      rw [pageAddr_eq hbuf (by omega)]
      omega
  · intro i hi
    refine writeAll_untouched fun w hw => Or.inr ?_
    obtain ⟨k, hk, rfl⟩ := hwindow w hw
    have hle := Nat.mul_le_mul_right c.pageBytes (Nat.succ_le_of_lt hk)
    rw [Nat.succ_mul] at hle
    simp only
    omega

theorem sync_read_pages_spec {rop : OpPtr} {m1 : PageStore} (lpg_buffer : Nat)
    (hmapped : ∀ lpn, start_lpn ≤ lpn → lpn < start_lpn + n → m.ftl.is_unmapped_lpa lpn = false)
    (hrange : start_lpn + n ≤ c.g.total_num_of_pages)
    (hbegin : m.begin_read_op = some (rop, m1)) :
    m.sync_read_pages c start_lpn n lpg_buffer =
      some (n, m1.sync_end_read_op c rop (listed c m.ftl start_lpn lpg_buffer n)) ∧
        m1.ftl = m.ftl ∧ m1.flash = m.flash ∧ m1.ram = m.ram := by
  obtain ⟨-, rfl⟩ := begin_op_cases hbegin
  have hturns := read_turns_spec (n := n) (c := c) start_lpn lpg_buffer 0
    (m := { m with op_objs := (m.op_objs.malloc_op_obj FLASH_READ_OPERATION).2 }) hmapped hrange
  have hempty : listed c m.ftl start_lpn lpg_buffer 0 = [] := rfl
  simp only [Nat.add_zero, Nat.zero_add, hempty] at hturns
  refine ⟨?_, rfl, rfl, rfl⟩
  unfold sync_read_pages
  rw [hbegin, Option.bind_some]
  simp only [hturns, Option.map_some]

/-- `stored` is what a read of one page brings. -/
theorem ram_read_one {lpn status : Nat} {u : PageStore}
    (hbuf : lpg_buffer + c.pageBytes ≤ 2 ^ 32) (hwords : 2 ≤ c.g.host_page_size)
    (h : m.sync_read_pages c lpn 1 lpg_buffer = some (status, u)) :
    ∀ i < c.pageBytes, u.ram (lpg_buffer + i) = m.stored lpn i := by
  have hone : lpg_buffer + 1 * c.pageBytes ≤ 2 ^ 32 := by rwa [Nat.one_mul]
  have haddr : pageAddr c lpg_buffer 0 = lpg_buffer := by
    rw [pageAddr_eq hone Nat.one_pos, Nat.zero_mul, Nat.add_zero]
  have hfour : 4 * (c.pageBytes / 4) = c.pageBytes :=
    Nat.mul_div_cancel' (Nat.pow_dvd_pow 2 hwords)
  obtain ⟨⟨rop, m1⟩, hbegin, hturns⟩ := Option.bind_eq_some_iff.mp h
  obtain ⟨-, rfl⟩ := begin_op_cases hbegin
  obtain ⟨⟨m2, pages⟩, hread, he⟩ := Option.map_eq_some_iff.mp hturns
  obtain ⟨-, rfl⟩ := Prod.mk.inj he
  simp only [read_turns, haddr, hfour] at hread
  intro i hi
  unfold stored
  split at hread
  · split at hread
    · rename_i hm
      obtain ⟨rfl, rfl⟩ := Prod.mk.inj (Option.some.inj hread)
      have hzero : writeWindow m.ram lpg_buffer c.pageBytes (fun _ => 0) (lpg_buffer + i) = 0 :=
        writeWindow_inside hi
      rw [if_pos hm]
      exact hzero
    · rename_i hm
      obtain ⟨rfl, rfl⟩ := Prod.mk.inj (Option.some.inj hread)
      rw [if_neg hm]
      exact writeWindow_inside hi
  · cases hread

/-! ## The two calls -/

/-- With objects both calls return. The pages that found room come back, and the rest of the
buffer stays. -/
theorem both_calls (m : PageStore) (start_lpn n lpg_buffer read_buffer : Nat) (h : Good c.g m.ftl a)
    (ha : a + n ≤ c.g.total_num_of_pages) (hrange : start_lpn + n ≤ c.g.total_num_of_pages)
    (hbuf : lpg_buffer + n * c.pageBytes ≤ 2 ^ 32) (hread : read_buffer + n * c.pageBytes ≤ 2 ^ 32)
    (hgiven : m.ObjectsGiven) :
    ∃ t u, m.sync_program_pages c start_lpn n lpg_buffer = some (n, t) ∧
      t.sync_read_pages c start_lpn n read_buffer = some (n, u) ∧
      (∀ i < min n OP_PAGES * c.pageBytes, u.ram (read_buffer + i) = m.ram (lpg_buffer + i)) ∧
      (∀ i, min n OP_PAGES * c.pageBytes ≤ i → u.ram (read_buffer + i) = m.ram (read_buffer + i)) ∧
      ∀ lpn < c.g.total_num_of_pages, (lpn < start_lpn ∨ start_lpn + n ≤ lpn) →
        ∀ i, u.stored lpn i = m.stored lpn i := by
  obtain ⟨pop, hpop, hrop⟩ := hgiven
  have hbegin : m.begin_program_op =
      some (pop, { m with op_objs := (m.op_objs.malloc_op_obj FLASH_PROGRAM_OPERATION).2 }) := by
    unfold begin_program_op begin_op
    simp only [hpop, Option.map_some]
  obtain ⟨t, hprogram, hobjs, ht⟩ := sync_program_pages_spec lpg_buffer h ha hrange
    hbegin
  obtain ⟨rop, hrop⟩ := Option.isSome_iff_exists.mp hrop
  have hbegin' : t.begin_read_op =
      some (rop, { t with op_objs := (t.op_objs.malloc_op_obj FLASH_READ_OPERATION).2 }) := by
    unfold begin_read_op begin_op
    simp only [hobjs, hrop, Option.map_some]
  obtain ⟨hread', -, -, -⟩ := sync_read_pages_spec read_buffer ht.mapped hrange
    hbegin'
  obtain ⟨hpages, hrest⟩ := ram_read (c := c) t.ftl start_lpn
    (m := { t with op_objs := (t.op_objs.malloc_op_obj FLASH_READ_OPERATION).2 }) hread
  refine ⟨t, _, hprogram, hread', ?_, ?_, ?_⟩
  · intro i hi
    have hpos : 0 < c.pageBytes := Nat.two_pow_pos _
    have hk : i / c.pageBytes < min n OP_PAGES := (Nat.div_lt_iff_lt_mul hpos).mpr hi
    have hmod := Nat.mod_lt i hpos
    have hdigits := Nat.div_add_mod' i c.pageBytes
    have hpage := hpages _ hk _ hmod
    rw [Nat.add_assoc, hdigits] at hpage
    refine hpage.trans ?_
    rw [ht.pages _ hk, pageAddr_eq hbuf (by omega), Nat.add_assoc, hdigits]
  · intro i hi
    refine (hrest i hi).trans ?_
    rw [ht.ram]
  · intro lpn hlpn hout i
    exact (stored_congr rfl (fun _ => rfl) i).trans (ht.others lpn hlpn hout i)

theorem objectsGiven_of_readBack {read_buffer : Nat} (h : Good c.g m.ftl a)
    (ha : a + n ≤ c.g.total_num_of_pages) (hrange : start_lpn + n ≤ c.g.total_num_of_pages)
    (hreads : m.ReadBack c start_lpn n lpg_buffer read_buffer) : m.ObjectsGiven := by
  obtain ⟨status, t, status', u, hprogram, hread, -⟩ := hreads
  obtain ⟨⟨pop, m1⟩, hbegin, -⟩ := Option.bind_eq_some_iff.mp hprogram
  obtain ⟨t', hprogram', hobjs, -⟩ := sync_program_pages_spec lpg_buffer h ha hrange
    hbegin
  obtain ⟨-, rfl⟩ := Prod.mk.inj (Option.some.inj (hprogram.symm.trans hprogram'))
  obtain ⟨⟨rop, u1⟩, hbegin', -⟩ := Option.bind_eq_some_iff.mp hread
  obtain ⟨hpop, rfl⟩ := begin_op_cases hbegin
  obtain ⟨hrop, -⟩ := begin_op_cases hbegin'
  rw [hobjs] at hrop
  exact ⟨pop, hpop, Option.isSome_iff_exists.mpr ⟨rop, hrop⟩⟩

end PageStore

open PageStore

/-- In every state of the tables, pages come back from the flash exactly when the operations get
objects and the pages fit in one. -/
theorem pages_come_back_exactly_when_they_fit_in_an_operation {c : Config}
    {ops : List (FtlOp c.g)} {m : PageStore} {start_lpn n lpg_buffer read_buffer : Nat}
    (hrun : run ftlStep (initialize_ftl c.g) ops = some m.ftl)
    (hrange : start_lpn + n ≤ c.g.total_num_of_pages)
    (hfree : n ≤ m.ftl.devicePagesWith c.g isFree)
    (hbuf : lpg_buffer + n * c.pageBytes ≤ 2 ^ 32)
    (hread : read_buffer + n * c.pageBytes ≤ 2 ^ 32) :
    m.ReadBack c start_lpn n lpg_buffer read_buffer ↔
      m.ObjectsGiven ∧ m.PagesFit c n lpg_buffer read_buffer := by
  have hgood := run_good hrun
  have ha : pagesTaken ops + n ≤ c.g.total_num_of_pages := by
    have htaken := run_freePages hrun
    omega
  constructor
  · intro hreads
    have hgiven := objectsGiven_of_readBack hgood ha hrange hreads
    refine ⟨hgiven, ?_⟩
    obtain ⟨t, u, hprogram, hpages, -, hrest, -⟩ :=
      both_calls m start_lpn n lpg_buffer read_buffer hgood ha hrange hbuf hread hgiven
    obtain ⟨status, t', status', u', hprogram', hpages', hsame, -⟩ := hreads
    obtain ⟨rfl, rfl⟩ := Prod.mk.inj (Option.some.inj (hprogram.symm.trans hprogram'))
    obtain ⟨-, rfl⟩ := Prod.mk.inj (Option.some.inj (hpages.symm.trans hpages'))
    rcases Nat.lt_or_ge OP_PAGES n with hmany | hfew
    · right
      intro i hle hlt
      rcases hsame with hsame | ⟨-, hfailed, -⟩
      · rw [← hrest i (by rwa [Nat.min_eq_right (Nat.le_of_lt hmany)])]
        exact hsame i hlt
      · exact absurd rfl hfailed
    · exact Or.inl hfew
  · rintro ⟨hgiven, hfit⟩
    obtain ⟨t, u, hprogram, hpages, hback, hrest, hothers⟩ :=
      both_calls m start_lpn n lpg_buffer read_buffer hgood ha hrange hbuf hread hgiven
    refine ⟨n, t, n, u, hprogram, hpages, Or.inl ?_, fun lpn hlpn hout i _ =>
      hothers lpn hlpn hout i⟩
    intro i hi
    rcases Nat.lt_or_ge i (min n OP_PAGES * c.pageBytes) with hlt | hge
    · exact hback i hlt
    · rcases hfit with hfew | htail
      · rw [Nat.min_eq_left hfew] at hge
        omega
      · rw [hrest i hge]
        refine htail i ?_ hi
        rcases Nat.le_total n OP_PAGES with hfew | hmany
        · rw [Nat.min_eq_left hfew] at hge
          omega
        · rwa [Nat.min_eq_right hmany] at hge

/-- A device of 400 pages. -/
def fourHundredPages : Config where
  g := { twoChannels with
    nand_pages_per_block := 100
    pages_pos := by decide
    pages_lt := by decide
    total_le := by decide }
  hostPageBits := 12
  image _ _ _ := 0
  equal := rfl

/-- New media, with ones in the first half of the memory and zeros in the second. -/
def halfOnes : PageStore where
  ftl := initialize_ftl fourHundredPages.g
  flash _ _ := 0
  ram i := if i < 2 ^ 31 then 1 else 0
  op_objs := OpObjs.zeroed.init_op_obj

theorem halfOnes_given : halfOnes.ObjectsGiven :=
  ⟨.pop 127, by decide +kernel, by decide +kernel⟩

theorem halfOnes_free : halfOnes.ftl.devicePagesWith fourHundredPages.g isFree = 399 := by
  have htaken := run_freePages (run_nil ftlStep (initialize_ftl fourHundredPages.g))
  have htotal : fourHundredPages.g.total_num_of_pages = 400 := by decide
  have hone : pagesTaken ([] : List (FtlOp fourHundredPages.g)) = 1 := rfl
  rw [htotal, hone] at htaken
  exact Nat.succ.inj htaken

theorem a_full_operation_comes_back :
    halfOnes.ReadBack fourHundredPages 0 128 0 (2 ^ 31) := by
  have hrun : run ftlStep (initialize_ftl fourHundredPages.g)
      ([] : List (FtlOp fourHundredPages.g)) = some halfOnes.ftl := rfl
  have hfree : 128 ≤ halfOnes.ftl.devicePagesWith fourHundredPages.g isFree := by
    rw [halfOnes_free]
    decide
  exact (pages_come_back_exactly_when_they_fit_in_an_operation hrun (by decide) hfree (by decide)
    (by decide)).mpr ⟨halfOnes_given, Or.inl (by decide)⟩

/-- The page behind a full operation is mapped, and neither programmed nor read. -/
theorem the_page_behind_a_full_operation_does_not_come_back :
    ¬ ∀ (c : Config) (ops : List (FtlOp c.g)) (m : PageStore)
      (start_lpn n lpg_buffer read_buffer : Nat),
        run ftlStep (initialize_ftl c.g) ops = some m.ftl →
          start_lpn + n ≤ c.g.total_num_of_pages →
            n ≤ m.ftl.devicePagesWith c.g isFree →
              lpg_buffer + n * c.pageBytes ≤ 2 ^ 32 →
                read_buffer + n * c.pageBytes ≤ 2 ^ 32 → m.ObjectsGiven →
                  m.ReadBack c start_lpn n lpg_buffer read_buffer := by
  intro hall
  obtain ⟨status, t, status', u, hprogram, hread, hsame, -⟩ :=
    hall fourHundredPages [] halfOnes 0 129 0 (2 ^ 31) rfl (by decide)
      (by rw [halfOnes_free]; decide) (by decide) (by decide) halfOnes_given
  obtain ⟨t', u', hprogram', hread', -, hrest, -⟩ := both_calls (c := fourHundredPages)
    halfOnes 0 129 0 (2 ^ 31) (good_initialize_ftl fourHundredPages.g) (by decide) (by decide)
      (by decide) (by decide)
    halfOnes_given
  obtain ⟨rfl, rfl⟩ := Prod.mk.inj (Option.some.inj (hprogram'.symm.trans hprogram))
  obtain ⟨-, rfl⟩ := Prod.mk.inj (Option.some.inj (hread'.symm.trans hread))
  rcases hsame with hsame | ⟨-, hfailed, -⟩
  · have hbyte := (hrest (128 * 4096) (by decide)).symm.trans (hsame (128 * 4096) (by decide))
    exact absurd hbyte (by decide)
  · exact hfailed rfl

end S4Sim
