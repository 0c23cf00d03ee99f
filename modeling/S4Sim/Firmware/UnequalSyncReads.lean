-- `__sync_read_pages` of unequal.pages.c, with which an applet reads. A NAND page that is
-- unmapped ends the call at once: it returns 0, nothing is read, and the operation object
-- that it took is not given back.
import S4Sim.Firmware.OperationObjects
import S4Sim.Ftl.UnequalReads
import S4Sim.Ftl.UnequalWrites

open Digits Grouping Runs Windows

namespace S4Sim.UnequalSyncReads

open UnequalReads (read_copies)
open UnequalWrites (Device ProgramOp SyncPages deviceStep)

/-! ## The call -/

/-- What a call changes. -/
structure ReadStore where
  ram : Nat → UInt8
  temp_read_buffer : Nat → Nat → UInt8
  op_objs : OpObjs

section Firmware

variable (u : UnequalBuild) (d : Device) (p : SyncPages u) (m : ReadStore)

/-- The records of `read_pages`. An unmapped NAND page gets none. -/
def syncReadScheme : Scheme HostPageItem Nat TouchedPage Nat where
  key i := u.nandPage i.lpn
  keyOf r := r.nand_page
  create read_pages_count nand_page :=
    if d.ftl.is_unmapped_lpa nand_page then none
    else some (read_pages_count + 1, TouchedPage.new d.ftl nand_page read_pages_count)
  add r i := r.addHostPage u i
  keyOf_create h := by
    rw [Option.ite_none_left_eq_some] at h
    obtain ⟨-, h⟩ := h
    cases h
    rfl
  keyOf_add _ _ := rfl

/-- The host pages of the call. -/
def items : List HostPageItem := UnequalWrites.sync_items u p.start_lpn p.num_of_lpn p.ssd_addr

/-- `__sync_read_pages`: what it returns, and the memory after it. `none`: `begin_read_op` writes
to a null pointer. -/
def sync_read_pages : Option (Nat × ReadStore) :=
  let (rop, op_objs) := m.op_objs.malloc_op_obj FLASH_READ_OPERATION
  rop.map fun rop =>
    match (syncReadScheme u d).group 0 (items u p) with
    | none => (0, { m with op_objs })
    | some (read_pages_count, read_pages) =>
      let temp_read_buffer :=
        sync_end_read_op d.flash m.temp_read_buffer (UnequalReads.readOps read_pages)
      (read_pages_count,
        { ram := writeAll m.ram u.copyBytes (read_copies u temp_read_buffer read_pages)
          temp_read_buffer
          op_objs := op_objs.free_op_obj rop })

end Firmware

variable {u : UnequalBuild} {d : Device} {p : SyncPages u} {m : ReadStore} {i j k : Nat}
  {r : TouchedPage}

/-! ## The records -/

/-- `lpn` in turn `i` of the loop. -/
def syncLpn (p : SyncPages u) (i : Nat) : Nat := (p.start_lpn + i) % 2 ^ 32

/-- The place of the page in the buffer. -/
def place (p : SyncPages u) (i : Nat) : Nat := p.ssd_addr + i * u.HOST_PAGE_SIZE

theorem mem_items {x : HostPageItem} :
    x ∈ items u p ↔ ∃ i < p.num_of_lpn, x = ⟨syncLpn p i, place p i⟩ := by
  simp only [items, UnequalWrites.sync_items, List.mem_map, List.mem_range, syncLpn, place,
    eq_comm]

/-- An LPN comes once in a call. -/
theorem syncLpn_inj (hnum : p.num_of_lpn < 2 ^ 32) (hi : i < p.num_of_lpn)
    (hj : j < p.num_of_lpn) (h : syncLpn p i = syncLpn p j) : i = j := by
  unfold syncLpn at h
  omega

/-- The NAND pages of the call. -/
def nandPages (p : SyncPages u) : List Nat := UnequalWrites.touched u (items u p)

theorem mem_nandPages {nand_page : Nat} :
    nand_page ∈ nandPages p ↔ ∃ i < p.num_of_lpn, u.nandPage (syncLpn p i) = nand_page := by
  have hkeys : nand_page ∈ nandPages p ↔ ∃ x ∈ items u p, u.nandPage x.lpn = nand_page :=
    Scheme.mem_keys
  rw [hkeys]
  constructor
  · rintro ⟨x, hx, rfl⟩
    obtain ⟨i, hi, rfl⟩ := mem_items.mp hx
    exact ⟨i, hi, rfl⟩
  · rintro ⟨i, hi, rfl⟩
    exact ⟨_, mem_items.mpr ⟨i, hi, rfl⟩, rfl⟩

theorem createAll_sync (ks : List Nat) : (syncReadScheme u d).createAll 0 ks =
    if ∀ nand_page ∈ ks, d.ftl.is_unmapped_lpa nand_page = false then
      some (ks.length, ks.zipIdx.map fun (nand_page, ix) => TouchedPage.new d.ftl nand_page ix)
    else none := by
  induction ks using List.reverseRecOn with
  | nil => rfl
  | append_singleton ks k ih =>
    rw [Scheme.createAll_snoc, ih]
    by_cases hall : ∀ nand_page ∈ ks, d.ftl.is_unmapped_lpa nand_page = false
    · rw [if_pos hall, Option.bind_some]
      cases hk : d.ftl.is_unmapped_lpa k with
      | true =>
        rw [if_neg fun h => by simp [h k (by simp)] at hk]
        simp [syncReadScheme, hk]
      | false =>
        rw [if_pos]
        · simp [syncReadScheme, hk, List.zipIdx_append]
        · intro nand_page hmem
          rcases List.mem_append.mp hmem with hmem | hmem
          · exact hall _ hmem
          · rw [List.mem_singleton.mp hmem, hk]
    · rw [if_neg hall, if_neg fun h => hall fun l hl => h l (List.mem_append_left _ hl)]
      rfl

/-- The records of a call whose NAND pages are mapped. -/
def syncPages (d : Device) (p : SyncPages u) : List TouchedPage :=
  ((nandPages p).zipIdx.map fun (nand_page, ix) => TouchedPage.new d.ftl nand_page ix).map
    ((syncReadScheme u d).fill (items u p))

/-- All NAND pages of the call are mapped. -/
def AllMapped (d : Device) (p : SyncPages u) : Prop :=
  ∀ i < p.num_of_lpn, d.ftl.is_unmapped_lpa (u.nandPage (syncLpn p i)) = false

theorem group_mapped (h : AllMapped d p) :
    (syncReadScheme u d).group 0 (items u p) = some ((nandPages p).length, syncPages d p) := by
  have hkeys : (syncReadScheme u d).keys (items u p) = nandPages p := rfl
  rw [Scheme.group_eq, hkeys, createAll_sync, if_pos]
  · rfl
  · intro nand_page hmem
    obtain ⟨i, hi, rfl⟩ := mem_nandPages.mp hmem
    exact h i hi

theorem group_unmapped (h : ¬ AllMapped d p) :
    (syncReadScheme u d).group 0 (items u p) = none := by
  have hkeys : (syncReadScheme u d).keys (items u p) = nandPages p := rfl
  rw [Scheme.group_eq, hkeys, createAll_sync, if_neg]
  · rfl
  · exact fun hall => h fun i hi => hall _ (mem_nandPages.mpr ⟨i, hi, rfl⟩)

/-- The pages of the call that are in a NAND page. -/
theorem fill_sync (r : TouchedPage) : (syncReadScheme u d).fill (items u p) r =
    (UnequalWrites.pageItems u (items u p) r.nand_page).foldl (TouchedPage.addHostPage u) r := rfl

/-- What a record says. -/
structure SyncRecord (d : Device) (p : SyncPages u) (r : TouchedPage) : Prop where
  is_unmapped : r.is_unmapped = false
  current_ppa : r.current_ppa = d.ftl.lpa_table r.nand_page
  ptrs : ∀ ih, r.host_page_ptrs ih =
    (((UnequalWrites.pageItems u (items u p) r.nand_page).filter
      fun x => u.offsetInPage x.lpn = ih).getLast?.map HostPageItem.ssd_addr).getD 0

theorem mem_syncPages (h : AllMapped d p) (hr : r ∈ syncPages d p) : SyncRecord d p r := by
  obtain ⟨q, hq, rfl⟩ := List.mem_map.mp hr
  obtain ⟨⟨nand_page, ix⟩, hix, rfl⟩ := List.mem_map.mp hq
  have hmapped : d.ftl.is_unmapped_lpa nand_page = false := by
    obtain ⟨i, hi, rfl⟩ := mem_nandPages.mp (List.fst_mem_of_mem_zipIdx hix)
    exact h i hi
  have hfields := TouchedPage.addHostPages_fields (u := u) (TouchedPage.new d.ftl nand_page ix)
    (UnequalWrites.pageItems u (items u p) nand_page)
  show SyncRecord d p ((UnequalWrites.pageItems u (items u p) nand_page).foldl
    (TouchedPage.addHostPage u) (TouchedPage.new d.ftl nand_page ix))
  refine ⟨hfields.2.1.trans hmapped, ?_, fun ih => ?_⟩
  · rw [hfields.2.2.1, hfields.1]
    simp [TouchedPage.new, hmapped]
  · rw [TouchedPage.addHostPages_ptrs, hfields.1]
    rfl

/-- Each page has the record of its NAND page. -/
theorem exists_syncPages (d : Device) (hi : i < p.num_of_lpn) :
    ∃ r ∈ syncPages d p, r.nand_page = u.nandPage (syncLpn p i) := by
  have hmem : u.nandPage (syncLpn p i) ∈ nandPages p := mem_nandPages.mpr ⟨i, hi, rfl⟩
  obtain ⟨ix, hix⟩ := List.getElem?_of_mem hmem
  have hzip : (u.nandPage (syncLpn p i), ix) ∈ (nandPages p).zipIdx :=
    List.mem_zipIdx_iff_getElem?.mpr hix
  refine ⟨_, List.mem_map_of_mem (List.mem_map_of_mem hzip), ?_⟩
  rw [fill_sync]
  exact (TouchedPage.addHostPages_fields ..).1

/-- The records have different buffers. -/
theorem temp_buffers_nodup : ((syncPages d p).map TouchedPage.temp_buffer).Nodup := by
  have hbuffers : (syncPages d p).map TouchedPage.temp_buffer =
      (nandPages p).zipIdx.map Prod.snd := by
    unfold syncPages
    rw [List.map_map, List.map_map]
    refine List.map_congr_left fun x _ => ?_
    exact (TouchedPage.addHostPages_fields ..).2.2.2.1
  rw [hbuffers, List.zipIdx_map_snd]
  exact List.nodup_range'

/-! ## The copies -/

/-- The pages of the call at an offset of a NAND page. -/
theorem mem_pageItems {x : HostPageItem} {nand_page ih : Nat} :
    x ∈ (UnequalWrites.pageItems u (items u p) nand_page).filter
        (fun x => u.offsetInPage x.lpn = ih) ↔
      ∃ i < p.num_of_lpn, x = ⟨syncLpn p i, place p i⟩ ∧ u.nandPage (syncLpn p i) = nand_page ∧
        u.offsetInPage (syncLpn p i) = ih := by
  simp only [UnequalWrites.pageItems, List.mem_filter, mem_items, decide_eq_true_eq]
  constructor
  · rintro ⟨⟨⟨i, hi, rfl⟩, hpage⟩, hoffset⟩
    exact ⟨i, hi, rfl, hpage, hoffset⟩
  · rintro ⟨i, hi, rfl, hpage, hoffset⟩
    exact ⟨⟨⟨i, hi, rfl⟩, hpage⟩, hoffset⟩

/-- The pointer at the offset of a page is the place of the page. -/
theorem SyncRecord.ptr_eq (h : SyncRecord d p r) (hnum : p.num_of_lpn < 2 ^ 32)
    (hi : i < p.num_of_lpn) (hpage : r.nand_page = u.nandPage (syncLpn p i)) :
    r.host_page_ptrs (u.offsetInPage (syncLpn p i)) = place p i := by
  have hmem := mem_pageItems.mpr ⟨i, hi, rfl, hpage.symm, rfl⟩
  rw [h.ptrs]
  refine HostPageItem.last_ptr (List.ne_nil_of_mem hmem) fun x hx => ?_
  obtain ⟨j, hj, rfl, hkey, hoffset⟩ := mem_pageItems.mp hx
  have hlpn : syncLpn p j = syncLpn p i := by
    rw [← u.lpn_eq (syncLpn p j), hkey, hoffset, hpage, u.lpn_eq]
  rw [syncLpn_inj hnum hj hi hlpn]

/-- A pointer that is not null is at the offset of a page. -/
theorem SyncRecord.exists_of_ptr (h : SyncRecord d p r) {ih : Nat}
    (hptr : r.host_page_ptrs ih ≠ 0) : ∃ i < p.num_of_lpn,
      r.nand_page = u.nandPage (syncLpn p i) ∧ ih = u.offsetInPage (syncLpn p i) := by
  rw [h.ptrs] at hptr
  obtain ⟨x, hx⟩ := HostPageItem.exists_of_last_ptr hptr
  obtain ⟨i, hi, rfl, hkey, hoffset⟩ := mem_pageItems.mp hx
  exact ⟨i, hi, hkey.symm, hoffset.symm⟩

/-- The copies of a call whose NAND pages are mapped. -/
def syncCopies (d : Device) (p : SyncPages u) (temp_read_buffer : Nat → Nat → UInt8) :
    List (Nat × (Nat → UInt8)) :=
  read_copies u (sync_end_read_op d.flash temp_read_buffer
    (UnequalReads.readOps (syncPages d p))) (syncPages d p)

/-- The bytes of a page of the call in the flash. -/
def flashBytes (d : Device) (p : SyncPages u) (i k : Nat) : UInt8 :=
  d.flash (d.ftl.lpa_table (u.nandPage (syncLpn p i)))
    (u.offsetInPage (syncLpn p i) * u.HOST_PAGE_SIZE + k)

theorem mem_syncCopies (h : AllMapped d p) (hnum : p.num_of_lpn < 2 ^ 32)
    {temp_read_buffer : Nat → Nat → UInt8} {w : Nat × (Nat → UInt8)} :
    w ∈ syncCopies d p temp_read_buffer ↔
      ∃ i < p.num_of_lpn, w = (place p i, flashBytes d p i) := by
  have hread : ∀ r ∈ syncPages d p, sync_end_read_op d.flash temp_read_buffer
      (UnequalReads.readOps (syncPages d p)) r.temp_buffer =
        d.flash (d.ftl.lpa_table r.nand_page) := by
    intro r hr
    have hrecord := mem_syncPages h hr
    rw [← hrecord.current_ppa]
    exact UnequalReads.sync_read_mapped temp_buffers_nodup hr hrecord.is_unmapped
  constructor
  · intro hw
    obtain ⟨r, hr, hw⟩ := List.mem_flatMap.mp hw
    have hrecord := mem_syncPages h hr
    rw [hrecord.is_unmapped, if_neg Bool.false_ne_true] at hw
    obtain ⟨ih, -, hcopy⟩ := List.mem_filterMap.mp hw
    rw [Option.ite_none_left_eq_some] at hcopy
    obtain ⟨hptr, hcopy⟩ := hcopy
    cases hcopy
    obtain ⟨i, hi, hpage, rfl⟩ := hrecord.exists_of_ptr hptr
    refine ⟨i, hi, ?_⟩
    rw [hrecord.ptr_eq hnum hi hpage, hread r hr, hpage]
    rfl
  · rintro ⟨i, hi, rfl⟩
    obtain ⟨r, hr, hpage⟩ := exists_syncPages d hi
    have hrecord := mem_syncPages h hr
    have hplace : place p i ≠ 0 := by
      have := p.ssd_addr_ne
      unfold place
      omega
    refine List.mem_flatMap.mpr ⟨r, hr, ?_⟩
    rw [hrecord.is_unmapped, if_neg Bool.false_ne_true]
    refine List.mem_filterMap.mpr ⟨u.offsetInPage (syncLpn p i),
      List.mem_range.mpr (u.offsetInPage_lt _), ?_⟩
    rw [hrecord.ptr_eq hnum hi hpage, if_neg hplace, hread r hr, hpage]
    rfl

/-- The copies fill the buffer with the bytes of the pages. -/
theorem ram_place (h : AllMapped d p) (hnum : p.num_of_lpn < 2 ^ 32)
    {temp_read_buffer : Nat → Nat → UInt8} {ram : Nat → UInt8} (hi : i < p.num_of_lpn)
    (hk : k < u.HOST_PAGE_SIZE) :
    writeAll ram u.copyBytes (syncCopies d p temp_read_buffer) (place p i + k) =
      flashBytes d p i k := by
  have htarget : ∀ i k, k < u.HOST_PAGE_SIZE →
      flashBytes d p ((place p i + k - p.ssd_addr) / u.HOST_PAGE_SIZE)
        ((place p i + k - p.ssd_addr) % u.HOST_PAGE_SIZE) = flashBytes d p i k := by
    intro i k hk
    have hplace : place p i + k - p.ssd_addr = u.HOST_PAGE_SIZE * i + k := by
      unfold place
      rw [Nat.mul_comm]
      omega
    rw [hplace, digits_div hk, digits_mod hk]
  rw [u.copyBytes_eq, ← htarget i k hk]
  apply writeAll_covered fun addr =>
    flashBytes d p ((addr - p.ssd_addr) / u.HOST_PAGE_SIZE) ((addr - p.ssd_addr) % u.HOST_PAGE_SIZE)
  · intro w hw k hk
    obtain ⟨j, -, rfl⟩ := (mem_syncCopies h hnum).mp hw
    exact (htarget j k hk).symm
  · exact ⟨_, (mem_syncCopies h hnum).mpr ⟨i, hi, rfl⟩, by simp only; omega, by simp only; omega⟩

/-- They leave the other bytes. -/
theorem ram_outside (h : AllMapped d p) (hnum : p.num_of_lpn < 2 ^ 32)
    {temp_read_buffer : Nat → Nat → UInt8} {ram : Nat → UInt8} {addr : Nat}
    (hout : addr < p.ssd_addr ∨ p.ssd_addr + p.num_of_lpn * u.HOST_PAGE_SIZE ≤ addr) :
    writeAll ram u.copyBytes (syncCopies d p temp_read_buffer) addr = ram addr := by
  rw [u.copyBytes_eq]
  apply writeAll_untouched
  intro w hw
  obtain ⟨i, hi, rfl⟩ := (mem_syncCopies h hnum).mp hw
  have hle := Nat.mul_le_mul_right u.HOST_PAGE_SIZE (Nat.succ_le_of_lt hi)
  rw [Nat.succ_mul] at hle
  simp only [place]
  omega

/-! ## The law -/

/-- From new media, after every run of write backs and programs whose buffers are ready, an
applet that reads pages gets their last writes when all their NAND pages are mapped, and the
bytes beside its buffer stay. Else the call returns 0 and leaves the memory, and its operation
object stays taken. -/
theorem an_applet_reads_the_last_writes_of_its_pages {flash : Ppa → Nat → UInt8}
    {rmp_buffer : Nat → Nat → UInt8} {ops : List (ProgramOp u)}
    {d' : Device × (Nat → Nat → UInt8)}
    (hok : AllSteps deviceStep (fun d op => UnequalWrites.BufferReady d.1 op)
      (⟨initialize_ftl u.toGeometry, flash, rmp_buffer⟩, fun _ _ => 0) ops)
    (hrun : run deviceStep (⟨initialize_ftl u.toGeometry, flash, rmp_buffer⟩, fun _ _ => 0) ops =
      some d')
    (p : SyncPages u) (hnum : p.num_of_lpn < 2 ^ 32) (m : ReadStore) {rop : OpPtr}
    (hrop : (m.op_objs.malloc_op_obj FLASH_READ_OPERATION).1 = some rop) :
    ∃ status m', sync_read_pages u d'.1 p m = some (status, m') ∧
      (AllMapped d'.1 p → status = (nandPages p).length ∧
        (∀ i < p.num_of_lpn, ∀ k < u.HOST_PAGE_SIZE,
          m'.ram (place p i + k) = d'.2 (syncLpn p i) k) ∧
        (∀ addr, addr < p.ssd_addr ∨ p.ssd_addr + p.num_of_lpn * u.HOST_PAGE_SIZE ≤ addr →
          m'.ram addr = m.ram addr) ∧
        m'.op_objs = (m.op_objs.malloc_op_obj FLASH_READ_OPERATION).2.free_op_obj rop) ∧
      (¬ AllMapped d'.1 p → status = 0 ∧ m'.ram = m.ram ∧
        m'.op_objs = (m.op_objs.malloc_op_obj FLASH_READ_OPERATION).2) := by
  have hholds := UnequalWrites.holds_run hok hrun
  unfold sync_read_pages
  simp only [hrop, Option.map_some]
  by_cases hall : AllMapped d'.1 p
  · rw [group_mapped hall]
    refine ⟨_, _, rfl, fun _ => ⟨rfl, fun i hi k hk => ?_, fun addr hout => ?_, rfl⟩,
      fun hnot => absurd hall hnot⟩
    · have hpage : UnequalWrites.HoldsPage u d'.1 d'.2 (u.nandPage (syncLpn p i)) :=
        hholds.mapped _ (p.in_table i hi) (hall i hi)
      have hbyte := hpage.bytes _ (u.offsetInPage_lt (syncLpn p i)) k hk
      rw [u.lpn_eq] at hbyte
      exact (ram_place hall hnum hi hk).trans hbyte
    · exact ram_outside hall hnum hout
  · rw [group_unmapped hall]
    exact ⟨_, _, rfl, fun h => absurd h hall, fun _ => ⟨rfl, rfl, rfl⟩⟩

/-! ## A NAND page with one host page written -/

/-- An applet reads both host pages of NAND page 0. -/
def bothPages : SyncPages twoHostPages where
  start_lpn := 0
  num_of_lpn := 2
  ssd_addr := 8192
  in_table := by decide
  touched_le := by decide
  ssd_addr_ne := by decide
  ssd_addr_end := by decide

def bootedStore : ReadStore := ⟨fun _ => 9, fun _ _ => 0, OpObjs.zeroed.init_op_obj⟩

/-- LBA 0 is written. The applet gets its bytes, and zeros for LBA 1. -/
theorem an_applet_reads_a_page_that_was_written_in_part :
    ∃ d' status m', run deviceStep
        (⟨initialize_ftl twoHostPages.toGeometry, fun _ _ => 0, fun _ _ => 0⟩, fun _ _ => 0)
        [.process_wbc (fun _ => 1) (UnequalWrites.oneHostPage 0 (by decide))] = some d' ∧
      sync_read_pages twoHostPages d'.1 bothPages bootedStore = some (status, m') ∧
      status = 1 ∧ m'.ram 8195 = 1 ∧ m'.ram 8196 = 0 ∧ m'.ram 8200 = 9 := by
  have hafter : (run deviceStep
      (⟨initialize_ftl twoHostPages.toGeometry, fun _ _ => 0, fun _ _ => 0⟩, fun _ _ => 0)
      [.process_wbc (fun _ => 1) (UnequalWrites.oneHostPage 0 (by decide))]).map
        (fun d => (d.1.ftl.is_unmapped_lpa 0, d.2 0 3, d.2 1 0)) = some (false, 1, 0) := by
    decide +kernel
  obtain ⟨d', hrun, hd'⟩ := Option.map_eq_some_iff.mp hafter
  simp only [Prod.mk.injEq] at hd'
  obtain ⟨hmapped, hfirst, hsecond⟩ := hd'
  have hpages : ∀ i < bothPages.num_of_lpn, twoHostPages.nandPage (syncLpn bothPages i) = 0 := by
    decide
  have hall : AllMapped d'.1 bothPages := by
    intro i hi
    rw [hpages i hi]
    exact hmapped
  have hready : AllSteps deviceStep (fun d op => UnequalWrites.BufferReady d.1 op)
      (⟨initialize_ftl twoHostPages.toGeometry, fun _ _ => 0, fun _ _ => 0⟩, fun _ _ => 0)
      [.process_wbc (fun _ => 1) (UnequalWrites.oneHostPage 0 (by decide))] :=
    ⟨fun _ _ _ _ _ _ _ _ => ⟨fun _ => rfl, nofun⟩, fun _ _ => trivial⟩
  have hrop : (bootedStore.op_objs.malloc_op_obj FLASH_READ_OPERATION).1 = some (.rop 0) := by
    decide +kernel
  obtain ⟨status, m', hread, hbytes, -⟩ := an_applet_reads_the_last_writes_of_its_pages hready hrun
    bothPages (by decide) bootedStore hrop
  obtain ⟨hstatus, hplaces, houtside, -⟩ := hbytes hall
  refine ⟨d', status, m', hrun, hread, hstatus, ?_, ?_, ?_⟩
  · exact (hplaces 0 (by decide) 3 (by decide)).trans hfirst
  · exact (hplaces 1 (by decide) 0 (by decide)).trans hsecond
  · exact houtside 8200 (by decide)

end S4Sim.UnequalSyncReads
