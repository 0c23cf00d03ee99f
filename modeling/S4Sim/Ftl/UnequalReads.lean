-- A READ in the build with larger NAND pages. `ftl_process_read_io` copies the host
-- pages of mapped NAND pages to the page buffer; for an unmapped page it only sets
-- `list[].ssd_addr` to the buffer of zeros. The DMA does not read `ssd_addr`: it sends the
-- page buffer from its start.
import S4Sim.Ftl.UnequalPages
import S4Sim.Nvme.Prp
import S4Sim.Lib.Digits

open Digits Grouping Windows

namespace S4Sim.UnequalReads

/-! ## The request and its buffers -/

/-- A READ that `verify_rw_param` accepted, so its LBAs have 32 bits, with the segments that
`decode_prp` left. They have the bytes of the transfer. -/
structure ReadIo (u : UnequalBuild) where
  slba : Nat
  nlbs : Nat
  ops : List DmaOp
  nlbs_lt : nlbs < MDTS_PAGES
  lba_lt : slba + nlbs < 2 ^ 32
  bytes : opsBytes ops = (nlbs + 1) * u.HOST_PAGE_SIZE

/-- The addresses of the buffers in the RAM. -/
structure ReadBuffers where
  page_buffer : Nat
  ZERO_BUFFER : Nat
  page_buffer_pos : 0 < page_buffer

section Firmware

variable (u : UnequalBuild) (s : Ftl) (b : ReadBuffers) (r : ReadIo u)

/-- `lpn` in turn `lpn_index` of the loop. -/
def readLpn (lpn_index : Nat) : Nat := (r.slba + lpn_index) % 2 ^ 32

/-- `get_read_io_buffer`: the `ssd_addr` of each entry of the list. `buffer_addr` is the page
buffer. -/
def get_read_io_buffer (ssd_addr : Nat → Nat) (i : Nat) : Nat :=
  if i ≤ r.nlbs then b.page_buffer + i * u.HOST_PAGE_SIZE else ssd_addr i

/-- The records of `read_pages`. The count of the records is the index of the next buffer. -/
def readScheme (ssd_addr : Nat → Nat) : Scheme Nat Nat TouchedPage Nat where
  key lpn_index := u.nandPage (readLpn u r lpn_index)
  keyOf p := p.nand_page
  create read_pages_count nand_page :=
    some (read_pages_count + 1, TouchedPage.new s nand_page read_pages_count)
  add p lpn_index :=
    if p.is_unmapped then p
    else p.addHostPage u ⟨readLpn u r lpn_index, ssd_addr lpn_index⟩
  keyOf_create h := by
    cases h
    rfl
  keyOf_add p lpn_index := by
    split <;> rfl

/-- What the loop over the LBAs changes. -/
structure ReadLoop where
  read_pages_count : Nat
  read_pages : List TouchedPage
  ssd_addr : Nat → Nat

/-- One turn of the loop. -/
def read_turn (l : ReadLoop) (lpn_index : Nat) : Option ReadLoop :=
  ((readScheme u s r l.ssd_addr).step (l.read_pages_count, l.read_pages) lpn_index).map
    fun (read_pages_count, read_pages) =>
      { read_pages_count, read_pages
        ssd_addr :=
          if s.is_unmapped_lpa (u.nandPage (readLpn u r lpn_index)) then
            Function.update l.ssd_addr lpn_index b.ZERO_BUFFER
          else l.ssd_addr }

/-- The pages that are read, with their buffers. -/
def readOps (read_pages : List TouchedPage) : List (Nat × Ppa) :=
  (read_pages.filter fun p => !p.is_unmapped).map fun p => (p.temp_buffer, p.current_ppa)

/-- The copies out of the read buffers, in order. -/
def read_copies (temp_read_buffer : Nat → Nat → UInt8) (read_pages : List TouchedPage) :
    List (Nat × (Nat → UInt8)) :=
  read_pages.flatMap fun p =>
    if p.is_unmapped then []
    else
      (List.range u.HOST_PER_NAND_PAGES).filterMap fun ih =>
        if p.host_page_ptrs ih = 0 then none
        else
          some (p.host_page_ptrs ih,
            fun k => temp_read_buffer p.temp_buffer (ih * u.HOST_PAGE_SIZE + k))

/-- `ftl_process_read_io`: the RAM and the list of the request after it. -/
def ftl_process_read_io (flash : Ppa → Nat → UInt8) (temp_read_buffer : Nat → Nat → UInt8)
    (ssd_addr : Nat → Nat) (ram : Nat → UInt8) : Option ((Nat → UInt8) × (Nat → Nat)) :=
  ((List.range (r.nlbs + 1)).foldlM (read_turn u s b r) ⟨0, [], ssd_addr⟩).map fun l =>
    let temp_read_buffer := sync_end_read_op flash temp_read_buffer (readOps l.read_pages)
    (writeAll ram u.copyBytes (read_copies u temp_read_buffer l.read_pages), l.ssd_addr)

/-- `do_sync_rw_io_dma_operation`: what is written to each segment, from `next_ssd_addr` on. -/
def do_sync_rw_io_dma_operation (ram : Nat → UInt8) (next_ssd_addr : Nat) :
    List DmaOp → List (Nat × List UInt8)
  | [] => []
  | e :: rest =>
    (e.host_p_addr, window ram next_ssd_addr e.len) ::
      do_sync_rw_io_dma_operation ram (next_ssd_addr + e.len) rest

/-- A READ from the buffer to the host. -/
def read_io (flash : Ppa → Nat → UInt8) (temp_read_buffer : Nat → Nat → UInt8)
    (ssd_addr : Nat → Nat) (ram : Nat → UInt8) : Option (List (Nat × List UInt8)) :=
  (ftl_process_read_io u s b r flash temp_read_buffer (get_read_io_buffer u b r ssd_addr) ram).map
    fun (ram, _) => do_sync_rw_io_dma_operation ram b.page_buffer r.ops

end Firmware

/-! ## What the segments are to hold -/

section Meaning

variable (u : UnequalBuild) (s : Ftl) (flash : Ppa → Nat → UInt8)

/-- Byte `k` of an LBA: that of its part of the mapped NAND page, or zero. -/
def lbaByte (lba k : Nat) : UInt8 :=
  if s.is_unmapped_lpa (u.nandPage lba) then 0
  else flash (s.lpa_table (u.nandPage lba)) (u.offsetInPage lba * u.HOST_PAGE_SIZE + k)

/-- The bytes of the LBAs from `slba` on, one LBA behind the other. -/
def lbaBytes (slba j : Nat) : UInt8 :=
  lbaByte u s flash (slba + j / u.HOST_PAGE_SIZE) (j % u.HOST_PAGE_SIZE)

end Meaning

variable {u : UnequalBuild} {s : Ftl} {b : ReadBuffers} {r : ReadIo u}
  {flash : Ppa → Nat → UInt8} {temp : Nat → Nat → UInt8} {ssd_addr : Nat → Nat}
  {ram : Nat → UInt8} {i n : Nat}

theorem readLpn_eq (hi : i ≤ r.nlbs) : readLpn u r i = r.slba + i := by
  have := r.lba_lt
  exact Nat.mod_eq_of_lt (by omega)

/-! ## The loop over the LBAs -/

/-- A turn reads the entry of its own LBA only, which no turn before it has changed. -/
theorem step_congr {ssd_addr' : Nat → Nat} {p : Nat × List TouchedPage}
    (h : ssd_addr' i = ssd_addr i) :
    (readScheme u s r ssd_addr').step p i = (readScheme u s r ssd_addr).step p i := by
  unfold Scheme.step readScheme
  simp only [h]

theorem read_loop_eq (n : Nat) :
    (List.range n).foldlM (read_turn u s b r) ⟨0, [], ssd_addr⟩ =
      ((readScheme u s r ssd_addr).group 0 (List.range n)).map fun (count, read_pages) =>
        ⟨count, read_pages, fun i =>
          if i < n ∧ s.is_unmapped_lpa (u.nandPage (readLpn u r i)) then b.ZERO_BUFFER
          else ssd_addr i⟩ := by
  induction n with
  | zero => rfl
  | succ n ih =>
    have hgroup : (readScheme u s r ssd_addr).group 0 (List.range (n + 1)) =
        ((readScheme u s r ssd_addr).group 0 (List.range n)).bind fun p =>
          (readScheme u s r ssd_addr).step p n := by
      simp [Scheme.group, List.range_succ]
    have hloop : ∀ l, (List.range (n + 1)).foldlM (read_turn u s b r) l =
        ((List.range n).foldlM (read_turn u s b r) l).bind fun l => read_turn u s b r l n := by
      simp [List.range_succ]
    rw [hgroup, hloop, ih]
    cases (readScheme u s r ssd_addr).group 0 (List.range n) with
    | none => rfl
    | some p =>
      simp only [Option.map_some, Option.bind_some]
      unfold read_turn
      rw [step_congr (by simp : _ = ssd_addr n)]
      refine Option.map_congr fun q _ => ?_
      simp only [ReadLoop.mk.injEq, true_and]
      funext i
      by_cases hn : i = n
      · subst hn
        split <;> simp_all
      · have hlt : i < n + 1 ↔ i < n := by omega
        split
        · simp only [Function.update_of_ne hn, hlt]
        · simp only [hlt]

/-- The records before the host pages join them: one for each NAND page, with the buffer of
its index. -/
theorem createAll_read (u : UnequalBuild) (s : Ftl) (r : ReadIo u) (ssd_addr : Nat → Nat)
    (ks : List Nat) : (readScheme u s r ssd_addr).createAll 0 ks =
    some (ks.length, ks.zipIdx.map fun (nand_page, ix) => TouchedPage.new s nand_page ix) := by
  induction ks using List.reverseRecOn with
  | nil => rfl
  | append_singleton ks k ih =>
    rw [Scheme.createAll_snoc, ih]
    simp [readScheme, List.zipIdx_append]

/-- The records after the loop over the first `n` LBAs. -/
def readPages (u : UnequalBuild) (s : Ftl) (r : ReadIo u) (ssd_addr : Nat → Nat) (n : Nat) :
    List TouchedPage :=
  (((readScheme u s r ssd_addr).keys (List.range n)).zipIdx.map
    fun (nand_page, ix) => TouchedPage.new s nand_page ix).map
      ((readScheme u s r ssd_addr).fill (List.range n))

/-- The host pages that join the record of a NAND page. -/
def pageItems (u : UnequalBuild) (r : ReadIo u) (ssd_addr : Nat → Nat) (nand_page n : Nat) :
    List HostPageItem :=
  ((List.range n).filter fun i => u.nandPage (readLpn u r i) = nand_page).map
    fun i => ⟨readLpn u r i, ssd_addr i⟩

theorem fill_read (p : TouchedPage) : (readScheme u s r ssd_addr).fill (List.range n) p =
    if p.is_unmapped then p
    else (pageItems u r ssd_addr p.nand_page n).foldl (TouchedPage.addHostPage u) p := by
  unfold Scheme.fill pageItems
  have hkey : ∀ i, ((readScheme u s r ssd_addr).key i = (readScheme u s r ssd_addr).keyOf p) =
      (u.nandPage (readLpn u r i) = p.nand_page) := fun _ => rfl
  simp only [hkey]
  generalize (List.range n).filter (fun i => u.nandPage (readLpn u r i) = p.nand_page) = is
  rw [List.foldl_map]
  induction is using List.reverseRecOn with
  | nil => simp
  | append_singleton is i ih =>
    rw [List.foldl_append, List.foldl_append, ih]
    by_cases hp : p.is_unmapped
    · simp [hp, readScheme]
    · have hfields := TouchedPage.addHostPages_fields (u := u) p
        (is.map fun i => ⟨readLpn u r i, ssd_addr i⟩)
      rw [List.foldl_map] at hfields
      simp [hp, readScheme, hfields.2.1]

/-- What a record says. -/
structure PageRecord (u : UnequalBuild) (s : Ftl) (r : ReadIo u) (ssd_addr : Nat → Nat) (n : Nat)
    (p : TouchedPage) : Prop where
  is_unmapped : p.is_unmapped = s.is_unmapped_lpa p.nand_page
  current_ppa : p.is_unmapped = false → p.current_ppa = s.lpa_table p.nand_page
  ptrs : p.is_unmapped = false → ∀ ih, p.host_page_ptrs ih =
    (((pageItems u r ssd_addr p.nand_page n).filter fun i => u.offsetInPage i.lpn = ih).getLast?.map
      HostPageItem.ssd_addr).getD 0

theorem mem_readPages {p : TouchedPage} (hp : p ∈ readPages u s r ssd_addr n) :
    PageRecord u s r ssd_addr n p := by
  obtain ⟨q, hq, rfl⟩ := List.mem_map.mp hp
  obtain ⟨⟨k, ix⟩, -, rfl⟩ := List.mem_map.mp hq
  rw [fill_read]
  by_cases hk : s.is_unmapped_lpa k
  · simp only [TouchedPage.new, hk, if_true]
    exact ⟨hk.symm, nofun, nofun⟩
  · simp only [TouchedPage.new, hk, Bool.false_eq_true, if_false]
    have hfields := TouchedPage.addHostPages_fields (u := u)
      ⟨k, false, s.lpa_table k, ix, fun _ => 0, 0⟩ (pageItems u r ssd_addr k n)
    refine ⟨?_, ?_, ?_⟩
    · rw [hfields.1, hfields.2.1]
      simp [hk]
    · intro _
      rw [hfields.1, hfields.2.2.1]
    · intro _ ih
      rw [hfields.1, TouchedPage.addHostPages_ptrs]

/-- Each LBA has the record of its NAND page. -/
theorem exists_readPages (ssd_addr : Nat → Nat) {i : Nat} (hi : i < n) :
    ∃ p ∈ readPages u s r ssd_addr n, p.nand_page = u.nandPage (readLpn u r i) := by
  have hmem : u.nandPage (readLpn u r i) ∈ (readScheme u s r ssd_addr).keys (List.range n) :=
    Scheme.mem_keys.mpr ⟨i, List.mem_range.mpr hi, rfl⟩
  have hkeys := Scheme.keyOf_createAll
    (createAll_read u s r ssd_addr ((readScheme u s r ssd_addr).keys (List.range n)))
  rw [← hkeys] at hmem
  obtain ⟨e, he, hkey⟩ := List.mem_map.mp hmem
  refine ⟨_, List.mem_map_of_mem he, ?_⟩
  rw [← hkey]
  exact Scheme.keyOf_fill (S := readScheme u s r ssd_addr) e

/-- The records have different buffers. -/
theorem temp_buffers_nodup : ((readPages u s r ssd_addr n).map TouchedPage.temp_buffer).Nodup := by
  have hbuffers : (readPages u s r ssd_addr n).map TouchedPage.temp_buffer =
      ((readScheme u s r ssd_addr).keys (List.range n)).zipIdx.map Prod.snd := by
    unfold readPages
    rw [List.map_map, List.map_map]
    refine List.map_congr_left fun x _ => ?_
    obtain ⟨k, ix⟩ := x
    simp only [Function.comp_apply]
    rw [fill_read]
    split
    · rfl
    · exact (TouchedPage.addHostPages_fields ..).2.2.2.1
  rw [hbuffers, List.zipIdx_map_snd]
  exact List.nodup_range'

/-! ## The copies -/

theorem sync_read_mapped {pages : List TouchedPage}
    (hnodup : (pages.map TouchedPage.temp_buffer).Nodup) {p : TouchedPage} (hp : p ∈ pages)
    (hmapped : p.is_unmapped = false) :
    sync_end_read_op flash temp (readOps pages) p.temp_buffer = flash p.current_ppa := by
  have hbuffers : (readOps pages).map Prod.fst =
      (pages.filter fun p => !p.is_unmapped).map TouchedPage.temp_buffer := by
    unfold readOps
    rw [List.map_map]
    rfl
  refine updateEach_of_mem (x := (p.temp_buffer, p.current_ppa)) ?_ ?_
  · rw [hbuffers]
    exact hnodup.sublist (List.filter_sublist.map _)
  · exact List.mem_map.mpr ⟨p, List.mem_filter.mpr ⟨hp, by simp [hmapped]⟩, rfl⟩

/-- The LBAs of a request follow each other, so an LBA is the only one at its place. -/
theorem turn_eq {i j : Nat} (hi : i ≤ r.nlbs) (hj : j ≤ r.nlbs)
    (hpage : u.nandPage (readLpn u r i) = u.nandPage (readLpn u r j))
    (hoffset : u.offsetInPage (readLpn u r i) = u.offsetInPage (readLpn u r j)) : i = j := by
  have hlpn := u.lpn_eq (readLpn u r i)
  rw [hpage, hoffset, u.lpn_eq, readLpn_eq hi, readLpn_eq hj] at hlpn
  omega

/-- The pointer of a record at an offset is the place of the LBA in the page buffer. -/
theorem ptr_eq {p : TouchedPage}
    (hp : PageRecord u s r (get_read_io_buffer u b r ssd_addr) (r.nlbs + 1) p)
    (hmapped : p.is_unmapped = false) (hi : i ≤ r.nlbs)
    (hpage : p.nand_page = u.nandPage (readLpn u r i)) :
    p.host_page_ptrs (u.offsetInPage (readLpn u r i)) = b.page_buffer + i * u.HOST_PAGE_SIZE := by
  rw [hp.ptrs hmapped]
  have hmem : (⟨readLpn u r i, get_read_io_buffer u b r ssd_addr i⟩ : HostPageItem) ∈
      (pageItems u r (get_read_io_buffer u b r ssd_addr) p.nand_page (r.nlbs + 1)).filter
        fun x => u.offsetInPage x.lpn = u.offsetInPage (readLpn u r i) := by
    rw [List.mem_filter]
    refine ⟨List.mem_map.mpr ⟨i, List.mem_filter.mpr ⟨List.mem_range.mpr (by omega), ?_⟩, rfl⟩, ?_⟩
    · simp [hpage]
    · simp
  refine HostPageItem.last_ptr (List.ne_nil_of_mem hmem) fun x hx => ?_
  obtain ⟨hx, hoffset⟩ := List.mem_filter.mp hx
  obtain ⟨j, hj, rfl⟩ := List.mem_map.mp hx
  obtain ⟨hrange, hkey⟩ := List.mem_filter.mp hj
  rw [List.mem_range] at hrange
  simp only [decide_eq_true_eq] at hkey hoffset
  obtain rfl := turn_eq (i := j) (by omega) hi (hkey.trans hpage) hoffset
  simp only [get_read_io_buffer]
  rw [if_pos hi]

/-- A pointer that is not null is the place of an LBA of the NAND page. -/
theorem exists_of_ptr {p : TouchedPage}
    (hp : PageRecord u s r (get_read_io_buffer u b r ssd_addr) (r.nlbs + 1) p)
    (hmapped : p.is_unmapped = false) {ih : Nat} (hptr : p.host_page_ptrs ih ≠ 0) :
    ∃ i ≤ r.nlbs, p.nand_page = u.nandPage (readLpn u r i) ∧
      ih = u.offsetInPage (readLpn u r i) := by
  rw [hp.ptrs hmapped] at hptr
  obtain ⟨x, hx⟩ := HostPageItem.exists_of_last_ptr hptr
  obtain ⟨hx, hoffset⟩ := List.mem_filter.mp hx
  obtain ⟨j, hj, rfl⟩ := List.mem_map.mp hx
  obtain ⟨hrange, hkey⟩ := List.mem_filter.mp hj
  rw [List.mem_range] at hrange
  simp only [decide_eq_true_eq] at hkey hoffset
  exact ⟨j, by omega, hkey.symm, hoffset.symm⟩

/-- The byte of the flash for a place in the page buffer. -/
def bufferTarget (u : UnequalBuild) (s : Ftl) (flash : Ppa → Nat → UInt8) (b : ReadBuffers)
    (slba addr : Nat) : UInt8 :=
  let lba := slba + (addr - b.page_buffer) / u.HOST_PAGE_SIZE
  flash (s.lpa_table (u.nandPage lba))
    (u.offsetInPage lba * u.HOST_PAGE_SIZE + (addr - b.page_buffer) % u.HOST_PAGE_SIZE)

theorem bufferTarget_eq (flash : Ppa → Nat → UInt8) {k : Nat} (hk : k < u.HOST_PAGE_SIZE) :
    bufferTarget u s flash b r.slba (b.page_buffer + i * u.HOST_PAGE_SIZE + k) =
      flash (s.lpa_table (u.nandPage (r.slba + i)))
        (u.offsetInPage (r.slba + i) * u.HOST_PAGE_SIZE + k) := by
  unfold bufferTarget
  rw [show b.page_buffer + i * u.HOST_PAGE_SIZE + k - b.page_buffer =
    u.HOST_PAGE_SIZE * i + k by rw [Nat.mul_comm]; omega, digits_div hk, digits_mod hk]

/-- The records of a request with the list of `get_read_io_buffer`, and its copies. -/
def ioPages (u : UnequalBuild) (s : Ftl) (b : ReadBuffers) (r : ReadIo u) (ssd_addr : Nat → Nat) :
    List TouchedPage := readPages u s r (get_read_io_buffer u b r ssd_addr) (r.nlbs + 1)

def ioCopies (u : UnequalBuild) (s : Ftl) (b : ReadBuffers) (r : ReadIo u)
    (flash : Ppa → Nat → UInt8) (temp : Nat → Nat → UInt8) (ssd_addr : Nat → Nat) :
    List (Nat × (Nat → UInt8)) :=
  read_copies u (sync_end_read_op flash temp (readOps (ioPages u s b r ssd_addr)))
    (ioPages u s b r ssd_addr)

/-- A copy goes to the place of an LBA whose NAND page is mapped, and brings its bytes. -/
theorem read_copies_spec {w : Nat × (Nat → UInt8)}
    (hw : w ∈ ioCopies u s b r flash temp ssd_addr) :
    ∃ i ≤ r.nlbs, s.is_unmapped_lpa (u.nandPage (r.slba + i)) = false ∧
      w.1 = b.page_buffer + i * u.HOST_PAGE_SIZE ∧
      ∀ k < u.HOST_PAGE_SIZE, w.2 k = bufferTarget u s flash b r.slba (w.1 + k) := by
  obtain ⟨p, hp, hw⟩ := List.mem_flatMap.mp hw
  have hrecord := mem_readPages hp
  split at hw
  · cases hw
  · rename_i hmapped
    have hmapped : p.is_unmapped = false := Bool.eq_false_of_not_eq_true hmapped
    obtain ⟨ih, -, hcopy⟩ := List.mem_filterMap.mp hw
    rw [Option.ite_none_left_eq_some] at hcopy
    obtain ⟨hptr, hcopy⟩ := hcopy
    cases hcopy
    obtain ⟨i, hi, hpage, rfl⟩ := exists_of_ptr hrecord hmapped hptr
    have hlpn := readLpn_eq (r := r) hi
    have hread : sync_end_read_op flash temp (readOps (ioPages u s b r ssd_addr)) p.temp_buffer =
        flash p.current_ppa := sync_read_mapped temp_buffers_nodup hp hmapped
    refine ⟨i, hi, ?_, ?_, ?_⟩
    · rw [← hlpn, ← hpage, ← hrecord.is_unmapped, hmapped]
    · exact ptr_eq hrecord hmapped hi hpage
    · intro k hk
      simp only
      rw [ptr_eq hrecord hmapped hi hpage, bufferTarget_eq flash hk, hread,
        hrecord.current_ppa hmapped, hpage, hlpn]

/-- The page buffer after the copies: the bytes of a mapped LBA, and the old bytes at the place
of an unmapped one. -/
theorem page_buffer_after {k : Nat} (hi : i ≤ r.nlbs) (hk : k < u.HOST_PAGE_SIZE) :
    writeAll ram u.copyBytes (ioCopies u s b r flash temp ssd_addr)
      (b.page_buffer + i * u.HOST_PAGE_SIZE + k) =
    if s.is_unmapped_lpa (u.nandPage (r.slba + i)) then
      ram (b.page_buffer + i * u.HOST_PAGE_SIZE + k)
    else
      flash (s.lpa_table (u.nandPage (r.slba + i)))
        (u.offsetInPage (r.slba + i) * u.HOST_PAGE_SIZE + k) := by
  rw [u.copyBytes_eq]
  by_cases hmapped : s.is_unmapped_lpa (u.nandPage (r.slba + i))
  · rw [if_pos hmapped]
    apply writeAll_untouched
    intro w hw
    obtain ⟨j, -, hj, haddr, -⟩ := read_copies_spec hw
    rw [haddr]
    have hij : i ≠ j := by
      rintro rfl
      rw [hmapped] at hj
      cases hj
    -- Another LBA has another place.
    have := digits_apart hk hij
    omega
  · have hmapped : s.is_unmapped_lpa (u.nandPage (r.slba + i)) = false :=
      Bool.eq_false_of_not_eq_true hmapped
    rw [hmapped, if_neg Bool.false_ne_true,
      ← bufferTarget_eq (b := b) flash hk]
    apply writeAll_covered (bufferTarget u s flash b r.slba)
    · intro w hw k hk
      obtain ⟨j, -, -, -, hbytes⟩ := read_copies_spec hw
      exact hbytes k hk
    · obtain ⟨p, hp, hpage⟩ := exists_readPages (u := u) (s := s) (r := r)
        (get_read_io_buffer u b r ssd_addr) (n := r.nlbs + 1) (i := i) (by omega)
      have hrecord := mem_readPages hp
      have hpmapped : p.is_unmapped = false := by
        rw [hrecord.is_unmapped, hpage, readLpn_eq hi, hmapped]
      have hptr := ptr_eq hrecord hpmapped hi hpage
      have hpos := b.page_buffer_pos
      have hcopy : (b.page_buffer + i * u.HOST_PAGE_SIZE, fun k =>
          sync_end_read_op flash temp (readOps (ioPages u s b r ssd_addr)) p.temp_buffer
            (u.offsetInPage (readLpn u r i) * u.HOST_PAGE_SIZE + k)) ∈
          ioCopies u s b r flash temp ssd_addr := by
        refine List.mem_flatMap.mpr ⟨p, hp, ?_⟩
        rw [hpmapped, if_neg Bool.false_ne_true]
        refine List.mem_filterMap.mpr ⟨u.offsetInPage (readLpn u r i),
          List.mem_range.mpr (u.offsetInPage_lt _), ?_⟩
        rw [hptr, if_neg (by omega)]
      exact ⟨_, hcopy, by simp only; omega, by simp only; omega⟩

/-! ## The transfer to the host -/

/-- Two memories send the same when they agree on the bytes that are sent. -/
theorem rw_io_dma_eq_iff {ram ram' : Nat → UInt8} {addr addr' : Nat} {ops : List DmaOp} :
    do_sync_rw_io_dma_operation ram addr ops = do_sync_rw_io_dma_operation ram' addr' ops ↔
      ∀ j < opsBytes ops, ram (addr + j) = ram' (addr' + j) := by
  induction ops generalizing addr addr' with
  | nil => simp [do_sync_rw_io_dma_operation, opsBytes]
  | cons e rest ih =>
    have hbytes : opsBytes (e :: rest) = e.len + opsBytes rest := opsBytes_cons
    unfold do_sync_rw_io_dma_operation
    rw [List.cons.injEq, Prod.mk.injEq, ih, hbytes]
    simp only [true_and]
    have hwindow : window ram addr e.len = window ram' addr' e.len ↔
        ∀ j < e.len, ram (addr + j) = ram' (addr' + j) := by
      simp [window]
    rw [hwindow]
    constructor
    · rintro ⟨hfirst, hlater⟩ j hj
      rcases Nat.lt_or_ge j e.len with hlt | hge
      · exact hfirst j hlt
      · obtain ⟨k, rfl⟩ := Nat.exists_eq_add_of_le hge
        have := hlater k (by omega)
        rwa [Nat.add_assoc, Nat.add_assoc] at this
    · intro h
      refine ⟨fun j hj => h j (by omega), fun j hj => ?_⟩
      have := h (e.len + j) (by omega)
      rwa [← Nat.add_assoc, ← Nat.add_assoc] at this

/-! ## The law -/

theorem ftl_process_read_io_eq :
    ftl_process_read_io u s b r flash temp (get_read_io_buffer u b r ssd_addr) ram =
      some (writeAll ram u.copyBytes (ioCopies u s b r flash temp ssd_addr), fun i =>
        if i < r.nlbs + 1 ∧ s.is_unmapped_lpa (u.nandPage (readLpn u r i)) then b.ZERO_BUFFER
        else get_read_io_buffer u b r ssd_addr i) := by
  unfold ftl_process_read_io
  rw [read_loop_eq, Scheme.group_eq, createAll_read]
  rfl

/-- The segments of a READ get the bytes of its LBAs in order, with zeros for the LBAs of
unmapped NAND pages, exactly when the page buffer holds zeros before at the places of these
LBAs. -/
theorem the_segments_get_their_blocks_iff_unmapped_places_are_zero (u : UnequalBuild) (s : Ftl)
    (b : ReadBuffers) (r : ReadIo u) (flash : Ppa → Nat → UInt8) (temp : Nat → Nat → UInt8)
    (ssd_addr : Nat → Nat) (ram : Nat → UInt8) :
    read_io u s b r flash temp ssd_addr ram =
        some (do_sync_rw_io_dma_operation (lbaBytes u s flash r.slba) 0 r.ops) ↔
      ∀ i ≤ r.nlbs, s.is_unmapped_lpa (u.nandPage (r.slba + i)) = true →
        ∀ k < u.HOST_PAGE_SIZE, ram (b.page_buffer + i * u.HOST_PAGE_SIZE + k) = 0 := by
  unfold read_io
  rw [ftl_process_read_io_eq, Option.map_some, Option.some.injEq, rw_io_dma_eq_iff, r.bytes]
  have hpos := u.host_page_size_pos
  -- Byte `k` of LBA `i` in the buffer and in the answer.
  have hanswer : ∀ i k, k < u.HOST_PAGE_SIZE →
      lbaBytes u s flash r.slba (0 + (i * u.HOST_PAGE_SIZE + k)) =
        lbaByte u s flash (r.slba + i) k := by
    intro i k hk
    unfold lbaBytes
    rw [Nat.zero_add, Nat.mul_comm, digits_div hk, digits_mod hk]
  constructor
  · intro h i hi hunmapped k hk
    have hle := Nat.mul_le_mul_right u.HOST_PAGE_SIZE hi
    have hlt : i * u.HOST_PAGE_SIZE + k < (r.nlbs + 1) * u.HOST_PAGE_SIZE := by
      rw [Nat.succ_mul]
      omega
    have hbyte := h _ hlt
    rw [hanswer i k hk, ← Nat.add_assoc, page_buffer_after hi hk, if_pos hunmapped] at hbyte
    rw [hbyte]
    unfold lbaByte
    rw [if_pos hunmapped]
  · intro h j hj
    have hi : j / u.HOST_PAGE_SIZE ≤ r.nlbs := by
      have := (Nat.div_lt_iff_lt_mul hpos).mpr hj
      omega
    have hk := Nat.mod_lt j hpos
    have hj := Nat.div_add_mod' j u.HOST_PAGE_SIZE
    generalize j / u.HOST_PAGE_SIZE = i at hi hj
    generalize j % u.HOST_PAGE_SIZE = k at hk hj
    subst hj
    rw [hanswer i k hk, ← Nat.add_assoc, page_buffer_after hi hk]
    unfold lbaByte
    split
    · rename_i hunmapped
      exact h i hi hunmapped k hk
    · rfl

/-- Nothing was written, and the page buffer has the bytes 1 of an earlier request. -/
theorem old_bytes_of_the_buffer_are_sent :
    ¬ ∀ (u : UnequalBuild) (s : Ftl) (b : ReadBuffers) (r : ReadIo u) (flash : Ppa → Nat → UInt8)
      (temp : Nat → Nat → UInt8) (ssd_addr : Nat → Nat) (ram : Nat → UInt8),
      read_io u s b r flash temp ssd_addr ram =
        some (do_sync_rw_io_dma_operation (lbaBytes u s flash r.slba) 0 r.ops) := by
  intro hall
  have h := hall twoHostPages generated_tables ⟨4096, 8192, by decide⟩
    ⟨0, 0, [⟨0, 4⟩], by decide, by decide, by decide⟩ (fun _ _ => 0) (fun _ _ => 0) (fun _ => 0)
    (fun _ => 1)
  exact absurd h (by decide)

end S4Sim.UnequalReads
