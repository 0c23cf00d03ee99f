-- The writes of the build with larger NAND pages: `process_wbc` and
-- `__sync_program_pages`. A NAND page that is written in part is read to its `rmp_buffer`
-- first. When it is unmapped nothing is read, and the rest of its buffer is what an
-- earlier operation left there. The operation object of an operation is taken as fresh;
-- Firmware/OperationObjects.lean has the pools of the objects.
import S4Sim.Ftl.UnequalPages
import S4Sim.Ftl.PageSteps
import S4Sim.Nvme.Types
import S4Sim.Lib.Digits
import S4Sim.Lib.Run

open Digits Grouping Relation Runs Windows

namespace S4Sim.UnequalWrites

/-! ## The operations -/

/-- A page of the write cache. -/
structure WbcPage extends HostPageItem where
  valid : Bool

/-- `wbc_req_t`. The NAND pages of the valid pages are entries of `lpa_table`, and their
buffers lie in the RAM of 32-bit addresses and not at the null pointer. -/
structure Wbc (u : UnequalBuild) where
  pages : Nat → WbcPage
  num_program_pgs : Nat
  in_table : ∀ icache < WBC_PAGES, (pages icache).valid = true →
    u.nandPage (pages icache).lpn < u.total_num_of_pages
  ssd_addr_ne : ∀ icache < WBC_PAGES, (pages icache).valid = true → (pages icache).ssd_addr ≠ 0
  ssd_addr_end : ∀ icache < WBC_PAGES, (pages icache).valid = true →
    (pages icache).ssd_addr + u.HOST_PAGE_SIZE ≤ 2 ^ 32

/-- The host pages of `process_wbc`, from page `icache` on, for the pages that are left. -/
def wbc_items {u : UnequalBuild} (wbc : Wbc u) (icache num_program_pgs : Nat) :
    Nat → List HostPageItem
  | 0 => []
  | n + 1 =>
    if num_program_pgs < wbc.num_program_pgs then
      if (wbc.pages icache).valid then
        (wbc.pages icache).toHostPageItem :: wbc_items wbc (icache + 1) (num_program_pgs + 1) n
      else wbc_items wbc (icache + 1) num_program_pgs n
    else []

/-- The host pages of `__sync_program_pages`. -/
def sync_items (u : UnequalBuild) (start_lpn num_of_lpn ssd_addr : Nat) : List HostPageItem :=
  (List.range num_of_lpn).map fun lpn_index =>
    ⟨(start_lpn + lpn_index) % 2 ^ 32, ssd_addr + lpn_index * u.HOST_PAGE_SIZE⟩

/-- `program_pages_t` -/
structure ProgramPage extends TouchedPage where
  new_ppa : Ppa

section Firmware

variable (u : UnequalBuild)

/-- The records of `program_pages`. The count of the records is the index of the next buffer. -/
def programScheme : Scheme HostPageItem Nat ProgramPage (Ftl × Nat) where
  key i := u.nandPage i.lpn
  keyOf p := p.nand_page
  create p nand_page :=
    (make_new_mapping u.toGeometry p.1 nand_page).map fun (new_ppa, s) =>
      ((s, p.2 + 1), { TouchedPage.new p.1 nand_page p.2 with new_ppa })
  add p i := { p with toTouchedPage := p.addHostPage u i }
  keyOf_create h := by
    obtain ⟨x, -, rfl⟩ := Option.map_eq_some_iff.mp h
    rfl
  keyOf_add _ _ := rfl

/-- The NAND pages of an operation, in the order of `program_pages`. -/
def touched (items : List HostPageItem) : List Nat := (programScheme u).keys items

/-- What an operation changes. -/
structure Device where
  ftl : Ftl
  flash : Ppa → Nat → UInt8
  rmp_buffer : Nat → Nat → UInt8

/-- `data_src == TEMP_RMP_BUFFER`: the page is read before it is programmed. -/
def isRead (p : ProgramPage) : Bool := !p.is_unmapped && p.host_pages < u.HOST_PER_NAND_PAGES

/-- The pages that are read, with their buffers. -/
def readOps (program_pages : List ProgramPage) : List (Nat × Ppa) :=
  (program_pages.filter (isRead u)).map fun p => (p.temp_buffer, p.current_ppa)

/-- The copies into the buffer of a page, in order. -/
def copies (ram : Nat → UInt8) (p : ProgramPage) : List (Nat × (Nat → UInt8)) :=
  (List.range u.HOST_PER_NAND_PAGES).filterMap fun ih =>
    if p.host_page_ptrs ih = 0 then none
    else some (ih * u.HOST_PAGE_SIZE, fun k => ram (p.host_page_ptrs ih + k))

/-- `sync_end_program_op`: each page of the operation is programmed from its buffer. -/
def sync_end_program_op (buffers : Nat → Nat → UInt8) (flash : Ppa → Nat → UInt8)
    (pop : List (Ppa × Nat)) : Ppa → Nat → UInt8 :=
  updateEach Prod.fst (fun x _ => buffers x.2) flash pop

/-- The buffers after the reads and the copies. -/
def fill_buffers (ram : Nat → UInt8) (d : Device) (program_pages : List ProgramPage) :
    Nat → Nat → UInt8 :=
  updateEach (fun p => p.temp_buffer) (fun p buffer => writeAll buffer u.copyBytes (copies u ram p))
    (sync_end_read_op d.flash d.rmp_buffer (readOps u program_pages)) program_pages

/-- The pages that are programmed, each from its buffer. -/
def programOps (program_pages : List ProgramPage) : List (Ppa × Nat) :=
  program_pages.map fun p => (p.new_ppa, p.temp_buffer)

/-- What `process_wbc` and `__sync_program_pages` do with their host pages. `none`:
`make_new_mapping` does not return. -/
def program_items (ram : Nat → UInt8) (items : List HostPageItem) (d : Device) :
    Option Device :=
  ((programScheme u).group (d.ftl, 0) items).map fun ((ftl, _), program_pages) =>
    let rmp_buffer := fill_buffers u ram d program_pages
    { ftl, flash := sync_end_program_op rmp_buffer d.flash (programOps program_pages), rmp_buffer }

def process_wbc (ram : Nat → UInt8) (wbc : Wbc u) : Device → Option Device :=
  program_items u ram (wbc_items wbc 0 0 WBC_PAGES)

/-- `__sync_program_pages` -/
def sync_program_pages (ram : Nat → UInt8) (start_lpn num_of_lpn ssd_addr : Nat) :
    Device → Option Device :=
  program_items u ram (sync_items u start_lpn num_of_lpn ssd_addr)

/-- The arguments of `__sync_program_pages`: NAND pages that are entries of `lpa_table`, no
more than there are records, and a buffer that lies in the RAM of 32-bit addresses and is not
the null pointer. -/
structure SyncPages where
  start_lpn : Nat
  num_of_lpn : Nat
  ssd_addr : Nat
  in_table : ∀ lpn_index < num_of_lpn,
    u.nandPage ((start_lpn + lpn_index) % 2 ^ 32) < u.total_num_of_pages
  touched_le : (touched u (sync_items u start_lpn num_of_lpn ssd_addr)).length ≤ MDTS_PAGES
  ssd_addr_ne : ssd_addr ≠ 0
  ssd_addr_end : ssd_addr + num_of_lpn * u.HOST_PAGE_SIZE ≤ 2 ^ 32

/-- An operation, with the RAM in which its host pages are. -/
inductive ProgramOp
  | process_wbc (ram : Nat → UInt8) (wbc : Wbc u)
  | sync_program_pages (ram : Nat → UInt8) (p : SyncPages u)

namespace ProgramOp

variable {u}

def ram : ProgramOp u → Nat → UInt8
  | .process_wbc ram _ => ram
  | .sync_program_pages ram _ => ram

def items : ProgramOp u → List HostPageItem
  | .process_wbc _ wbc => wbc_items wbc 0 0 WBC_PAGES
  | .sync_program_pages _ p => sync_items u p.start_lpn p.num_of_lpn p.ssd_addr

def call : ProgramOp u → Device → Option Device
  | .process_wbc ram wbc => UnequalWrites.process_wbc u ram wbc
  | .sync_program_pages ram p =>
    UnequalWrites.sync_program_pages u ram p.start_lpn p.num_of_lpn p.ssd_addr

end ProgramOp

end Firmware

/-! ## The last writes -/

/-- The bytes of each host page after its last write. -/
def lastWrites (written : Nat → Nat → UInt8) (ram : Nat → UInt8) (items : List HostPageItem) :
    Nat → Nat → UInt8 :=
  updateEach HostPageItem.lpn (fun i _ k => ram (i.ssd_addr + k)) written items

section Meaning

variable (u : UnequalBuild)

/-- The NAND page is mapped to a page with the last write of each of its host pages. -/
structure HoldsPage (d : Device) (written : Nat → Nat → UInt8) (nand_page : Nat) : Prop where
  mapped : d.ftl.is_unmapped_lpa nand_page = false
  bytes : ∀ ih < u.HOST_PER_NAND_PAGES, ∀ k < u.HOST_PAGE_SIZE,
    d.flash (d.ftl.lpa_table nand_page) (ih * u.HOST_PAGE_SIZE + k) =
      written (u.HOST_PER_NAND_PAGES * nand_page + ih) k

variable {u}

/-- The device, and beside it the last write to each host page. -/
def deviceStep (d : Device × (Nat → Nat → UInt8)) (op : ProgramOp u) :
    Option (Device × (Nat → Nat → UInt8)) :=
  (op.call d.1).map fun d' => (d', lastWrites d.2 op.ram op.items)

/-- After the operation, the NAND pages that it touched hold the last writes, and so do those
that were touched before, which are the mapped ones. -/
def HoldsLastWrites (d : Device × (Nat → Nat → UInt8)) (op : ProgramOp u) : Prop :=
  ∀ d', deviceStep d op = some d' →
    (∀ nand_page ∈ touched u op.items, HoldsPage u d'.1 d'.2 nand_page) ∧
      ∀ nand_page < u.total_num_of_pages, d'.1.ftl.is_unmapped_lpa nand_page = false →
        HoldsPage u d'.1 d'.2 nand_page

/-! ## The condition -/

/-- The host pages of an operation that are in a NAND page. -/
def pageItems (u : UnequalBuild) (items : List HostPageItem) (nand_page : Nat) :
    List HostPageItem :=
  items.filter fun i => u.nandPage i.lpn = nand_page

/-- When an operation does not read the NAND page, the byte of its buffer is what belongs
there: zero when the NAND page is unmapped, else the byte of its mapped page. -/
structure ByteReady (u : UnequalBuild) (d : Device) (items : List HostPageItem)
    (ix nand_page offset : Nat) : Prop where
  unmapped : d.ftl.is_unmapped_lpa nand_page = true → d.rmp_buffer ix offset = 0
  full : d.ftl.is_unmapped_lpa nand_page = false →
    u.HOST_PER_NAND_PAGES ≤ (pageItems u items nand_page).length →
    d.rmp_buffer ix offset = d.flash (d.ftl.lpa_table nand_page) offset

/-- The buffers are ready for each host page that the operation does not write. -/
def BufferReady (d : Device) (op : ProgramOp u) : Prop :=
  ∀ ix nand_page, (touched u op.items)[ix]? = some nand_page →
    ∀ ih < u.HOST_PER_NAND_PAGES,
      (∀ i ∈ op.items, i.lpn ≠ u.HOST_PER_NAND_PAGES * nand_page + ih) →
      ∀ k < u.HOST_PAGE_SIZE, ByteReady u d op.items ix nand_page (ih * u.HOST_PAGE_SIZE + k)

end Meaning

variable {u : UnequalBuild} {d : Device} {s s' : Ftl} {a ih k : Nat} {ram : Nat → UInt8}
  {items : List HostPageItem} {written : Nat → Nat → UInt8} {p : ProgramPage}

/-! ## The host pages of an operation -/

theorem wbc_items_valid {wbc : Wbc u} {icache num n : Nat} :
    ∀ i ∈ wbc_items wbc icache num n, ∃ j < icache + n,
      (wbc.pages j).valid = true ∧ i = (wbc.pages j).toHostPageItem := by
  induction n generalizing icache num with
  | zero => simp [wbc_items]
  | succ n ih =>
    intro i hi
    unfold wbc_items at hi
    split at hi
    · split at hi
      · rename_i hvalid
        rcases List.mem_cons.mp hi with rfl | hi
        · exact ⟨icache, by omega, hvalid, rfl⟩
        · obtain ⟨j, hj, hpage⟩ := ih i hi
          exact ⟨j, by omega, hpage⟩
      · obtain ⟨j, hj, hpage⟩ := ih i hi
        exact ⟨j, by omega, hpage⟩
    · cases hi

theorem ProgramOp.item_spec (op : ProgramOp u) {i : HostPageItem} (hi : i ∈ op.items) :
    u.nandPage i.lpn < u.total_num_of_pages ∧ i.ssd_addr ≠ 0 := by
  cases op with
  | process_wbc ram wbc =>
    obtain ⟨icache, hlt, hvalid, rfl⟩ := wbc_items_valid i hi
    rw [Nat.zero_add] at hlt
    exact ⟨wbc.in_table icache hlt hvalid, wbc.ssd_addr_ne icache hlt hvalid⟩
  | sync_program_pages ram p =>
    obtain ⟨lpn_index, hlt, rfl⟩ := List.mem_map.mp hi
    refine ⟨p.in_table lpn_index (List.mem_range.mp hlt), ?_⟩
    exact fun hnull => p.ssd_addr_ne (Nat.eq_zero_of_add_eq_zero_right hnull)

theorem ProgramOp.touched_lt (op : ProgramOp u) {nand_page : Nat}
    (h : nand_page ∈ touched u op.items) : nand_page < u.total_num_of_pages := by
  obtain ⟨i, hi, rfl⟩ := Scheme.mem_keys.mp h
  exact (op.item_spec hi).1

theorem ProgramOp.call_eq (op : ProgramOp u) (d : Device) :
    op.call d = program_items u op.ram op.items d := by
  cases op <;> rfl

/-- The last of the items for a host page. -/
def lastItem (items : List HostPageItem) (lpn : Nat) : Option HostPageItem :=
  (items.filter fun i => i.lpn = lpn).getLast?

theorem lastItem_eq_none {lpn : Nat} : lastItem items lpn = none ↔ ∀ i ∈ items, i.lpn ≠ lpn := by
  simp [lastItem]

theorem mem_of_lastItem {lpn : Nat} {i : HostPageItem} (h : lastItem items lpn = some i) :
    i ∈ items := List.mem_of_mem_filter (List.mem_of_getLast? h)

theorem lastWrites_eq (lpn k : Nat) : lastWrites written ram items lpn k =
    match lastItem items lpn with
    | some i => ram (i.ssd_addr + k)
    | none => written lpn k := by
  unfold lastWrites lastItem
  induction items using List.reverseRecOn with
  | nil => rfl
  | append_singleton items i ih =>
    rw [updateEach_snoc, List.filter_append]
    by_cases h : lpn = i.lpn
    · subst h
      rw [Function.update_self, List.filter_cons_of_pos (by simp), List.filter_nil]
      simp
    · rw [Function.update_of_ne h, List.filter_cons_of_neg (by simpa using fun he => h he.symm),
        List.filter_nil, List.append_nil, ih]

/-- The host page at an offset of a NAND page. -/
theorem nandPage_mul_add (nand_page : Nat) (h : ih < u.HOST_PER_NAND_PAGES) :
    u.nandPage (u.HOST_PER_NAND_PAGES * nand_page + ih) = nand_page := digits_div h

/-- The items at an offset of a NAND page are those of one host page. -/
theorem pageItems_offset (items : List HostPageItem) (nand_page : Nat)
    (h : ih < u.HOST_PER_NAND_PAGES) :
    ((pageItems u items nand_page).filter fun i => u.offsetInPage i.lpn = ih) =
      items.filter fun i => i.lpn = u.HOST_PER_NAND_PAGES * nand_page + ih := by
  unfold pageItems
  rw [List.filter_filter]
  apply List.filter_congr
  intro i _
  have hlpn := u.lpn_eq i.lpn
  rw [← Bool.decide_and, decide_eq_decide]
  constructor
  · rintro ⟨rfl, rfl⟩
    exact hlpn.symm
  · intro he
    rw [he]
    exact ⟨digits_mod h, digits_div h⟩

/-! ## The records of the NAND pages -/

/-- What a record says, when the record of each NAND page of `ks` got a new page in turn,
from page number `a` on, and the items joined them. -/
structure Record (u : UnequalBuild) (s s' : Ftl) (a : Nat) (ks : List Nat)
    (items : List HostPageItem) (p : ProgramPage) : Prop where
  place : ks[p.temp_buffer]? = some p.nand_page
  is_unmapped : p.is_unmapped = s.is_unmapped_lpa p.nand_page
  current_ppa : p.is_unmapped = false → p.current_ppa = s.lpa_table p.nand_page
  new_ppa : s'.lpa_table p.nand_page = p.new_ppa
  hasPage : u.HasPage p.new_ppa
  number : u.number p.new_ppa = a + p.temp_buffer
  ptrs : ∀ ih < u.HOST_PER_NAND_PAGES, p.host_page_ptrs ih =
    ((lastItem items (u.HOST_PER_NAND_PAGES * p.nand_page + ih)).map HostPageItem.ssd_addr).getD 0
  host_pages : p.host_pages = (pageItems u items p.nand_page).length

/-- The tables and the records of an operation. -/
structure Created (u : UnequalBuild) (s s' : Ftl) (a : Nat) (ks : List Nat)
    (items : List HostPageItem) (ps : List ProgramPage) : Prop where
  good : Good u.toGeometry s' (a + ks.length)
  keys : ps.map (fun p => p.nand_page) = ks
  records : ∀ p ∈ ps, Record u s s' a ks items p
  others : ∀ l ∉ ks, s'.lpa_table l = s.lpa_table l

theorem createAll_spec {ks : List Nat} {r : (Ftl × Nat) × List ProgramPage}
    (h : Good u.toGeometry s a) (hnodup : ks.Nodup) (hks : ∀ k ∈ ks, k < u.total_num_of_pages)
    (hr : (programScheme u).createAll (s, 0) ks = some r) :
    r.1.2 = ks.length ∧ Created u s r.1.1 a ks [] r.2 := by
  have hkeys := Scheme.keyOf_createAll hr
  induction ks using List.reverseRecOn generalizing r with
  | nil =>
    cases hr
    exact ⟨rfl, h, rfl, by simp, fun _ _ => rfl⟩
  | append_singleton ks k ih =>
    rw [Scheme.createAll_snoc] at hr
    obtain ⟨⟨⟨s1, count⟩, ps⟩, hq, hlast⟩ := Option.bind_eq_some_iff.mp hr
    obtain ⟨⟨⟨s2, count'⟩, p⟩, hcreate, rfl⟩ := Option.map_eq_some_iff.mp hlast
    obtain ⟨⟨x, s3⟩, hmake, hnew⟩ := Option.map_eq_some_iff.mp hcreate
    simp only [Prod.mk.injEq] at hnew
    obtain ⟨⟨rfl, rfl⟩, rfl⟩ := hnew
    rw [List.nodup_append] at hnodup
    have hk : k ∉ ks := fun hmem => hnodup.2.2 k hmem k (by simp) rfl
    obtain ⟨hcount, hprev⟩ := ih hnodup.1 (fun l hl => hks l (List.mem_append_left _ hl)) hq
      (Scheme.keyOf_createAll hq)
    simp only at hcount hmake hprev
    subst hcount
    obtain ⟨ha, hx, hnum, rfl⟩ := make_new_mapping_cases hprev.good hmake
    have hlpa : (map_new_page k x (s1.advance x)).lpa_table = Function.update s1.lpa_table k x := by
      simp
    have hold : s1.lpa_table k = s.lpa_table k := hprev.others k hk
    have hunmapped : s1.is_unmapped_lpa k = s.is_unmapped_lpa k := by
      unfold Ftl.is_unmapped_lpa
      rw [hold]
    have hgood := good_map_new_page hprev.good ha hx hnum (hks k (by simp))
    refine ⟨by simp, ?_, hkeys, ?_, ?_⟩
    · rw [List.length_append, List.length_singleton, ← Nat.add_assoc]
      exact hgood
    · intro p hp
      rcases List.mem_append.mp hp with hp | hp
      · have hrec := hprev.records p hp
        have hne : p.nand_page ≠ k := by
          rintro rfl
          exact hk (List.mem_of_getElem? hrec.place)
        refine { hrec with place := ?_, new_ppa := ?_ }
        · rw [List.getElem?_append_left (List.getElem?_eq_some_iff.mp hrec.place).1]
          exact hrec.place
        · simp only
          rw [hlpa, Function.update_of_ne hne]
          exact hrec.new_ppa
      · obtain rfl := List.mem_singleton.mp hp
        simp only [TouchedPage.new, hunmapped, hold]
        refine ⟨by simp, rfl, fun hm => ?_, ?_, hx, hnum, fun _ _ => rfl, rfl⟩
        · simp only at hm ⊢
          rw [hm, if_neg Bool.false_ne_true]
        · simp only
          rw [hlpa, Function.update_self]
    · intro l hl
      rw [List.mem_append, not_or, List.mem_singleton] at hl
      simp only
      rw [hlpa, Function.update_of_ne hl.2]
      exact hprev.others l hl.1

theorem fill_program (p : ProgramPage) : (programScheme u).fill items p =
    { p with toTouchedPage :=
        (pageItems u items p.nand_page).foldl (TouchedPage.addHostPage u) p.toTouchedPage } := by
  have hfold : ∀ (is : List HostPageItem) (p : ProgramPage),
      is.foldl (programScheme u).add p =
        { p with toTouchedPage := is.foldl (TouchedPage.addHostPage u) p.toTouchedPage } := by
    intro is
    induction is with
    | nil => exact fun _ => rfl
    | cons i rest ih =>
      intro p
      rw [List.foldl_cons, ih]
      rfl
  exact hfold _ p

/-- The items join the records of their NAND pages. -/
theorem Record.fill {ks : List Nat} (h : Record u s s' a ks [] p) :
    Record u s s' a ks items ((programScheme u).fill items p) := by
  rw [fill_program]
  obtain ⟨hnand, hunmapped, hcurrent, hbuffer, hcount⟩ := TouchedPage.addHostPages_fields (u := u)
    p.toTouchedPage (pageItems u items p.nand_page)
  refine ⟨?_, ?_, ?_, ?_, h.hasPage, ?_, ?_, ?_⟩
  · simp only [hnand, hbuffer]
    exact h.place
  · simp only [hnand, hunmapped]
    exact h.is_unmapped
  · simp only [hnand, hunmapped, hcurrent]
    exact h.current_ppa
  · simp only [hnand]
    exact h.new_ppa
  · simp only [hbuffer]
    exact h.number
  · intro ih hih
    have hnull : p.host_page_ptrs ih = 0 := h.ptrs ih hih
    simp only [hnand, TouchedPage.addHostPages_ptrs, pageItems_offset items p.nand_page hih, hnull]
    rfl
  · have hzero : p.host_pages = 0 := h.host_pages
    simp only [hnand, hcount, hzero, Nat.zero_add]

theorem Created.fill {ks : List Nat} {ps : List ProgramPage} (h : Created u s s' a ks [] ps) :
    Created u s s' a ks items (ps.map ((programScheme u).fill items)) := by
  refine ⟨h.good, ?_, ?_, h.others⟩
  · rw [List.map_map, ← h.keys]
    exact List.map_congr_left fun p _ => Scheme.keyOf_fill (S := programScheme u) p
  · intro p hp
    obtain ⟨q, hq, rfl⟩ := List.mem_map.mp hp
    exact (h.records q hq).fill

/-- What the loop over the host pages leaves. -/
theorem group_spec {r : (Ftl × Nat) × List ProgramPage} (h : Good u.toGeometry s a)
    (hitems : ∀ l ∈ touched u items, l < u.total_num_of_pages)
    (hr : (programScheme u).group (s, 0) items = some r) :
    Created u s r.1.1 a (touched u items) items r.2 := by
  rw [Scheme.group_eq] at hr
  obtain ⟨q, hq, rfl⟩ := Option.map_eq_some_iff.mp hr
  exact (createAll_spec h Scheme.keys_nodup hitems hq).2.fill

namespace Created

variable {ps : List ProgramPage} {q : ProgramPage}

/-- The records have different buffers. -/
theorem buffers_nodup (h : Created u s s' a (touched u items) items ps) :
    (ps.map fun p => p.temp_buffer).Nodup := by
  have hplaces : (ps.map fun p => p.temp_buffer).map (fun ix => (touched u items)[ix]?) =
      (ps.map fun p => p.nand_page).map some := by
    rw [List.map_map, List.map_map]
    exact List.map_congr_left fun p hp => (h.records p hp).place
  apply List.Nodup.of_map (fun ix => (touched u items)[ix]?)
  rw [hplaces, h.keys]
  exact Scheme.keys_nodup.map (Option.some_injective _)

/-- The records have different new pages. -/
theorem new_ppas_nodup (h : Created u s s' a (touched u items) items ps) :
    (ps.map fun p => p.new_ppa).Nodup := by
  have hnumbers : (ps.map fun p => p.new_ppa).map u.number =
      (ps.map fun p => p.temp_buffer).map (a + ·) := by
    rw [List.map_map, List.map_map]
    exact List.map_congr_left fun p hp => (h.records p hp).number
  apply List.Nodup.of_map u.number
  rw [hnumbers]
  exact h.buffers_nodup.map fun i j he => Nat.add_left_cancel he

theorem eq_of_buffer (h : Created u s s' a (touched u items) items ps) (hp : p ∈ ps) (hq : q ∈ ps)
    (he : p.temp_buffer = q.temp_buffer) : p = q :=
  List.inj_on_of_nodup_map h.buffers_nodup hp hq he

end Created

/-! ## The new pages -/

/-- The buffer of a record before the host pages are copied to it. -/
def baseBuffer (u : UnequalBuild) (d : Device) (p : ProgramPage) : Nat → UInt8 :=
  if isRead u p then d.flash p.current_ppa else d.rmp_buffer p.temp_buffer

/-- The flash after an operation: each record has its buffer in its new page. -/
structure Programmed (u : UnequalBuild) (ram : Nat → UInt8) (d d' : Device)
    (ps : List ProgramPage) : Prop where
  new : ∀ p ∈ ps, d'.flash p.new_ppa = writeAll (baseBuffer u d p) u.copyBytes (copies u ram p)
  other : ∀ x, (∀ p ∈ ps, x ≠ p.new_ppa) → d'.flash x = d.flash x

theorem Created.filled {ps : List ProgramPage}
    (h : Created u s s' a (touched u items) items ps) (hp : p ∈ ps) :
    fill_buffers u ram d ps p.temp_buffer =
      writeAll (baseBuffer u d p) u.copyBytes (copies u ram p) := by
  unfold fill_buffers
  rw [updateEach_of_mem h.buffers_nodup hp]
  congr 1
  unfold baseBuffer sync_end_read_op
  have hbuffers : (readOps u ps).map Prod.fst =
      (ps.filter (isRead u)).map fun p => p.temp_buffer := by
    unfold readOps
    rw [List.map_map]
    rfl
  by_cases hread : isRead u p = true
  · rw [if_pos hread]
    have hnodup : ((readOps u ps).map Prod.fst).Nodup := by
      rw [hbuffers]
      exact h.buffers_nodup.sublist (List.filter_sublist.map _)
    exact updateEach_of_mem (x := (p.temp_buffer, p.current_ppa)) hnodup
      (List.mem_map.mpr ⟨p, List.mem_filter.mpr ⟨hp, hread⟩, rfl⟩)
  · rw [if_neg hread]
    apply updateEach_other
    rw [hbuffers]
    intro hmem
    obtain ⟨q, hq, hbuffer⟩ := List.mem_map.mp hmem
    obtain ⟨hq, hqread⟩ := List.mem_filter.mp hq
    exact hread (h.eq_of_buffer hq hp hbuffer ▸ hqread)

theorem program_items_spec {d' : Device} (h : Good u.toGeometry d.ftl a)
    (hitems : ∀ l ∈ touched u items, l < u.total_num_of_pages)
    (hd : program_items u ram items d = some d') :
    ∃ ps, Created u d.ftl d'.ftl a (touched u items) items ps ∧ Programmed u ram d d' ps := by
  obtain ⟨⟨⟨ftl, count⟩, ps⟩, hr, rfl⟩ := Option.map_eq_some_iff.mp hd
  have hcreated : Created u d.ftl ftl a (touched u items) items ps := group_spec h hitems hr
  have hpages : (programOps ps).map Prod.fst = ps.map fun p => p.new_ppa := by
    unfold programOps
    rw [List.map_map]
    rfl
  have hnew : ∀ p ∈ ps, sync_end_program_op (fill_buffers u ram d ps) d.flash (programOps ps)
      p.new_ppa = writeAll (baseBuffer u d p) u.copyBytes (copies u ram p) := by
    intro p hp
    rw [← hcreated.filled hp]
    exact updateEach_of_mem (x := (p.new_ppa, p.temp_buffer)) (hpages ▸ hcreated.new_ppas_nodup)
      (List.mem_map.mpr ⟨p, hp, rfl⟩)
  have hother : ∀ x, (∀ p ∈ ps, x ≠ p.new_ppa) →
      sync_end_program_op (fill_buffers u ram d ps) d.flash (programOps ps) x = d.flash x := by
    intro x hx
    apply updateEach_other
    rw [hpages]
    intro hmem
    obtain ⟨p, hp, rfl⟩ := List.mem_map.mp hmem
    exact hx p hp rfl
  exact ⟨ps, hcreated, hnew, hother⟩

theorem mem_copies {w : Nat × (Nat → UInt8)} : w ∈ copies u ram p ↔
    ∃ ih < u.HOST_PER_NAND_PAGES, p.host_page_ptrs ih ≠ 0 ∧
      w = (ih * u.HOST_PAGE_SIZE, fun k => ram (p.host_page_ptrs ih + k)) := by
  unfold copies
  simp only [List.mem_filterMap, List.mem_range, ite_eq_iff, reduceCtorEq, and_false, false_or,
    Option.some.injEq]
  refine exists_congr fun ih => and_congr_right fun _ => and_congr_right fun _ => ?_
  exact eq_comm

/-- Byte `k` of host page `ih` after the copies: that of the last item there, or of the buffer
before. -/
theorem copied_byte {ks : List Nat} {base : Nat → UInt8} (h : Record u s s' a ks items p)
    (hptrs : ∀ i ∈ items, i.ssd_addr ≠ 0) (hih : ih < u.HOST_PER_NAND_PAGES)
    (hk : k < u.HOST_PAGE_SIZE) :
    writeAll base u.copyBytes (copies u ram p) (ih * u.HOST_PAGE_SIZE + k) =
      match lastItem items (u.HOST_PER_NAND_PAGES * p.nand_page + ih) with
      | some i => ram (i.ssd_addr + k)
      | none => base (ih * u.HOST_PAGE_SIZE + k) := by
  rw [u.copyBytes_eq]
  have hptr := h.ptrs ih hih
  cases hlast : lastItem items (u.HOST_PER_NAND_PAGES * p.nand_page + ih) with
  | none =>
    rw [hlast] at hptr
    apply writeAll_untouched
    intro w hw
    obtain ⟨j, -, hne, rfl⟩ := mem_copies.mp hw
    apply digits_apart hk
    rintro rfl
    exact hne hptr
  | some i =>
    rw [hlast] at hptr
    have hptr : p.host_page_ptrs ih = i.ssd_addr := hptr
    have hne : p.host_page_ptrs ih ≠ 0 := hptr ▸ hptrs i (mem_of_lastItem hlast)
    -- Each copy writes the bytes that the pointers give for its place.
    have htarget : ∀ j k, k < u.HOST_PAGE_SIZE →
        ram (p.host_page_ptrs ((j * u.HOST_PAGE_SIZE + k) / u.HOST_PAGE_SIZE) +
          (j * u.HOST_PAGE_SIZE + k) % u.HOST_PAGE_SIZE) = ram (p.host_page_ptrs j + k) := by
      intro j k hk
      rw [Nat.mul_comm, digits_div hk, digits_mod hk]
    simp only
    rw [← hptr, ← htarget ih k hk]
    refine writeAll_covered (fun j =>
      ram (p.host_page_ptrs (j / u.HOST_PAGE_SIZE) + j % u.HOST_PAGE_SIZE)) ?_ ?_
    · intro w hw k hk
      obtain ⟨j, -, -, rfl⟩ := mem_copies.mp hw
      exact (htarget j k hk).symm
    · exact ⟨_, mem_copies.mpr ⟨ih, hih, hne, rfl⟩, by simp only; omega, by simp only; omega⟩

/-! ## What holds between two operations -/

/-- Mapped NAND pages hold the last writes, and unmapped ones were never written. -/
structure Holds (u : UnequalBuild) (d : Device) (written : Nat → Nat → UInt8) : Prop where
  good : ∃ a, Good u.toGeometry d.ftl a
  mapped : ∀ nand_page < u.total_num_of_pages, d.ftl.is_unmapped_lpa nand_page = false →
    HoldsPage u d written nand_page
  unmapped : ∀ nand_page < u.total_num_of_pages, d.ftl.is_unmapped_lpa nand_page = true →
    ∀ ih < u.HOST_PER_NAND_PAGES, ∀ k, written (u.HOST_PER_NAND_PAGES * nand_page + ih) k = 0

theorem holds_initialize_ftl (u : UnequalBuild) (flash : Ppa → Nat → UInt8)
    (rmp_buffer : Nat → Nat → UInt8) :
    Holds u ⟨initialize_ftl u.toGeometry, flash, rmp_buffer⟩ fun _ _ => 0 := by
  refine ⟨⟨1, good_initialize_ftl _⟩, fun _ _ hm => ?_, fun _ _ _ _ _ _ => rfl⟩
  cases hm

/-- The buffer of a record holds what was last written exactly when its byte is ready. -/
theorem Holds.baseBuffer_iff (h : Holds u d written)
    (hrecord : Record u d.ftl s' a (touched u items) items p)
    (hpage : p.nand_page < u.total_num_of_pages) (hih : ih < u.HOST_PER_NAND_PAGES)
    (hk : k < u.HOST_PAGE_SIZE) :
    baseBuffer u d p (ih * u.HOST_PAGE_SIZE + k) =
        written (u.HOST_PER_NAND_PAGES * p.nand_page + ih) k ↔
      ByteReady u d items p.temp_buffer p.nand_page (ih * u.HOST_PAGE_SIZE + k) := by
  have hunmapped := hrecord.is_unmapped
  have hcount := hrecord.host_pages
  unfold baseBuffer isRead
  cases hmap : p.is_unmapped with
  | true =>
    rw [hmap] at hunmapped
    rw [h.unmapped _ hpage hunmapped.symm ih hih k, Bool.not_true, Bool.false_and,
      if_neg Bool.false_ne_true]
    refine ⟨fun he => ⟨fun _ => he, fun hm => ?_⟩, fun hready => hready.unmapped hunmapped.symm⟩
    rw [hm] at hunmapped
    cases hunmapped
  | false =>
    rw [hmap] at hunmapped
    have hbyte := (h.mapped _ hpage hunmapped.symm).bytes ih hih k hk
    rw [hrecord.current_ppa hmap, ← hbyte, Bool.not_false, Bool.true_and, hcount]
    have hnot : ¬ d.ftl.is_unmapped_lpa p.nand_page = true := by rw [← hunmapped]; nofun
    by_cases hpart : (pageItems u items p.nand_page).length < u.HOST_PER_NAND_PAGES
    · rw [if_pos (decide_eq_true hpart)]
      refine iff_of_true rfl ⟨fun hm => absurd hm hnot, fun _ hfull => ?_⟩
      omega
    · rw [if_neg (by simpa using hpart)]
      refine ⟨fun he => ⟨fun hm => absurd hm hnot, fun _ _ => he⟩, fun hready => ?_⟩
      exact hready.full hunmapped.symm (by omega)

section Step

variable {op : ProgramOp u} {d' : Device} {ps : List ProgramPage}

/-- The new page of a record has a byte of the last writes when the operation writes it, or
when it was ready. -/
theorem Holds.new_page_byte_iff (h : Holds u d written)
    (hcreated : Created u d.ftl d'.ftl a (touched u op.items) op.items ps)
    (hprogrammed : Programmed u op.ram d d' ps) (hp : p ∈ ps) (hih : ih < u.HOST_PER_NAND_PAGES)
    (hk : k < u.HOST_PAGE_SIZE) :
    d'.flash (d'.ftl.lpa_table p.nand_page) (ih * u.HOST_PAGE_SIZE + k) =
        lastWrites written op.ram op.items (u.HOST_PER_NAND_PAGES * p.nand_page + ih) k ↔
      ((∀ i ∈ op.items, i.lpn ≠ u.HOST_PER_NAND_PAGES * p.nand_page + ih) →
        ByteReady u d op.items p.temp_buffer p.nand_page (ih * u.HOST_PAGE_SIZE + k)) := by
  have hrecord := hcreated.records p hp
  have hpage := op.touched_lt (List.mem_of_getElem? hrecord.place)
  rw [hrecord.new_ppa, hprogrammed.new p hp,
    copied_byte hrecord (fun i hi => (op.item_spec hi).2) hih hk, lastWrites_eq, ← lastItem_eq_none,
    ← h.baseBuffer_iff hrecord hpage hih hk]
  cases lastItem op.items (u.HOST_PER_NAND_PAGES * p.nand_page + ih) <;> simp

/-- The step lemma: the touched pages hold the last writes exactly when the buffers were
ready. -/
theorem Holds.touched_iff (h : Holds u d written)
    (hcreated : Created u d.ftl d'.ftl a (touched u op.items) op.items ps)
    (hprogrammed : Programmed u op.ram d d' ps) :
    (∀ nand_page ∈ touched u op.items,
        HoldsPage u d' (lastWrites written op.ram op.items) nand_page) ↔ BufferReady d op := by
  have hexists : ∀ l ∈ touched u op.items, ∃ p ∈ ps, p.nand_page = l := by
    intro l hl
    rw [← hcreated.keys] at hl
    exact List.mem_map.mp hl
  constructor
  · intro hholds ix l hl ih hih hnone k hk
    obtain ⟨p, hp, rfl⟩ := hexists l (List.mem_of_getElem? hl)
    have hbyte := (hholds _ (List.mem_of_getElem? hl)).bytes ih hih k hk
    have hready := (h.new_page_byte_iff hcreated hprogrammed hp hih hk).mp hbyte hnone
    -- The record is at the place of its NAND page.
    have hplace := (hcreated.records p hp).place
    obtain ⟨hix, hget⟩ := List.getElem?_eq_some_iff.mp hl
    obtain ⟨hjx, hget'⟩ := List.getElem?_eq_some_iff.mp hplace
    rwa [Scheme.keys_nodup.getElem_inj_iff.mp (hget'.trans hget.symm)] at hready
  · intro hready l hl
    obtain ⟨p, hp, rfl⟩ := hexists l hl
    have hrecord := hcreated.records p hp
    refine ⟨?_, fun ih hih k hk => ?_⟩
    · unfold Ftl.is_unmapped_lpa
      rw [hrecord.new_ppa]
      simpa using hrecord.hasPage.chn_ne
    · rw [h.new_page_byte_iff hcreated hprogrammed hp hih hk]
      exact fun hnone => hready _ _ hrecord.place ih hih hnone k hk

/-- A NAND page that the operation does not touch keeps its bytes. -/
theorem lastWrites_untouched {l : Nat} (hl : l ∉ touched u items)
    (hih : ih < u.HOST_PER_NAND_PAGES) :
    lastWrites written ram items (u.HOST_PER_NAND_PAGES * l + ih) k =
      written (u.HOST_PER_NAND_PAGES * l + ih) k := by
  have hnone : lastItem items (u.HOST_PER_NAND_PAGES * l + ih) = none := by
    rw [lastItem_eq_none]
    intro i hi he
    apply hl
    refine Scheme.mem_keys.mpr ⟨i, hi, ?_⟩
    rw [← nandPage_mul_add l hih, ← he]
    rfl
  rw [lastWrites_eq, hnone]

theorem Holds.next (h : Holds u d written) (hgood : Good u.toGeometry d.ftl a)
    (hcreated : Created u d.ftl d'.ftl a (touched u op.items) op.items ps)
    (hprogrammed : Programmed u op.ram d d' ps) (hready : BufferReady d op) :
    Holds u d' (lastWrites written op.ram op.items) := by
  have htouched := (h.touched_iff hcreated hprogrammed).mpr hready
  have hsame : ∀ l ∉ touched u op.items,
      d'.ftl.is_unmapped_lpa l = d.ftl.is_unmapped_lpa l := by
    intro l hl
    unfold Ftl.is_unmapped_lpa
    rw [hcreated.others l hl]
  refine ⟨⟨_, hcreated.good⟩, fun l hl hm => ?_, fun l hl hm ih hih k => ?_⟩
  · by_cases hmem : l ∈ touched u op.items
    · exact htouched l hmem
    · rw [hsame l hmem] at hm
      have hpage := h.mapped l hl hm
      refine ⟨(hsame l hmem).trans hm, fun ih hih k hk => ?_⟩
      rw [hcreated.others l hmem, lastWrites_untouched hmem hih, ← hpage.bytes ih hih k hk,
        hprogrammed.other]
      -- The new pages were free, so the page of another NAND page is none of them.
      intro p hp he
      have hlt := hgood.mapped_number_lt hl hm
      rw [he, (hcreated.records p hp).number] at hlt
      omega
  · have hmem : l ∉ touched u op.items := by
      intro hmem
      rw [(htouched l hmem).mapped] at hm
      cases hm
    rw [hsame l hmem] at hm
    rw [lastWrites_untouched hmem hih]
    exact h.unmapped l hl hm ih hih k

end Step

/-- An operation on a device that holds the last writes. -/
theorem Holds.of_step {d d' : Device × (Nat → Nat → UInt8)} {op : ProgramOp u}
    (hd : Holds u d.1 d.2) (hstep : deviceStep d op = some d') :
    (HoldsLastWrites d op ↔ BufferReady d.1 op) ∧ (BufferReady d.1 op → Holds u d'.1 d'.2) := by
  obtain ⟨e, hcall, rfl⟩ := Option.map_eq_some_iff.mp hstep
  rw [op.call_eq] at hcall
  obtain ⟨a, hgood⟩ := hd.good
  obtain ⟨ps, hcreated, hprogrammed⟩ :=
    program_items_spec hgood (fun l hl => op.touched_lt hl) hcall
  have hnext := hd.next hgood hcreated hprogrammed
  have hiff := hd.touched_iff hcreated hprogrammed
  refine ⟨⟨fun hholds => ?_, fun hready d' hd' => ?_⟩, hnext⟩
  · exact hiff.mp (hholds _ hstep).1
  · obtain rfl := Option.some.inj (hstep.symm.trans hd')
    exact ⟨hiff.mpr hready, (hnext hready).mapped⟩

theorem holds_run {flash : Ppa → Nat → UInt8} {rmp_buffer : Nat → Nat → UInt8}
    {ops : List (ProgramOp u)} {d' : Device × (Nat → Nat → UInt8)}
    (hok : AllSteps deviceStep (fun d op => BufferReady d.1 op)
      (⟨initialize_ftl u.toGeometry, flash, rmp_buffer⟩, fun _ _ => 0) ops)
    (h : run deviceStep (⟨initialize_ftl u.toGeometry, flash, rmp_buffer⟩, fun _ _ => 0) ops =
      some d') : Holds u d'.1 d'.2 :=
  run_invariant_of_ok (I := fun _ d => Holds u d.1 d.2) (holds_initialize_ftl u flash rmp_buffer)
    (fun _ _ _ _ _ hd hready hstep => (hd.of_step hstep).2 hready) hok h

/-! ## The law -/

/-- From new media, in every run the NAND pages touched so far hold the last writes after each
operation, exactly when the buffers are ready before each operation. -/
theorem the_touched_pages_hold_the_last_writes_iff_the_buffers_are_ready
    {flash : Ppa → Nat → UInt8} {rmp_buffer : Nat → Nat → UInt8} {ops : List (ProgramOp u)}
    {d' : Device × (Nat → Nat → UInt8)}
    (h : run deviceStep (⟨initialize_ftl u.toGeometry, flash, rmp_buffer⟩, fun _ _ => 0) ops =
      some d') :
    AllSteps deviceStep HoldsLastWrites
        (⟨initialize_ftl u.toGeometry, flash, rmp_buffer⟩, fun _ _ => 0) ops ↔
      AllSteps deviceStep (fun d op => BufferReady d.1 op)
        (⟨initialize_ftl u.toGeometry, flash, rmp_buffer⟩, fun _ _ => 0) ops := by
  refine allSteps_congr_of_invariant (I := fun d => Holds u d.1 d.2)
    (fun d op d' hd hstep => (hd.of_step hstep).1) ?_ (holds_initialize_ftl u flash rmp_buffer) h
  intro d op d' hd hholds hstep
  obtain ⟨hiff, hnext⟩ := hd.of_step hstep
  exact hnext (hiff.mp hholds)

/-- A write cache with one host page. -/
def oneHostPage (lpn : Nat)
    (in_table : twoHostPages.nandPage lpn < twoHostPages.total_num_of_pages) :
    Wbc twoHostPages where
  pages icache := ⟨⟨lpn, 4096⟩, icache == 0⟩
  num_program_pgs := 1
  in_table _ _ _ := in_table
  ssd_addr_ne _ _ _ := Nat.succ_ne_zero 4095
  ssd_addr_end _ _ _ := show 4096 + twoHostPages.HOST_PAGE_SIZE ≤ 2 ^ 32 by decide

/-- LBA 0 and then LBA 1 are written. The second write reads the NAND page before. -/
theorem the_touched_pages_hold_the_last_writes_after_a_partial_write :
    AllSteps deviceStep HoldsLastWrites
      (⟨initialize_ftl twoHostPages.toGeometry, fun _ _ => 0, fun _ _ => 0⟩, fun _ _ => 0)
      [.process_wbc (fun _ => 1) (oneHostPage 0 (by decide)),
        .process_wbc (fun _ => 2) (oneHostPage 1 (by decide))] := by
  obtain ⟨d', hd'⟩ := Option.isSome_iff_exists.mp (show (run deviceStep
    (⟨initialize_ftl twoHostPages.toGeometry, fun _ _ => 0, fun _ _ => 0⟩, fun _ _ => 0)
      [.process_wbc (fun _ => 1) (oneHostPage 0 (by decide)),
        .process_wbc (fun _ => 2) (oneHostPage 1 (by decide))]).isSome = true by decide +kernel)
  refine (the_touched_pages_hold_the_last_writes_iff_the_buffers_are_ready hd').mpr ⟨?_, ?_⟩
  · exact fun _ _ _ _ _ _ _ _ => ⟨fun _ => rfl, nofun⟩
  · refine fun t ht => ⟨fun ix l hl ih hih _ k hk => ?_, fun _ _ => trivial⟩
    have hmapped : ((deviceStep
        (⟨initialize_ftl twoHostPages.toGeometry, fun _ _ => 0, fun _ _ => 0⟩, fun _ _ => 0)
        (.process_wbc (fun _ => 1) (oneHostPage 0 (by decide)))).map
          fun d => d.1.ftl.is_unmapped_lpa 0) = some false := by decide +kernel
    rw [ht] at hmapped
    obtain rfl : l = 0 := List.mem_singleton.mp (List.mem_of_getElem? hl : l ∈ [0])
    refine ⟨fun hm => ?_, fun _ hfull => absurd hfull (by decide)⟩
    rw [Option.map_some, hm] at hmapped
    cases hmapped

/-- LBA 0 and then LBA 3 are written, each alone in its NAND page. LBA 2 was never written, but
it gets the bytes of LBA 0, which are still in the buffer. -/
theorem an_lba_that_was_never_written_gets_old_bytes :
    ¬ ∀ (u : UnequalBuild) (flash : Ppa → Nat → UInt8) (rmp_buffer : Nat → Nat → UInt8)
      (ops : List (ProgramOp u)) (d' : Device × (Nat → Nat → UInt8)),
      run deviceStep (⟨initialize_ftl u.toGeometry, flash, rmp_buffer⟩, fun _ _ => 0) ops =
        some d' →
      AllSteps deviceStep HoldsLastWrites
        (⟨initialize_ftl u.toGeometry, flash, rmp_buffer⟩, fun _ _ => 0) ops := by
  intro hall
  have hbytes : (run deviceStep
      (⟨initialize_ftl twoHostPages.toGeometry, fun _ _ => 0, fun _ _ => 0⟩, fun _ _ => 0)
      ([.process_wbc (fun _ => 1) (oneHostPage 0 (by decide))] ++
        [.process_wbc (fun _ => 2) (oneHostPage 3 (by decide))])).map
      (fun d => (d.1.flash (d.1.ftl.lpa_table 1) 0, d.2 2 0)) = some (1, 0) := by decide +kernel
  obtain ⟨d', hd', hd'bytes⟩ := Option.map_eq_some_iff.mp hbytes
  obtain ⟨t, ht, hlast⟩ := run_snoc_eq_some.mp hd'
  have hholds := ((allSteps_snoc.mp (hall twoHostPages _ _ _ d' hd')).2 t ht d' hlast).1 1
    (by decide)
  have hbyte := hholds.bytes 0 (by decide) 0 (by decide)
  rw [Prod.mk.injEq] at hd'bytes
  exact absurd (hd'bytes.1.symm.trans (hbyte.trans hd'bytes.2)) (by decide)

end S4Sim.UnequalWrites
