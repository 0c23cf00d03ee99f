-- The build with NAND pages larger than host pages, from unequal.pages.c: the
-- records `read_pages` and `program_pages`, one for each NAND page of a request,
-- and how the host pages of the request are put into them.
import S4Sim.Ftl.Ftl
import S4Sim.Lib.Grouping
import S4Sim.Lib.Window
import Mathlib.Data.List.Flatten

open Grouping Windows

namespace S4Sim

/-! ## The build -/

/-- The options of a build with `HOST_2_NAND_DS > 0`. A host page holds whole words. -/
structure UnequalBuild extends Geometry where
  host_lt : host_page_size < nand_page_size
  words : 2 ≤ host_page_size

namespace UnequalBuild

variable (u : UnequalBuild)

def HOST_2_NAND_DS : Nat := u.nand_page_size - u.host_page_size

def HOST_PER_NAND_PAGES : Nat := 2 ^ u.HOST_2_NAND_DS

def HOST_PAGE_SIZE : Nat := 2 ^ u.host_page_size

/-- `lpn >> HOST_2_NAND_DS` -/
def nandPage (lpn : Nat) : Nat := lpn / u.HOST_PER_NAND_PAGES

/-- `lpn % HOST_PER_NAND_PAGES` -/
def offsetInPage (lpn : Nat) : Nat := lpn % u.HOST_PER_NAND_PAGES

/-- The bytes that `memcpy_sysbitw` copies of a host page: `HOST_PAGE_SIZE / 4` words. -/
def copyBytes : Nat := 4 * (u.HOST_PAGE_SIZE / 4)

variable {u}

theorem host_per_nand_pos : 0 < u.HOST_PER_NAND_PAGES := Nat.two_pow_pos _

theorem host_page_size_pos : 0 < u.HOST_PAGE_SIZE := Nat.two_pow_pos _

theorem copyBytes_eq : u.copyBytes = u.HOST_PAGE_SIZE := by
  apply Nat.mul_div_cancel'
  exact Nat.pow_dvd_pow 2 u.words

theorem offsetInPage_lt (lpn : Nat) : u.offsetInPage lpn < u.HOST_PER_NAND_PAGES :=
  Nat.mod_lt _ host_per_nand_pos

theorem lpn_eq (lpn : Nat) :
    u.HOST_PER_NAND_PAGES * u.nandPage lpn + u.offsetInPage lpn = lpn := Nat.div_add_mod ..

end UnequalBuild

/-- NAND pages of two host pages of four bytes. -/
def twoHostPages : UnequalBuild where
  toGeometry := { twoChannels with
    nand_page_size := 3
    host_page_size := 2
    tables_fit := by decide }
  host_lt := by decide
  words := by decide

/-! ## The records of the NAND pages -/

/-- The fields that `read_pages_t` and `program_pages_t` share, as far as they are read. A
pointer 0 is the null pointer, and `temp_buffer` is an index into `temp_read_buffer` or
`rmp_buffer`. `host_pages` is `read_host_pages` of the one and `mod_host_pages` of the other. -/
structure TouchedPage where
  nand_page : Nat
  is_unmapped : Bool
  current_ppa : Ppa
  temp_buffer : Nat
  host_page_ptrs : Nat → Nat
  host_pages : Nat

/-- A host page of a request: its LBA and the buffer of its data. -/
structure HostPageItem where
  lpn : Nat
  ssd_addr : Nat

namespace HostPageItem

variable {items : List HostPageItem} {addr : Nat}

/-- The pointer that the last of some host pages leaves. -/
theorem last_ptr (hne : items ≠ []) (h : ∀ i ∈ items, i.ssd_addr = addr) :
    (items.getLast?.map HostPageItem.ssd_addr).getD 0 = addr := by
  rw [List.getLast?_eq_some_getLast hne]
  exact h _ (List.getLast_mem hne)

theorem exists_of_last_ptr (h : (items.getLast?.map HostPageItem.ssd_addr).getD 0 ≠ 0) :
    ∃ i, i ∈ items := by
  cases items with
  | nil => exact absurd rfl h
  | cons i rest => exact ⟨i, List.mem_cons_self⟩

end HostPageItem

namespace TouchedPage

variable (u : UnequalBuild)

/-- A new record. An unmapped page leaves `current_ppa` as it was reset. -/
def new (s : Ftl) (nand_page temp_buffer : Nat) : TouchedPage where
  nand_page
  is_unmapped := s.is_unmapped_lpa nand_page
  current_ppa := if s.is_unmapped_lpa nand_page then first_page else s.lpa_table nand_page
  temp_buffer
  host_page_ptrs _ := 0
  host_pages := 0

/-- A host page joins the record of its NAND page. -/
def addHostPage (p : TouchedPage) (i : HostPageItem) : TouchedPage :=
  { p with
    host_page_ptrs := Function.update p.host_page_ptrs (u.offsetInPage i.lpn) i.ssd_addr
    host_pages := p.host_pages + 1 }

variable {u} (p : TouchedPage) (items : List HostPageItem)

theorem addHostPages_fields : (items.foldl (addHostPage u) p).nand_page = p.nand_page ∧
    (items.foldl (addHostPage u) p).is_unmapped = p.is_unmapped ∧
    (items.foldl (addHostPage u) p).current_ppa = p.current_ppa ∧
    (items.foldl (addHostPage u) p).temp_buffer = p.temp_buffer ∧
    (items.foldl (addHostPage u) p).host_pages = p.host_pages + items.length := by
  induction items generalizing p with
  | nil => exact ⟨rfl, rfl, rfl, rfl, rfl⟩
  | cons i rest ih =>
    obtain ⟨h1, h2, h3, h4, h5⟩ := ih (addHostPage u p i)
    refine ⟨h1, h2, h3, h4, h5.trans ?_⟩
    rw [List.length_cons]
    simp only [addHostPage]
    omega

/-- The pointer at an offset is that of the last host page there. -/
theorem addHostPages_ptrs (ih : Nat) : (items.foldl (addHostPage u) p).host_page_ptrs ih =
    (((items.filter fun i => u.offsetInPage i.lpn = ih).getLast?).map
      HostPageItem.ssd_addr).getD (p.host_page_ptrs ih) := by
  induction items using List.reverseRecOn with
  | nil => rfl
  | append_singleton items i hi =>
    rw [List.foldl_append, List.foldl_cons, List.foldl_nil, List.filter_append]
    simp only [addHostPage]
    by_cases h : ih = u.offsetInPage i.lpn
    · subst h
      rw [Function.update_self, List.filter_cons_of_pos (by simp), List.filter_nil]
      simp
    · rw [Function.update_of_ne h, hi, List.filter_cons_of_neg (by simpa using fun he => h he.symm),
        List.filter_nil, List.append_nil]

end TouchedPage

/-! ## Flash reads -/

/-- `sync_end_read_op`: each page of the operation is read to its buffer. -/
def sync_end_read_op (flash : Ppa → Nat → UInt8) (buffers : Nat → Nat → UInt8)
    (rop : List (Nat × Ppa)) : Nat → Nat → UInt8 :=
  updateEach Prod.fst (fun x _ => flash x.2) buffers rop

end S4Sim
