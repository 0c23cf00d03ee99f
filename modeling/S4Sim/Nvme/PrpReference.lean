-- What the PRP fields of a command mean: the pointers that a transfer needs and
-- the segments that they give. A PRP list is a chain of pages of the host memory.
-- The last slot of such a page holds a pointer to data when that is the last one
-- of the transfer, and else the address of the next page of the list.
import S4Sim.Nvme.Prp

namespace S4Sim

/-! ## Host pages -/

/-- `hostPageBits`. `initialize_nvme` sets it to `cc_mps + 12`. -/
structure HostPage where
  hostPageBits : Nat
  twelve_le : 12 ≤ hostPageBits

namespace HostPage

variable (p : HostPage)

def hostMemPageSize : Nat := 2 ^ p.hostPageBits

def maxPrpEntries : Nat := p.hostMemPageSize / 8

def lastSlot : Nat := p.maxPrpEntries - 1

theorem hostMemPageSize_ge : 4096 ≤ p.hostMemPageSize :=
  Nat.pow_le_pow_right (n := 2) (by decide) p.twelve_le

theorem lastSlot_ge : 511 ≤ p.lastSlot := by
  have hsize := p.hostMemPageSize_ge
  unfold lastSlot maxPrpEntries
  omega

theorem maxPrpEntries_eq : p.maxPrpEntries = p.lastSlot + 1 := by
  have hlast := p.lastSlot_ge
  unfold lastSlot at hlast ⊢
  omega

/-- The number of host pages for `len` bytes from the start of a page. -/
def pages (len : Nat) : Nat := (len + p.hostMemPageSize - 1) / p.hostMemPageSize

variable {p} {len k : Nat}

theorem pages_le_iff : p.pages len ≤ k ↔ len ≤ k * p.hostMemPageSize := by
  have hsize := p.hostMemPageSize_ge
  unfold pages
  rw [← Nat.lt_succ_iff, Nat.div_lt_iff_lt_mul (by omega), Nat.succ_mul]
  omega

theorem pages_sub (h : k * p.hostMemPageSize ≤ len) :
    p.pages (len - k * p.hostMemPageSize) = p.pages len - k := by
  have hsum : len - k * p.hostMemPageSize + p.hostMemPageSize - 1 =
      len + p.hostMemPageSize - 1 - p.hostMemPageSize * k := by
    rw [Nat.mul_comm p.hostMemPageSize k]
    omega
  unfold pages
  rw [hsum, Nat.sub_mul_div]

variable (p)

/-- A pointer is not zero, and is the start of a host page. -/
def Good (prp_ent : Nat) : Prop := prp_ent ≠ 0 ∧ prp_ent % p.hostMemPageSize = 0

variable {p}

theorem badEntry_iff {prp_ent : Nat} :
    badEntry p.hostPageBits prp_ent = true ↔ ¬ p.Good prp_ent := by
  unfold badEntry Good hostMemPageSize
  rw [Bool.or_eq_true, beq_iff_eq, bne_iff_ne]
  tauto

end HostPage

/-! ## The pointers of a list -/

/-- The pointers that a transfer needs: to its pages of data, and to pages of the list. -/
structure PrpPointers where
  data : List Nat
  lists : List Nat
  deriving DecidableEq

/-- The slots of the page of a list at a host address. -/
def listSlots (mem : Mem) (list i : Nat) : Nat := readU64 mem (list + 8 * i)

section Pointers

variable (p : HostPage) (mem : Mem)

/-- Every pointer is a good one. -/
def PrpPointers.Good (ps : PrpPointers) : Prop :=
  (∀ a ∈ ps.data, p.Good a) ∧ ∀ a ∈ ps.lists, p.Good a

/-- The pointers for `n` pages of data, where `slots` is the first page of the list. -/
def prpPointers (slots : Nat → Nat) (n : Nat) : PrpPointers :=
  if n ≤ p.maxPrpEntries then ⟨(List.range n).map slots, []⟩
  else
    let next := prpPointers (listSlots mem (slots p.lastSlot)) (n - p.lastSlot)
    ⟨(List.range p.lastSlot).map slots ++ next.data, slots p.lastSlot :: next.lists⟩
termination_by n
decreasing_by
  have hlast := p.lastSlot_ge
  have hmax := p.maxPrpEntries_eq
  omega

variable {p mem} {slots slots' : Nat → Nat} {n : Nat}

theorem prpPointers_of_le (h : n ≤ p.maxPrpEntries) :
    prpPointers p mem slots n = ⟨(List.range n).map slots, []⟩ := by
  rw [prpPointers, if_pos h]

theorem prpPointers_of_lt (h : p.maxPrpEntries < n) : prpPointers p mem slots n =
    ⟨(List.range p.lastSlot).map slots ++
      (prpPointers p mem (listSlots mem (slots p.lastSlot)) (n - p.lastSlot)).data,
      slots p.lastSlot ::
        (prpPointers p mem (listSlots mem (slots p.lastSlot)) (n - p.lastSlot)).lists⟩ := by
  rw [prpPointers, if_neg (Nat.not_le_of_lt h)]

/-- There is a pointer for each page of data. -/
theorem prpPointers_length : (prpPointers p mem slots n).data.length = n := by
  fun_induction prpPointers p mem slots n with
  | case1 => simp
  | case2 slots n hmore next ih =>
    have hmax := p.maxPrpEntries_eq
    rw [List.length_append, ih, List.length_map, List.length_range]
    omega

/-- Only the slots of the pages of data count, and not more than there are in a page. -/
theorem prpPointers_congr (h : ∀ i, i < n → i < p.maxPrpEntries → slots i = slots' i) :
    prpPointers p mem slots n = prpPointers p mem slots' n := by
  have hmax := p.maxPrpEntries_eq
  have hmap : ∀ k, k ≤ n → k ≤ p.maxPrpEntries →
      (List.range k).map slots = (List.range k).map slots' := by
    intro k hk hkmax
    rw [List.map_inj_left]
    intro i hi
    rw [List.mem_range] at hi
    exact h i (by omega) (by omega)
  rcases Nat.lt_or_ge p.maxPrpEntries n with hlt | hle
  · rw [prpPointers_of_lt hlt, prpPointers_of_lt hlt, h p.lastSlot (by omega) (by omega),
      hmap p.lastSlot (by omega) (by omega)]
  · rw [prpPointers_of_le hle, prpPointers_of_le hle, hmap n (Nat.le_refl _) hle]

end Pointers

/-! ## The segments -/

/-- One segment for each pointer, of a whole page of `size` bytes as long as so many are
left. -/
def dataSegments (size : Nat) : List Nat → (len : Nat) → List DmaOp
  | [], _ => []
  | a :: l, len => ⟨a, min len size⟩ :: dataSegments size l (len - min len size)

/-- A segment lies in one page. -/
def DmaOp.InPage (size : Nat) (op : DmaOp) : Prop := op.host_p_addr % size + op.len ≤ size

section Segments

variable {size len : Nat} {l l' : List Nat}

theorem dataSegments_addrs : (dataSegments size l len).map DmaOp.host_p_addr = l := by
  induction l generalizing len with
  | nil => rfl
  | cons a l ih => rw [dataSegments, List.map_cons, ih]

theorem dataSegments_length : (dataSegments size l len).length = l.length := by
  rw [← List.length_map DmaOp.host_p_addr, dataSegments_addrs]

theorem dataSegments_append : dataSegments size (l ++ l') len =
    dataSegments size l len ++ dataSegments size l' (len - l.length * size) := by
  induction l generalizing len with
  | nil => simp [dataSegments]
  | cons a l ih =>
    have hlen : len - min len size - l.length * size = len - (a :: l).length * size := by
      rw [List.length_cons, Nat.succ_mul]
      omega
    rw [List.cons_append, dataSegments, ih, hlen]
    rfl

theorem opsBytes_dataSegments (h : len ≤ l.length * size) :
    opsBytes (dataSegments size l len) = len := by
  induction l generalizing len with
  | nil =>
    rw [List.length_nil, Nat.zero_mul] at h
    simp [dataSegments, opsBytes]
    omega
  | cons a l ih =>
    rw [List.length_cons, Nat.succ_mul] at h
    have hrest : opsBytes (dataSegments size l (len - min len size)) = len - min len size :=
      ih (by omega)
    rw [dataSegments, opsBytes_cons, hrest]
    exact Nat.add_sub_of_le (Nat.min_le_left len size)

theorem dataSegments_inPage (h : ∀ a ∈ l, a % size = 0) :
    ∀ op ∈ dataSegments size l len, op.InPage size := by
  induction l generalizing len with
  | nil =>
    intro op hop
    cases hop
  | cons a l ih =>
    intro op hop
    rw [dataSegments, List.mem_cons] at hop
    rcases hop with rfl | hop
    · have ha := h a List.mem_cons_self
      unfold DmaOp.InPage
      simp only
      omega
    · exact ih (fun b hb => h b (List.mem_cons_of_mem _ hb)) op hop

end Segments

/-! ## The transfer of a command -/

/-- The PRP fields and the size of a transfer. -/
structure PrpTransfer where
  prp1 : Nat
  prp2 : Nat
  data_size : Nat

namespace PrpTransfer

variable (p : HostPage) (mem : Mem) (t : PrpTransfer)

/-- The bytes up to the end of the page of PRP1. -/
def firstLen : Nat := min t.data_size (p.hostMemPageSize - t.prp1 % p.hostMemPageSize)

/-- The bytes behind the page of PRP1. -/
def rest : Nat := t.data_size - t.firstLen p

/-- More than one page is left, so PRP2 is the address of a list. -/
def UsesList : Prop := p.hostMemPageSize < t.rest p

instance : Decidable (t.UsesList p) := by
  unfold UsesList
  infer_instance

/-- The pointers besides PRP1, where `slots` is the first page of a list. -/
def pointersFrom (slots : Nat → Nat) : PrpPointers :=
  if t.rest p = 0 then ⟨[], []⟩
  else if t.UsesList p then
    let list := prpPointers p mem slots (p.pages (t.rest p))
    ⟨list.data, t.prp2 :: list.lists⟩
  else ⟨[t.prp2], []⟩

/-- The pointers besides PRP1. A list is at PRP2. -/
def pointers : PrpPointers := t.pointersFrom p mem (listSlots mem t.prp2)

/-- The segments of the transfer. -/
def segments : List DmaOp :=
  ⟨t.prp1, t.firstLen p⟩ :: dataSegments p.hostMemPageSize (t.pointers p mem).data (t.rest p)

variable {p mem t}

theorem pointersFrom_of_list {slots : Nat → Nat} (h : t.UsesList p) :
    t.pointersFrom p mem slots =
      ⟨(prpPointers p mem slots (p.pages (t.rest p))).data,
        t.prp2 :: (prpPointers p mem slots (p.pages (t.rest p))).lists⟩ := by
  have hrest : t.rest p ≠ 0 := Nat.ne_of_gt (Nat.zero_lt_of_lt h)
  rw [pointersFrom, if_neg hrest, if_pos h]

theorem pointersFrom_of_no_list {slots slots' : Nat → Nat} (h : ¬ t.UsesList p) :
    t.pointersFrom p mem slots = t.pointersFrom p mem slots' := by
  unfold pointersFrom
  rw [if_neg h, if_neg h]

/-- The pointers have room for what is left. -/
theorem rest_le_pointers (p : HostPage) (mem : Mem) (t : PrpTransfer) :
    t.rest p ≤ (t.pointers p mem).data.length * p.hostMemPageSize := by
  unfold pointers pointersFrom
  split
  · omega
  · split
    · simp only [prpPointers_length]
      exact HostPage.pages_le_iff.mp (Nat.le_refl _)
    · rename_i hlist
      unfold UsesList at hlist
      rw [List.length_singleton, Nat.one_mul]
      omega

/-- The lengths of the segments sum to the size of the transfer. -/
theorem opsBytes_segments : opsBytes (t.segments p mem) = t.data_size := by
  have hrest := opsBytes_dataSegments (rest_le_pointers p mem t)
  unfold segments
  rw [opsBytes_cons, hrest]
  exact Nat.add_sub_of_le (Nat.min_le_left _ _)

/-- No segment crosses the end of a page. -/
theorem segments_inPage (h : (t.pointers p mem).Good p) :
    ∀ op ∈ t.segments p mem, op.InPage p.hostMemPageSize := by
  intro op hop
  rcases List.mem_cons.mp hop with rfl | hop
  · have hmod := Nat.mod_lt t.prp1 (Nat.lt_of_lt_of_le (by decide) p.hostMemPageSize_ge)
    unfold DmaOp.InPage firstLen
    simp only
    omega
  · exact dataSegments_inPage (fun a ha => (h.1 a ha).2) op hop

end PrpTransfer

end S4Sim
