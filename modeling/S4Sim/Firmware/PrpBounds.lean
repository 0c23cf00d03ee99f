-- The arrays that `decode_prp` writes: the segments of the descriptor, and the buffer
-- for the pages of a list. Neither is checked. A transfer has one segment more than
-- pages when it starts in the middle of a page, and most callers take the size
-- from the host as it is.
import S4Sim.Firmware.RangeCheck
import S4Sim.Nvme.PrpWalk

namespace S4Sim

/-- The bytes of `prp_list`. -/
def PrpListSize : Nat := 8192

namespace PrpWalk

variable {p : HostPage} {mem : Mem} {w : PrpWalk} {i k len : Nat}

/-! ## The number of segments -/

/-- The descriptor has room for the segments, and the buffer for what is fetched. -/
structure StaysInside (w : PrpWalk) : Prop where
  n_ops : w.ops.length ≤ MDTS_PAGES
  fetches : ∀ n ∈ w.fetches, n ≤ PrpListSize

theorem addSegments_length {l : List Nat} :
    (w.addSegments p l len).ops.length = w.ops.length + l.length := by
  rw [addSegments, List.length_append, dataSegments_length]

theorem followChain_ops : (w.followChain p mem i len).2.ops = w.ops := by
  unfold followChain
  split <;> rfl

/-- No segment is ever taken back. -/
theorem ops_le_decode_list : w.ops.length ≤ (w.decode_list p mem i len).1.ops.length := by
  induction len using Nat.strong_induction_on generalizing i w with
  | _ len ih =>
    have hsize := p.hostMemPageSize_ge
    have hops : (w.followChain p mem i len).2.ops = w.ops := followChain_ops
    rw [decode_list]
    split
    · exact Nat.le_refl _
    · split
      · exact Nat.le_refl _
      · simp only
        split
        · rw [hops]
        · refine Nat.le_trans ?_ (ih _ (by omega))
          rw [add_dma_entry, List.length_append, hops]
          exact Nat.le_add_right _ _

/-- The first entries of a list of some pages are not chained. -/
theorem not_chained {j : Nat} (h : j < MDTS_PAGES) : ¬ Chained p (0 + j) len := by
  rintro ⟨hslot, -⟩
  have hlast := p.lastSlot_ge
  unfold MDTS_PAGES at h
  omega

/-- A list for fewer pages than the descriptor has room for gives a segment for each. -/
theorem short_list_inside (hw : w.StaysInside) (hlen : w.ops.length + p.pages len ≤ MDTS_PAGES) :
    (w.decode_list p mem 0 len).1.StaysInside := by
  have hmore : ∀ j < p.pages len, j * p.hostMemPageSize < len := by
    intro j hj
    by_contra hnot
    have hle := HostPage.pages_le_iff.mpr (Nat.le_of_not_lt hnot)
    omega
  rcases decode_list_turns (w := w) mem hmore fun j hj => not_chained (by omega) with
    ⟨j, hj, -, hr⟩ | ⟨-, hr⟩
  · rw [hr]
    refine ⟨?_, hw.fetches⟩
    rw [addSegments_length, List.length_map, List.length_range']
    omega
  · have hdone : len - p.pages len * p.hostMemPageSize = 0 :=
      Nat.sub_eq_zero_of_le (HostPage.pages_le_iff.mp (Nat.le_refl _))
    rw [hr, hdone, decode_list_done]
    refine ⟨?_, hw.fetches⟩
    rw [addSegments_length, List.length_map, List.length_range']
    omega

/-- A list for more pages stays inside the descriptor when it has a bad entry early enough. -/
theorem long_list_inside_iff (hw : w.ops.length = 1)
    (hlen : (MDTS_PAGES - 1) * p.hostMemPageSize < len) :
    (w.decode_list p mem 0 len).1.StaysInside ↔
      (∃ j < MDTS_PAGES, ¬ p.Good (w.slot j)) ∧ ∀ n ∈ w.fetches, n ≤ PrpListSize := by
  have hmore : ∀ j < MDTS_PAGES, j * p.hostMemPageSize < len := by
    intro j hj
    have hmono := Nat.mul_le_mul_right p.hostMemPageSize (Nat.le_sub_one_of_lt hj)
    omega
  rcases decode_list_turns (w := w) mem hmore fun j hj => not_chained hj with
    ⟨j, hj, hbad, hr⟩ | ⟨hgood, hr⟩
  · rw [hr]
    have hn : (w.addSegments p ((List.range' 0 j).map w.slot) len).ops.length ≤ MDTS_PAGES := by
      rw [addSegments_length, List.length_map, List.length_range']
      omega
    rw [Nat.zero_add] at hbad
    constructor
    · intro h
      exact ⟨⟨j, hj, hbad⟩, h.fetches⟩
    · rintro ⟨-, hfetches⟩
      exact ⟨hn, hfetches⟩
  · apply iff_of_false
    · intro h
      have hle := h.n_ops
      rw [hr] at hle
      have hmono := Nat.le_trans ops_le_decode_list hle
      rw [addSegments_length, List.length_map, List.length_range'] at hmono
      omega
    · rintro ⟨⟨j, hj, hbad⟩, -⟩
      have hslot := hgood j hj
      rw [Nat.zero_add] at hslot
      exact hbad hslot

/-! ## Every transfer -/

variable {t : PrpTransfer}

/-- When the arrays are large enough: the pages behind the first one are fewer than the
descriptor has room for, or there is no PRP2, or the list ends early at a bad entry and the
fetch of its first page fits in the buffer. -/
def HasRoom (p : HostPage) (mem : Mem) (t : PrpTransfer) (w : PrpWalk) : Prop :=
  t.prp1 = 0 ∨ t.rest p ≤ (MDTS_PAGES - 1) * p.hostMemPageSize ∨ t.prp2 = 0 ∨
    ((∃ j < MDTS_PAGES, ¬ p.Good (seenSlots p mem t w j)) ∧
      prp_trans p (t.rest p) ≤ PrpListSize)

theorem nents_le : nents p len ≤ p.pages len :=
  Nat.div_le_div_right (Nat.mod_le _ _)

/-- The walk after the first segment and the fetch of a list. -/
def fetched (p : HostPage) (mem : Mem) (t : PrpTransfer) (w : PrpWalk) : PrpWalk :=
  (w.started p t).get_prp_page mem t.prp2 (prp_trans p (t.rest p))

theorem fetched_inside (hw : w.StaysInside) :
    (∀ n ∈ (w.fetched p mem t).fetches, n ≤ PrpListSize) ↔
      prp_trans p (t.rest p) ≤ PrpListSize := by
  have hold : ∀ n ∈ w.fetches, n ≤ PrpListSize := hw.fetches
  unfold fetched get_prp_page started
  simp only [List.forall_mem_append, List.forall_mem_singleton]
  exact and_iff_right hold

/-- With a list: it is short, or ends early and fits. -/
theorem list_inside_iff (hw : w.StaysInside) (hsize : t.data_size < 2 ^ 32) :
    ((w.fetched p mem t).decode_list p mem 0 (t.rest p)).1.StaysInside ↔
      t.rest p ≤ (MDTS_PAGES - 1) * p.hostMemPageSize ∨
        ((∃ j < MDTS_PAGES, ¬ p.Good (seenSlots p mem t w j)) ∧
          prp_trans p (t.rest p) ≤ PrpListSize) := by
  have hone : (w.fetched p mem t).ops.length = 1 := rfl
  rcases Nat.lt_or_ge ((MDTS_PAGES - 1) * p.hostMemPageSize) (t.rest p) with hlt | hle
  · have hpages : MDTS_PAGES ≤ p.pages (t.rest p) := by
      by_contra hnot
      have hbytes := HostPage.pages_le_iff.mp (Nat.le_sub_one_of_lt (Nat.lt_of_not_le hnot))
      omega
    have hseen : ∀ j < MDTS_PAGES, (w.fetched p mem t).slot j = seenSlots p mem t w j := by
      intro j hj
      have hmax := p.maxPrpEntries_eq
      have hlast := p.lastSlot_ge
      unfold MDTS_PAGES at hj hpages
      exact slot_seen hsize (by omega) (by omega)
    rw [long_list_inside_iff hone hlt, fetched_inside hw]
    constructor
    · rintro ⟨⟨j, hj, hbad⟩, hfetch⟩
      rw [hseen j hj] at hbad
      exact Or.inr ⟨⟨j, hj, hbad⟩, hfetch⟩
    · rintro (hshort | ⟨⟨j, hj, hbad⟩, hfetch⟩)
      · omega
      · rw [← hseen j hj] at hbad
        exact ⟨⟨j, hj, hbad⟩, hfetch⟩
  · apply iff_of_true _ (Or.inl hle)
    have hpages : p.pages (t.rest p) ≤ MDTS_PAGES - 1 := HostPage.pages_le_iff.mpr hle
    have hnents : nents p (t.rest p) ≤ p.pages (t.rest p) := nents_le
    unfold MDTS_PAGES at hpages
    apply short_list_inside
    · constructor
      · rw [hone]
        decide
      · rw [fetched_inside hw]
        unfold prp_trans PrpListSize
        omega
    · rw [hone]
      unfold MDTS_PAGES
      omega

/-- The decoder stays inside its arrays exactly when they have room. -/
theorem decode_prp_inside_iff (hw : w.StaysInside) (hsize : t.data_size < 2 ^ 32) :
    (w.decode_prp p mem t).1.StaysInside ↔ HasRoom p mem t w := by
  have hstart : ({ w with ops := [] } : PrpWalk).add_dma_entry t.prp1
      (min t.data_size (p.hostMemPageSize - t.prp1 % p.hostMemPageSize)) = w.started p t := rfl
  have hlen : t.data_size - min t.data_size (p.hostMemPageSize - t.prp1 % p.hostMemPageSize) =
      t.rest p := rfl
  have hstarted : (w.started p t).StaysInside := ⟨by simp [started, MDTS_PAGES], hw.fetches⟩
  unfold decode_prp HasRoom
  by_cases hprp1 : t.prp1 = 0
  · rw [if_pos hprp1]
    exact iff_of_true hw (Or.inl hprp1)
  rw [if_neg hprp1]
  simp only [hstart, hlen]
  by_cases hrest : t.rest p = 0
  · rw [if_pos hrest]
    exact iff_of_true hstarted (Or.inr (Or.inl (by omega)))
  rw [if_neg hrest]
  by_cases hprp2 : t.prp2 = 0
  · rw [if_pos hprp2]
    exact iff_of_true hstarted (Or.inr (Or.inr (Or.inl hprp2)))
  rw [if_neg hprp2]
  by_cases hlist : t.rest p > p.hostMemPageSize
  · rw [if_pos hlist]
    simp only [hprp1, hprp2, false_or]
    exact list_inside_iff hw hsize
  · rw [if_neg hlist]
    have hshort : t.rest p ≤ (MDTS_PAGES - 1) * p.hostMemPageSize := by
      unfold MDTS_PAGES
      omega
    apply iff_of_true _ (Or.inr (Or.inl hshort))
    split
    · exact hstarted
    · exact ⟨by simp [started, add_dma_entry, MDTS_PAGES], hw.fetches⟩

end PrpWalk

/-! ## The callers -/

/-- A command for which the firmware calls `decode_prp`. -/
inductive DecodedCommand (nsze : Nat)
  | read_write (scmd : NvmeSCmd) (accepted : verifyRwParam nsze scmd = true)
  | identify (scmd : NvmeSCmd) (known : scmd.cns < 3)
  | fw_download (scmd : NvmeSCmd)
  | isp_execute (scmd : NvmeSCmd) (long : 24 < scmd.agument_size)
  | isp_data_transfer (scmd : NvmeSCmd)

namespace DecodedCommand

variable {nsze : Nat}

def scmd : DecodedCommand nsze → NvmeSCmd
  | read_write scmd _ | identify scmd _ | fw_download scmd | isp_execute scmd _
  | isp_data_transfer scmd => scmd

/-- `dma.data_size`, for host pages of `2 ^ host_page_size` bytes. -/
def data_size (host_page_size : Nat) : DecodedCommand nsze → Nat
  | read_write scmd _ => (scmd.nlbs + 1) * 2 ^ host_page_size % 2 ^ 32
  | identify .. => IdDataSize
  | fw_download scmd => (scmd.num_dwords + 1) * 4 % 2 ^ 32
  | isp_execute scmd _ => scmd.agument_size
  | isp_data_transfer scmd => scmd.cdw11.toNat

def transfer (host_page_size : Nat) (cmd : DecodedCommand nsze) : PrpTransfer :=
  ⟨cmd.scmd.prp1.toNat, cmd.scmd.prp2.toNat, cmd.data_size host_page_size⟩

theorem data_size_lt (host_page_size : Nat) (cmd : DecodedCommand nsze) :
    cmd.data_size host_page_size < 2 ^ 32 := by
  cases cmd with
  | read_write scmd => exact Nat.mod_lt _ (by decide)
  | identify scmd => exact (by decide : IdDataSize < 2 ^ 32)
  | fw_download scmd => exact Nat.mod_lt _ (by decide)
  | isp_execute scmd =>
    have hres := scmd.res1.toNat_lt
    exact Nat.div_lt_of_lt_mul hres
  | isp_data_transfer scmd => exact scmd.cdw11.toNat_lt

end DecodedCommand

open PrpWalk

/-- For every command of every caller, the decoder stays inside its arrays exactly when they
have room for the transfer. -/
theorem decoded_commands_stay_inside_iff_the_arrays_have_room {nsze : Nat} (p : HostPage)
    (mem : Mem) (host_page_size : Nat) (cmd : DecodedCommand nsze) {w : PrpWalk}
    (hw : w.StaysInside) :
    (w.decode_prp p mem (cmd.transfer host_page_size)).1.StaysInside ↔
      w.HasRoom p mem (cmd.transfer host_page_size) :=
  decode_prp_inside_iff hw (cmd.data_size_lt host_page_size)

/-- A WRITE of 16 blocks of 4096 bytes. -/
def writeOf16 (prp1 : UInt64) : NvmeSCmd where
  opcode := 0x01
  cid := 0
  nsid := 1
  res1 := 0
  prp1 := prp1
  prp2 := 4096
  cdw10 := 0
  cdw11 := 0
  cdw12 := 15

theorem writeOf16_accepted (prp1 : UInt64) : verifyRwParam 1000 (writeOf16 prp1) = true := rfl

/-- A command for `writeOf16`. -/
def decodedWrite (prp1 : UInt64) : DecodedCommand 1000 :=
  .read_write (writeOf16 prp1) (writeOf16_accepted prp1)

theorem zeroedWalk_inside : zeroedWalk.StaysInside :=
  ⟨Nat.zero_le _, fun _ hn => nomatch hn⟩

theorem an_aligned_write_stays_inside :
    (zeroedWalk.decode_prp page4096 pointersTo4096
      ((decodedWrite 8192).transfer 12)).1.StaysInside :=
  (decoded_commands_stay_inside_iff_the_arrays_have_room page4096 pointersTo4096 12
    (decodedWrite 8192) zeroedWalk_inside).mpr (Or.inr (Or.inl (by decide)))

/-- From the middle of a page on, 16 blocks lie in 17 pages. -/
theorem an_unaligned_write_leaves_its_descriptor :
    ¬ ∀ (nsze : Nat) (p : HostPage) (mem : Mem) (host_page_size : Nat)
      (cmd : DecodedCommand nsze) (w : PrpWalk), w.StaysInside →
        (w.decode_prp p mem (cmd.transfer host_page_size)).1.StaysInside := by
  intro hall
  have hinside := hall 1000 page4096 pointersTo4096 12 (decodedWrite 10240) zeroedWalk
    zeroedWalk_inside
  rcases (decode_prp_inside_iff zeroedWalk_inside (by decide)).mp hinside with
    hprp1 | hshort | hprp2 | ⟨⟨j, hj, hbad⟩, -⟩
  · exact absurd hprp1 (by decide)
  · exact absurd hshort (by decide)
  · exact absurd hprp2 (by decide)
  · have hlist : ((decodedWrite 10240).transfer 12).prp2 = 4096 := rfl
    rw [seenSlots, if_pos (by decide), hlist, listSlots_pointersTo4096] at hbad
    exact hbad good_4096

end S4Sim
