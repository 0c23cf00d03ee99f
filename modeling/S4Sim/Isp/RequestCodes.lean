-- The request codes of do_sync_host_dma. A code is a dword of three fields: the size in 18 bits,
-- the first page of the host buffer in 12, and the type of the transfer in 2. A transfer is cut
-- into chunks of `MAX_TX_SIZE`, which counts the pages of the firmware, while the first page of a
-- chunk counts those of the host.
import Mathlib.Tactic.Ring
import S4Sim.Isp.Driver
import S4Sim.Firmware.DoorBellPolling

open Windows

namespace S4Sim

open IspState

/-! ## One code -/

/-- The fields of a code: the type, the first page and the size. -/
def decodeRequest (request_code : Nat) : Nat × Nat × Nat :=
  (request_code % 4, request_code / 4 % 2 ^ 12, request_code / 2 ^ 14 % 2 ^ 18)

section

variable {start_mem_page size tx_type : Nat}

/-- Fields that fit lie side by side. -/
theorem requestCode_eq (hsize : size < 2 ^ 18) (hstart : start_mem_page < 2 ^ 12)
    (htype : tx_type < 4) :
    requestCode start_mem_page size tx_type = 2 ^ 14 * size + (4 * start_mem_page + tx_type) := by
  have hlow : start_mem_page * 4 ||| tx_type = 4 * start_mem_page + tx_type := by
    rw [Nat.mul_comm]
    exact (Nat.two_pow_add_eq_or_of_lt (i := 2) htype start_mem_page).symm
  have hhigh : size * 2 ^ 14 ||| (4 * start_mem_page + tx_type) =
      2 ^ 14 * size + (4 * start_mem_page + tx_type) := by
    rw [Nat.mul_comm]
    exact (Nat.two_pow_add_eq_or_of_lt (i := 14) (by omega) size).symm
  unfold requestCode CTRL_MSG_DTX_SPAGE_BITS
  rw [Nat.or_assoc, hlow, hhigh, Nat.mod_eq_of_lt (by omega)]

theorem requestCode_decodes (hsize : size < 2 ^ 18) (hstart : start_mem_page < 2 ^ 12)
    (htype : tx_type < 4) :
    decodeRequest (requestCode start_mem_page size tx_type) = (tx_type, start_mem_page, size) := by
  rw [requestCode_eq hsize hstart htype, decodeRequest, Prod.mk.injEq, Prod.mk.injEq]
  omega

/-- The type of a transfer is odd, which no other message is. -/
theorem requestCode_ne (hsize : size < 2 ^ 18) (hstart : start_mem_page < 2 ^ 12)
    (htype : tx_type = ISP_APPLET_READ_DTX ∨ tx_type = ISP_APPLET_WRITE_DTX) :
    requestCode start_mem_page size tx_type ≠ 0 ∧
      requestCode start_mem_page size tx_type ≠ ISP_APPLET_ABR_MSG_RC := by
  unfold ISP_APPLET_READ_DTX ISP_APPLET_WRITE_DTX at htype
  rw [requestCode_eq hsize hstart (by omega), ISP_APPLET_ABR_MSG_RC]
  omega

end

/-! ## The chunks -/

section

variable {c : Config} {tx_type n start_mem_page ssd_addr size : Nat}

/-- The last of `n` chunks is the only one that may be partial. -/
def Chunked (c : Config) (n size : Nat) : Prop := size ≤ MAX_TX_SIZE c * n ∧
  MAX_TX_SIZE c * n < size + MAX_TX_SIZE c

theorem chunked_start (hpos : 0 < MAX_TX_SIZE c) :
    Chunked c (size / MAX_TX_SIZE c + if size % MAX_TX_SIZE c = 0 then 0 else 1) size := by
  have hdiv := Nat.div_add_mod size (MAX_TX_SIZE c)
  have hmod := Nat.mod_lt size hpos
  unfold Chunked
  split
  · rw [Nat.add_zero]
    omega
  · rw [Nat.mul_add, Nat.mul_one]
    omega

/-- A chunk before the last one is whole. -/
theorem Chunked.next (h : Chunked c (n + 1) size) :
    Chunked c n (size - min (MAX_TX_SIZE c) size) ∧ 0 < min (MAX_TX_SIZE c) size ∧
      (n ≠ 0 → min (MAX_TX_SIZE c) size = MAX_TX_SIZE c) := by
  obtain ⟨hle, hlt⟩ := h
  rw [Nat.mul_add, Nat.mul_one] at hle hlt
  have hwhole : n ≠ 0 → MAX_TX_SIZE c ≤ MAX_TX_SIZE c * n := fun hn =>
    Nat.le_mul_of_pos_right _ (Nat.pos_of_ne_zero hn)
  have hzero : n = 0 → MAX_TX_SIZE c * n = 0 := fun hn => by rw [hn, Nat.mul_zero]
  refine ⟨⟨by omega, ?_⟩, ?_, fun hn => ?_⟩
  · by_cases hn : n = 0
    · have := hzero hn
      omega
    · have := hwhole hn
      omega
  · by_cases hn : n = 0
    · have := hzero hn
      omega
    · have := hwhole hn
      omega
  · have := hwhole hn
    omega

/-- The chunks go through the SSD memory and the pages of the host side by side, when a whole
chunk is a number of host pages. -/
theorem chunks_tile (tx_type start_mem_page ssd_addr : Nat)
    (hunit : 2 ^ c.hostPageBits ∣ MAX_TX_SIZE c) (h : Chunked c n size) :
    let chunks := hostDmaChunks c tx_type n start_mem_page ssd_addr size
    Tiles ssd_addr (ssd_addr + size) (chunks.map fun chunk => (chunk.ssd_addr, chunk.size)) ∧
      Tiles (start_mem_page * 2 ^ c.hostPageBits) (start_mem_page * 2 ^ c.hostPageBits + size)
        (chunks.map fun chunk => (chunk.start_mem_page * 2 ^ c.hostPageBits, chunk.size)) ∧
      ∀ chunk ∈ chunks, 0 < chunk.size ∧ chunk.size ≤ MAX_TX_SIZE c ∧
        chunk.tx_type = tx_type := by
  induction n generalizing start_mem_page ssd_addr size with
  | zero =>
    have hsize : size = 0 := by simpa using h.1
    rw [hsize]
    exact ⟨rfl, rfl, fun _ hchunk => absurd hchunk List.not_mem_nil⟩
  | succ n ih =>
    obtain ⟨hrest, hpos, hwhole⟩ := h.next
    have hle : min (MAX_TX_SIZE c) size ≤ size := Nat.min_le_right ..
    have hmax : min (MAX_TX_SIZE c) size ≤ MAX_TX_SIZE c := Nat.min_le_left ..
    simp only [hostDmaChunks, List.map_cons]
    generalize min (MAX_TX_SIZE c) size = first at *
    obtain ⟨hssd, hhost, hall⟩ := ih (start_mem_page + first / 2 ^ c.hostPageBits)
      (ssd_addr + first) hrest
    refine ⟨⟨rfl, hpos, ?_⟩, ⟨rfl, hpos, ?_⟩, List.forall_mem_cons.mpr ⟨⟨hpos, hmax, rfl⟩, hall⟩⟩
    · rwa [Nat.add_assoc, Nat.add_sub_cancel' hle] at hssd
    · cases n with
      | zero =>
        -- The last chunk may end within a page.
        have hsize : size - first = 0 := by simpa using hrest.1
        show start_mem_page * 2 ^ c.hostPageBits + first = _
        omega
      | succ n =>
        have hpages : (start_mem_page + first / 2 ^ c.hostPageBits) * 2 ^ c.hostPageBits =
            start_mem_page * 2 ^ c.hostPageBits + first := by
          rw [Nat.add_mul, Nat.div_mul_cancel (hwhole (Nat.succ_ne_zero n) ▸ hunit)]
        rwa [hpages, Nat.add_assoc, Nat.add_sub_cancel' hle] at hhost

end

/-! ## A transfer -/

/-- A buffer that ends within 0x1000 pages. -/
theorem end_le {start_mem_page size P : Nat} (hpos : 0 < P)
    (h : start_mem_page + (size + P - 1) / P ≤ 0x1000) :
    start_mem_page * P + size ≤ 0x1000 * P := by
  have hceil : size ≤ (size + P - 1) / P * P := by
    have hdiv := Nat.div_add_mod (size + P - 1) P
    have hmod := Nat.mod_lt (size + P - 1) hpos
    rw [Nat.mul_comm]
    omega
  calc start_mem_page * P + size ≤ start_mem_page * P + (size + P - 1) / P * P :=
        Nat.add_le_add_left hceil _
    _ = (start_mem_page + (size + P - 1) / P) * P := (Nat.add_mul ..).symm
    _ ≤ 0x1000 * P := Nat.mul_le_mul_right P h

/-- With pages of 4 KiB in the firmware, as it is built, and any page size of the host. -/
theorem request_codes_tile (c : Config) (hbuild : c.g.host_page_size = 12)
    (hbits : 12 ≤ c.hostPageBits ∧ c.hostPageBits ≤ 16) (s : IspState)
    (start_mem_page ssd_addr size : Nat) (write : Bool)
    (hrange : start_mem_page + (size + 2 ^ c.hostPageBits - 1) / 2 ^ c.hostPageBits ≤ 0x1000) :
    ∃ chunks, (s.do_sync_host_dma c start_mem_page ssd_addr size write).applet = .running chunks ∧
      (∀ chunk ∈ chunks,
        decodeRequest (newRequest chunk).request_code =
          (chunk.tx_type, chunk.start_mem_page, chunk.size) ∧
        chunk.tx_type = (if write then ISP_APPLET_WRITE_DTX else ISP_APPLET_READ_DTX) ∧
        (newRequest chunk).request_code ≠ 0 ∧
        (newRequest chunk).request_code ≠ ISP_APPLET_ABR_MSG_RC) ∧
      Tiles ssd_addr (ssd_addr + size) (chunks.map fun chunk => (chunk.ssd_addr, chunk.size)) ∧
      Tiles (start_mem_page * 2 ^ c.hostPageBits) (start_mem_page * 2 ^ c.hostPageBits + size)
        (chunks.map fun chunk => (chunk.start_mem_page * 2 ^ c.hostPageBits, chunk.size)) := by
  have hmax : MAX_TX_SIZE c = 2 ^ 16 := by
    unfold MAX_TX_SIZE Config.pageBytes MDTS_PAGES
    rw [hbuild]
    rfl
  have hunit : 2 ^ c.hostPageBits ∣ MAX_TX_SIZE c := hmax ▸ Nat.pow_dvd_pow 2 hbits.2
  have hpos : 0 < MAX_TX_SIZE c := by
    rw [hmax]
    exact Nat.two_pow_pos 16
  obtain ⟨hssd, hhost, hall⟩ := chunks_tile
    (if write then ISP_APPLET_WRITE_DTX else ISP_APPLET_READ_DTX) start_mem_page ssd_addr hunit
    (chunked_start hpos)
  refine ⟨_, rfl, fun chunk hchunk => ?_, hssd, hhost⟩
  obtain ⟨hpos, hsize, htype⟩ := hall chunk hchunk
  have hstart : chunk.start_mem_page < 2 ^ 12 := by
    have hlast := (hhost.inside.2 _ (List.mem_map_of_mem hchunk)).2
    have hend : start_mem_page * 2 ^ c.hostPageBits + size ≤ 0x1000 * 2 ^ c.hostPageBits :=
      end_le (Nat.two_pow_pos _) hrange
    exact Nat.lt_of_mul_lt_mul_right (a := 2 ^ c.hostPageBits) (by omega)
  have hfield : chunk.size < 2 ^ 18 := by omega
  have hcase : chunk.tx_type = ISP_APPLET_READ_DTX ∨ chunk.tx_type = ISP_APPLET_WRITE_DTX := by
    rw [htype]
    cases write
    · exact Or.inl rfl
    · exact Or.inr rfl
  have hlow : chunk.tx_type < 4 := by
    rcases hcase with h | h <;> rw [h] <;> decide
  exact ⟨requestCode_decodes hfield hstart hlow, htype, requestCode_ne hfield hstart hcase⟩

/-- A host with pages of 64 KiB. -/
def host64KiB : Config := { smallDevice with hostPageBits := 16 }

/-- The last two pages of the host buffer, the last one not whole. -/
theorem request_codes_tile_at_the_end :
    ∃ chunks, (zeroIsp.do_sync_host_dma host64KiB 0xFFE 0x1000 0x10005 true).applet =
        .running chunks ∧
      Tiles 0xFFE0000 0xFFF0005 (chunks.map fun chunk =>
        (chunk.start_mem_page * 2 ^ host64KiB.hostPageBits, chunk.size)) := by
  obtain ⟨chunks, hrun, -, -, htile⟩ := request_codes_tile host64KiB rfl (by decide) zeroIsp 0xFFE
    0x1000 0x10005 true (by decide)
  exact ⟨chunks, hrun, htile⟩

end S4Sim
