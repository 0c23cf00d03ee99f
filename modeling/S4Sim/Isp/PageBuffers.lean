-- alloc_page_buffer and free_all_page_buffer of isp.c, which give an applet pieces of
-- `nand_op_buffer` in turn. The test for a piece that does not fit is on 32 bits. A request of
-- many pages wraps in it, and then a buffer is given that ends behind the 16 MiB.
import S4Sim.Lib.Calls
import Mathlib.Algebra.Group.Nat.Defs

namespace S4Sim

open Calls

def NAND_OP_BUFFER_SIZE : Nat := 2 ^ 24

/-- `current_ofs`, with the buffers since the last `free_all_page_buffer` and their sizes,
which the source does not keep. -/
structure PageBuffers where
  current_ofs : Nat
  live : List (Nat × Nat)

/-- The buffer, as its offset in `nand_op_buffer`, and the new `current_ofs`. -/
def alloc_page_buffer (HOST_DS current_ofs : Nat) (num_of_lpn : UInt32) : Option Nat × Nat :=
  let bytes := num_of_lpn.toNat * 2 ^ HOST_DS % 2 ^ 32
  if (current_ofs + bytes) % 2 ^ 32 > NAND_OP_BUFFER_SIZE then (none, current_ofs)
  else (some current_ofs, (current_ofs + bytes) % 2 ^ 32)

inductive BufferCall where
  | alloc_page_buffer (num_of_lpn : UInt32)
  | free_all_page_buffer

namespace PageBuffers

def start : PageBuffers := ⟨0, []⟩

/-- The driver also calls `free_all_page_buffer` after each function of the applet. -/
def call (HOST_DS : Nat) (s : PageBuffers) : BufferCall → Option Nat × PageBuffers
  | .alloc_page_buffer num_of_lpn =>
    let (ptr, current_ofs) := S4Sim.alloc_page_buffer HOST_DS s.current_ofs num_of_lpn
    (ptr, ⟨current_ofs,
      ptr.toList.map (fun ofs => (ofs, num_of_lpn.toNat * 2 ^ HOST_DS)) ++ s.live⟩)
  | .free_all_page_buffer => (none, ⟨0, []⟩)

/-- A buffer that is given lies in `nand_op_buffer`, apart from the others. A request that does
not fit gets none, and nothing changes. -/
def CallOk (HOST_DS : Nat) (s : PageBuffers) (a : BufferCall) : Prop :=
  match a with
  | .alloc_page_buffer num_of_lpn =>
    let bytes := num_of_lpn.toNat * 2 ^ HOST_DS
    (∀ ptr, (s.call HOST_DS a).1 = some ptr → ptr + bytes ≤ NAND_OP_BUFFER_SIZE ∧
      ∀ b ∈ s.live, b.1 + b.2 ≤ ptr ∨ ptr + bytes ≤ b.1) ∧
    (s.current_ofs + bytes > NAND_OP_BUFFER_SIZE →
      (s.call HOST_DS a).1 = none ∧ (s.call HOST_DS a).2.current_ofs = s.current_ofs)
  | .free_all_page_buffer => True

/-- The end of the buffer does not wrap to an offset in `nand_op_buffer`. -/
def EndDoesNotWrap (HOST_DS : Nat) (s : PageBuffers) : BufferCall → Prop
  | .alloc_page_buffer num_of_lpn =>
    ¬ (2 ^ 32 ≤ s.current_ofs + num_of_lpn.toNat * 2 ^ HOST_DS ∧
      (s.current_ofs + num_of_lpn.toNat * 2 ^ HOST_DS) % 2 ^ 32 ≤ NAND_OP_BUFFER_SIZE)
  | .free_all_page_buffer => True

/-! ## One call -/

/-- The buffers end where the free part of `nand_op_buffer` starts. -/
structure Allocated (s : PageBuffers) : Prop where
  inside : s.current_ofs ≤ NAND_OP_BUFFER_SIZE
  below : ∀ b ∈ s.live, b.1 + b.2 ≤ s.current_ofs

theorem allocated_start : start.Allocated := ⟨Nat.zero_le _, fun _ hb => absurd hb List.not_mem_nil⟩

variable {HOST_DS ofs : Nat} {n : UInt32} {s : PageBuffers}

theorem size_lt : NAND_OP_BUFFER_SIZE < 2 ^ 32 := by decide

/-- The two sums of the source wrap together. -/
theorem alloc_eq : alloc_page_buffer HOST_DS ofs n =
    if (ofs + n.toNat * 2 ^ HOST_DS) % 2 ^ 32 > NAND_OP_BUFFER_SIZE then (none, ofs)
    else (some ofs, (ofs + n.toNat * 2 ^ HOST_DS) % 2 ^ 32) := by
  unfold alloc_page_buffer
  simp only [Nat.add_mod_mod]

/-- A request that fits takes the next piece. -/
theorem alloc_fits (h : ofs + n.toNat * 2 ^ HOST_DS ≤ NAND_OP_BUFFER_SIZE) :
    alloc_page_buffer HOST_DS ofs n = (some ofs, ofs + n.toNat * 2 ^ HOST_DS) := by
  have hsmall : (ofs + n.toNat * 2 ^ HOST_DS) % 2 ^ 32 = ofs + n.toNat * 2 ^ HOST_DS :=
    Nat.mod_eq_of_lt (Nat.lt_of_le_of_lt h size_lt)
  rw [alloc_eq, hsmall, if_neg (Nat.not_lt.mpr h)]

/-- A request that does not fit is refused exactly when its end does not wrap. -/
theorem alloc_refused_iff (h : ofs + n.toNat * 2 ^ HOST_DS > NAND_OP_BUFFER_SIZE) :
    alloc_page_buffer HOST_DS ofs n = (none, ofs) ↔
      ¬ (2 ^ 32 ≤ ofs + n.toNat * 2 ^ HOST_DS ∧
        (ofs + n.toNat * 2 ^ HOST_DS) % 2 ^ 32 ≤ NAND_OP_BUFFER_SIZE) := by
  rw [alloc_eq]
  generalize ofs + n.toNat * 2 ^ HOST_DS = last at h
  by_cases hlast : last % 2 ^ 32 > NAND_OP_BUFFER_SIZE
  · rw [if_pos hlast]
    exact iff_of_true rfl fun hwrap => absurd hwrap.2 (Nat.not_le.mpr hlast)
  · rw [if_neg hlast]
    refine iff_of_false (by simp) (not_not.mpr ⟨?_, Nat.not_lt.mp hlast⟩)
    by_contra hsmall
    rw [Nat.mod_eq_of_lt (Nat.lt_of_not_le hsmall)] at hlast
    exact hlast h

theorem Allocated.callOk_iff (h : s.Allocated) (a : BufferCall) :
    s.CallOk HOST_DS a ↔ s.EndDoesNotWrap HOST_DS a := by
  cases a with
  | free_all_page_buffer => exact Iff.rfl
  | alloc_page_buffer n =>
    simp only [CallOk, EndDoesNotWrap, call]
    by_cases hfits : s.current_ofs + n.toNat * 2 ^ HOST_DS ≤ NAND_OP_BUFFER_SIZE
    · rw [alloc_fits hfits]
      have hsmall := Nat.lt_of_le_of_lt hfits size_lt
      refine iff_of_true ⟨?_, fun hno => absurd hfits (Nat.not_le.mpr hno)⟩ ?_
      · intro ptr hptr
        obtain rfl := Option.some.inj hptr
        exact ⟨hfits, fun b hb => Or.inl (h.below b hb)⟩
      · exact fun hwrap => absurd hwrap.1 (Nat.not_le.mpr hsmall)
    · have hno : s.current_ofs + n.toNat * 2 ^ HOST_DS > NAND_OP_BUFFER_SIZE := by omega
      rw [← alloc_refused_iff hno]
      constructor
      · rintro ⟨-, hrefused⟩
        exact Prod.ext (hrefused hno).1 (hrefused hno).2
      · intro hrefused
        rw [hrefused]
        refine ⟨fun ptr hptr => ?_, fun _ => ⟨rfl, rfl⟩⟩
        cases hptr

theorem Allocated.call (h : s.Allocated) (a : BufferCall) (hok : s.EndDoesNotWrap HOST_DS a) :
    (s.call HOST_DS a).2.Allocated := by
  cases a with
  | free_all_page_buffer => exact allocated_start
  | alloc_page_buffer n =>
    simp only [PageBuffers.call]
    by_cases hfits : s.current_ofs + n.toNat * 2 ^ HOST_DS ≤ NAND_OP_BUFFER_SIZE
    · rw [alloc_fits hfits]
      refine ⟨hfits, ?_⟩
      simp only [Option.toList_some, List.map_singleton, List.singleton_append]
      refine List.forall_mem_cons.mpr ⟨Nat.le_refl _, fun b hb => ?_⟩
      exact Nat.le_trans (h.below b hb) (Nat.le_add_right _ _)
    · rw [(alloc_refused_iff (by omega)).mpr hok]
      exact h

end PageBuffers

/-! ## Any calls -/

/-- The buffers are as they should be exactly when no end wraps into `nand_op_buffer`. -/
theorem page_buffers_iff_no_end_wraps (HOST_DS : Nat) (calls : List BufferCall) :
    AllCalls (PageBuffers.call HOST_DS) (PageBuffers.CallOk HOST_DS) .start calls ↔
      AllCalls (PageBuffers.call HOST_DS) (PageBuffers.EndDoesNotWrap HOST_DS) .start calls :=
  allCalls_congr (fun _ a h => h.callOk_iff a) (fun _ a h hok => h.call a hok)
    PageBuffers.allocated_start

/-- With pages of 4 KiB, a request of 2^20 pages gets a buffer of 4 GiB. -/
theorem page_buffer_too_large :
    ¬ AllCalls (PageBuffers.call 12) (PageBuffers.CallOk 12) .start
      [.alloc_page_buffer 0x100000] := by
  rintro ⟨hok, -⟩
  have hinside := (hok.1 0 (by decide)).1
  exact absurd hinside (by decide)

end S4Sim
