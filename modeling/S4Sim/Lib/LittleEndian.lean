-- Numbers in a memory of bytes, the least significant byte first.
import Mathlib.Tactic.Ring

namespace LittleEndian

/-- Byte `i` of a number. -/
def byteOf (w i : Nat) : UInt8 := UInt8.ofNat (w / 256 ^ i)

/-- The number in `n` bytes of a memory from an offset. -/
def wordAt (m : Nat → UInt8) (offset : Nat) : Nat → Nat
  | 0 => 0
  | n + 1 => (m offset).toNat + 256 * wordAt m (offset + 1) n

variable {m : Nat → UInt8} {w offset n : Nat}

theorem wordAt_bytes (h : ∀ i < n, m (offset + i) = byteOf w i) :
    wordAt m offset n = w % 256 ^ n := by
  induction n generalizing w offset with
  | zero => simp [wordAt, Nat.mod_one]
  | succ n ih =>
    have hrest : ∀ i < n, m (offset + 1 + i) = byteOf (w / 256) i := by
      intro i hi
      have := h (i + 1) (by omega)
      rw [show offset + 1 + i = offset + (i + 1) by omega, this]
      unfold byteOf
      rw [Nat.div_div_eq_div_mul, Nat.pow_succ']
    have hfirst : (m offset).toNat = w % 256 := by
      have := h 0 (by omega)
      rw [Nat.add_zero] at this
      rw [this]
      simp [byteOf]
    unfold wordAt
    rw [ih hrest, hfirst, Nat.pow_succ', Nat.mod_mul]

/-- A number that fits reads back as it was written. -/
theorem wordAt_eq (h : ∀ i < n, m (offset + i) = byteOf w i) (hw : w < 256 ^ n) :
    wordAt m offset n = w := by
  rw [wordAt_bytes h, Nat.mod_eq_of_lt hw]

theorem wordAt_lt : wordAt m offset n < 256 ^ n := by
  induction n generalizing offset with
  | zero => simp [wordAt]
  | succ n ih =>
    have hrest : wordAt m (offset + 1) n < 256 ^ n := ih
    have hfirst := (m offset).toNat_lt
    unfold wordAt
    rw [Nat.pow_succ']
    omega

end LittleEndian
