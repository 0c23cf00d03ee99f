-- Stores of blocks of one size. A write gives a run of blocks the cells of its data, and
-- a stream has the cells of a run of blocks one after another. After a list of writes,
-- each block is that of the last write that covers it.
import Mathlib.Data.List.Basic
import Mathlib.Data.List.Induction

namespace Blocks

variable {β : Type*}

/-- A write of `count` blocks from the block `start` on. -/
structure BlockWrite (β : Type*) where
  start : Nat
  count : Nat
  data : Nat → β

/-- The write has the block. -/
def BlockWrite.Covers (w : BlockWrite β) (block : Nat) : Prop :=
  w.start ≤ block ∧ block < w.start + w.count

instance (w : BlockWrite β) (block : Nat) : Decidable (w.Covers block) := by
  unfold BlockWrite.Covers
  infer_instance

/-- The store after a write. A block has `n` cells. -/
def writeBlocks (n : Nat) (m : Nat → Nat → β) (w : BlockWrite β) (block k : Nat) : β :=
  if w.Covers block then w.data ((block - w.start) * n + k) else m block k

/-- The store after writes in turn. -/
def writeAllBlocks (n : Nat) (m : Nat → Nat → β) (ws : List (BlockWrite β)) : Nat → Nat → β :=
  ws.foldl (writeBlocks n) m

/-- The cells of the blocks from `start` on. -/
def stream (n : Nat) (m : Nat → Nat → β) (start k : Nat) : β := m (start + k / n) (k % n)

variable {n block start count k : Nat} {m : Nat → Nat → β} {w : BlockWrite β}
  {ws early late : List (BlockWrite β)}

theorem writeBlocks_covered {i : Nat} (h : i < w.count) :
    writeBlocks n m w (w.start + i) k = w.data (i * n + k) := by
  have hin : w.Covers (w.start + i) := ⟨by omega, by omega⟩
  unfold writeBlocks
  rw [if_pos hin, Nat.add_sub_cancel_left]

theorem writeBlocks_other (h : ¬ w.Covers block) : writeBlocks n m w block k = m block k :=
  if_neg h

theorem writeAllBlocks_snoc : writeAllBlocks n m (ws ++ [w]) =
    writeBlocks n (writeAllBlocks n m ws) w := by
  simp [writeAllBlocks]

/-- A block that no write covers. -/
theorem writeAllBlocks_never (h : ∀ w ∈ ws, ¬ w.Covers block) :
    writeAllBlocks n m ws block k = m block k := by
  induction ws using List.reverseRecOn with
  | nil => rfl
  | append_singleton ws w ih =>
    rw [writeAllBlocks_snoc, writeBlocks_other (h w (by simp))]
    exact ih fun v hv => h v (List.mem_append_left _ hv)

/-- A block is that of the last write that covers it. -/
theorem writeAllBlocks_last {i : Nat} (hi : i < w.count)
    (hlate : ∀ v ∈ late, ¬ v.Covers (w.start + i)) :
    writeAllBlocks n m (early ++ w :: late) (w.start + i) k = w.data (i * n + k) := by
  induction late using List.reverseRecOn with
  | nil => rw [writeAllBlocks_snoc, writeBlocks_covered hi]
  | append_singleton late v ih =>
    have hsnoc : early ++ w :: (late ++ [v]) = (early ++ w :: late) ++ [v] := by simp
    rw [hsnoc, writeAllBlocks_snoc, writeBlocks_other (hlate v (by simp))]
    exact ih fun u hu => hlate u (List.mem_append_left _ hu)

/-- Cells that are right block by block are those of the stream. -/
theorem eq_stream {cells : Nat → β}
    (h : ∀ i < count, ∀ k < n, cells (i * n + k) = m (start + i) k) (hk : k < count * n) :
    cells k = stream n m start k := by
  have hn : 0 < n := Nat.pos_of_ne_zero (by rintro rfl; simp at hk)
  have hcell := h (k / n) (Nat.div_lt_of_lt_mul (by rwa [Nat.mul_comm])) (k % n) (Nat.mod_lt k hn)
  rw [Nat.mul_comm, Nat.div_add_mod] at hcell
  exact hcell

end Blocks
