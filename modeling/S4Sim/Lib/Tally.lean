-- Counting the cells of an array whose value meets a test. When one cell
-- changes, the count of each test changes by that one cell, and so does the
-- sum of the counts over a family of arrays.
import Mathlib.Algebra.BigOperators.Group.Finset.Piecewise
import Mathlib.Algebra.Order.BigOperators.Group.Finset

namespace Tally

variable {κ τ β : Type*}

/-- The number of cells whose value meets `P`. -/
def tally (cells : Finset κ) (f : κ → τ) (P : τ → Bool) : Nat :=
  (cells.filter fun k => P (f k) = true).card

theorem tally_congr {cells : Finset κ} {f f' : κ → τ} {P : τ → Bool}
    (h : ∀ k ∈ cells, f k = f' k) : tally cells f P = tally cells f' P := by
  unfold tally
  rw [Finset.filter_congr fun k hk => by rw [h k hk]]

theorem tally_le_card (cells : Finset κ) (f : κ → τ) (P : τ → Bool) :
    tally cells f P ≤ cells.card := Finset.card_filter_le _ _

theorem tally_const (cells : Finset κ) (v : τ) (P : τ → Bool) :
    tally cells (fun _ => v) P = if P v then cells.card else 0 := by
  unfold tally
  by_cases h : P v = true
  · rw [if_pos h, Finset.filter_true_of_mem fun _ _ => h]
  · rw [if_neg h, Finset.filter_false_of_mem fun _ _ => h, Finset.card_empty]

theorem tally_eq_sum (cells : Finset κ) (f : κ → τ) (P : τ → Bool) :
    tally cells f P = ∑ k ∈ cells, (P (f k)).toNat := by
  unfold tally
  rw [Finset.card_filter]
  exact Finset.sum_congr rfl fun k _ => by cases P (f k) <;> rfl

/-- Tests of which each cell meets exactly one count all cells. -/
theorem tally_add_tally_add_tally {cells : Finset κ} {f : κ → τ} {P Q R : τ → Bool}
    (hone : ∀ k ∈ cells, (P (f k)).toNat + (Q (f k)).toNat + (R (f k)).toNat = 1) :
    tally cells f P + tally cells f Q + tally cells f R = cells.card := by
  simp only [tally_eq_sum, ← Finset.sum_add_distrib, Finset.card_eq_sum_ones]
  exact Finset.sum_congr rfl hone

/-- One count of a family changes, so the sum changes by the same. -/
theorem sum_update_one [DecidableEq β] {groups : Finset β} {F F' : β → Nat} {b : β} {d e : Nat}
    (hb : b ∈ groups) (hother : ∀ c, c ≠ b → F' c = F c) (hone : F' b + d = F b + e) :
    (∑ c ∈ groups, F' c) + d = (∑ c ∈ groups, F c) + e := by
  have h1 := Finset.add_sum_erase groups F' hb
  have h2 := Finset.add_sum_erase groups F hb
  have hrest : ∑ c ∈ groups.erase b, F' c = ∑ c ∈ groups.erase b, F c :=
    Finset.sum_congr rfl fun c hc => hother c (Finset.ne_of_mem_erase hc)
  omega

/-- One cell of the array changes. -/
theorem tally_update [DecidableEq κ] {cells : Finset κ} {f : κ → τ} {k : κ} (P : τ → Bool)
    (v : τ) (hk : k ∈ cells) :
    tally cells (Function.update f k v) P + (P (f k)).toNat = tally cells f P + (P v).toNat := by
  rw [tally_eq_sum, tally_eq_sum]
  refine sum_update_one hk (fun j hj => ?_) ?_
  · rw [Function.update_of_ne hj]
  · rw [Function.update_self, Nat.add_comm]

end Tally
