-- Numbers of two digits, `n * q + r` with `r < n`. Mixed radix numbers are
-- such numbers, digit under digit, each digit with a base of its own.
import Mathlib.Algebra.BigOperators.Group.List.Basic
import Mathlib.Data.List.Forall2
import Mathlib.Order.Basic

namespace Digits

variable {n m q q' r r' : Nat}

theorem digits_div (hr : r < n) : (n * q + r) / n = q := by
  rw [Nat.mul_add_div (by omega), Nat.div_eq_of_lt hr, Nat.add_zero]

theorem digits_mod (hr : r < n) : (n * q + r) % n = r := by
  rw [Nat.mul_add_mod, Nat.mod_eq_of_lt hr]

/-- The two digits of a number are determined by the number. -/
theorem digits_inj (hr : r < n) (hr' : r' < n) (h : n * q + r = n * q' + r') :
    q = q' ∧ r = r' := by
  have hdiv := congrArg (· / n) h
  have hmod := congrArg (· % n) h
  simp only [digits_div hr, digits_div hr', digits_mod hr, digits_mod hr'] at hdiv hmod
  exact ⟨hdiv, hmod⟩

/-- The number is below `n * m` exactly when the high digit is below `m`. -/
theorem digits_lt_iff (hr : r < n) : n * q + r < n * m ↔ q < m := by
  rw [Nat.mul_comm n m, ← Nat.div_lt_iff_lt_mul (by omega), digits_div hr]

/-- Two multiples are at least `n` apart. -/
theorem multiples_apart (h : q ≠ q') : q * n + n ≤ q' * n ∨ q' * n + n ≤ q * n := by
  rcases Nat.lt_or_gt_of_ne h with hlt | hgt
  · left
    rw [← Nat.succ_mul]
    exact Nat.mul_le_mul_right n hlt
  · right
    rw [← Nat.succ_mul]
    exact Nat.mul_le_mul_right n hgt

/-- A number is outside the `n` numbers of another high digit. -/
theorem digits_apart (hr : r < n) (h : q ≠ q') :
    q * n + r < q' * n ∨ q' * n + n ≤ q * n + r := by
  have := multiples_apart h (n := n)
  omega

/-- Two nested loops count through the numbers of two digits, the inner one the low digit. -/
theorem range_flatMap_range {α : Type*} (f : Nat → Nat → α) :
    ((List.range m).flatMap fun q => (List.range n).map fun r => f q r) =
      (List.range (n * m)).map fun k => f (k / n) (k % n) := by
  induction m with
  | zero => rfl
  | succ m ih =>
    have hrow : ((List.range n).map (n * m + ·)).map (fun k => f (k / n) (k % n)) =
        (List.range n).map fun r => f m r := by
      rw [List.map_map]
      refine List.map_congr_left fun r hr => ?_
      have hr := List.mem_range.mp hr
      simp only [Function.comp_apply, digits_div hr, digits_mod hr]
    rw [List.range_succ, List.flatMap_append, ih, Nat.mul_succ, List.range_add, List.map_append,
      hrow]
    simp

/-! ## Many digits -/

/-- The number of the digits in their bases, the low digit first. -/
def mixedRadix : List Nat → List Nat → Nat
  | n :: bases, r :: ds => n * mixedRadix bases ds + r
  | _, _ => 0

@[simp] theorem mixedRadix_nil {ds : List Nat} : mixedRadix [] ds = 0 := rfl

@[simp] theorem mixedRadix_cons {bases ds : List Nat} :
    mixedRadix (n :: bases) (r :: ds) = n * mixedRadix bases ds + r := rfl

theorem mixedRadix_lt {bases ds : List Nat} (h : List.Forall₂ (· < ·) ds bases) :
    mixedRadix bases ds < bases.prod := by
  induction h with
  | nil => simp
  | cons hr _ ih =>
    rw [mixedRadix_cons, List.prod_cons]
    exact (digits_lt_iff hr).mpr ih

/-- The digits are determined by the number. -/
theorem mixedRadix_inj {bases ds es : List Nat} (hd : List.Forall₂ (· < ·) ds bases)
    (he : List.Forall₂ (· < ·) es bases) (h : mixedRadix bases ds = mixedRadix bases es) :
    ds = es := by
  induction hd generalizing es with
  | nil =>
    cases he
    rfl
  | cons hr _ ih =>
    cases he with
    | cons hr' hrest =>
      rw [mixedRadix_cons, mixedRadix_cons] at h
      obtain ⟨hhigh, hlow⟩ := digits_inj hr hr' h
      rw [hlow, ih hrest hhigh]

/-- Every number below the product of the bases has its digits. -/
theorem exists_digits {bases : List Nat} {k : Nat} (h : k < bases.prod) :
    ∃ ds, List.Forall₂ (· < ·) ds bases ∧ mixedRadix bases ds = k := by
  induction bases generalizing k with
  | nil =>
    rw [List.prod_nil, Nat.lt_one_iff] at h
    exact ⟨[], List.Forall₂.nil, h.symm⟩
  | cons n bases ih =>
    rw [List.prod_cons] at h
    have hn : 0 < n := by
      apply Nat.pos_of_ne_zero
      rintro rfl
      rw [Nat.zero_mul] at h
      exact Nat.not_lt_zero k h
    obtain ⟨ds, hds, hnumber⟩ := ih (Nat.div_lt_of_lt_mul h)
    refine ⟨k % n :: ds, List.Forall₂.cons (Nat.mod_lt k hn) hds, ?_⟩
    rw [mixedRadix_cons, hnumber, Nat.div_add_mod]

end Digits
