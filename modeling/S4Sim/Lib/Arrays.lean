-- Arrays of records in a memory of bytes. An array is its first byte, the bytes of a record,
-- the number of its records, and the bytes of each record. Arrays that are apart can be read
-- back, record by record.
import S4Sim.Lib.Digits
import Mathlib.Data.List.Pairwise

open Digits

namespace Arrays

variable {β : Type*}

structure Table (β : Type*) where
  base : Nat
  size : Nat
  count : Nat
  cell : Nat → Nat → β

namespace Table

def Covers (a : Table β) (i : Nat) : Prop := a.base ≤ i ∧ i < a.base + a.size * a.count

instance (a : Table β) (i : Nat) : Decidable (a.Covers i) := by
  unfold Covers
  infer_instance

/-- The one ends before the other begins. -/
def Apart (a b : Table β) : Prop :=
  a.base + a.size * a.count ≤ b.base ∨ b.base + b.size * b.count ≤ a.base

def read (a : Table β) (i : Nat) : β := a.cell ((i - a.base) / a.size) ((i - a.base) % a.size)

end Table

/-- The memory of some arrays. `rest` is what it has outside them. -/
def memory (rest : Nat → β) : List (Table β) → Nat → β
  | [], i => rest i
  | a :: tables, i => if a.Covers i then a.read i else memory rest tables i

variable {a b : Table β} {tables : List (Table β)} {rest : Nat → β} {i j k : Nat}

theorem Table.covers_cell (hj : j < a.count) (hk : k < a.size) :
    a.Covers (a.base + a.size * j + k) := by
  have hlt := (digits_lt_iff (m := a.count) hk).mpr hj
  exact ⟨by omega, by omega⟩

theorem Table.read_cell (hk : k < a.size) : a.read (a.base + a.size * j + k) = a.cell j k := by
  unfold Table.read
  rw [Nat.add_assoc, Nat.add_sub_cancel_left, digits_div hk, digits_mod hk]

theorem Table.Apart.not_covers (h : a.Apart b) (hi : a.Covers i) : ¬ b.Covers i := by
  obtain ⟨hle, hlt⟩ := hi
  rintro ⟨hle', hlt'⟩
  rcases h with h | h <;> omega

/-- Each record of each of the arrays is where the array says. -/
theorem memory_cell (hapart : tables.Pairwise Table.Apart) (ha : a ∈ tables) (hj : j < a.count)
    (hk : k < a.size) : memory rest tables (a.base + a.size * j + k) = a.cell j k := by
  have hcovers := Table.covers_cell hj hk
  induction tables with
  | nil => cases ha
  | cons b tables ih =>
    rw [List.pairwise_cons] at hapart
    unfold memory
    rcases List.mem_cons.mp ha with rfl | ha
    · rw [if_pos hcovers, Table.read_cell hk]
    · have hother : ¬ b.Covers (a.base + a.size * j + k) := fun hb =>
        (hapart.1 a ha).not_covers hb hcovers
      rw [if_neg hother]
      exact ih hapart.2 ha

end Arrays
