-- A circular buffer with a head and a tail index. `Holds r l` says that the
-- buffer holds the list `l`, oldest first. One cell always stays unused, so a
-- buffer of `size` cells holds fewer than `size` items. A buffer whose users never
-- test the indices may use each cell: `Stores r l` says what it holds then.
import Mathlib.Data.Nat.ModEq
import Mathlib.Logic.Function.Basic

namespace Rings

variable {α : Type*}

structure RingBuffer (α : Type*) where
  head : Nat
  tail : Nat
  size : Nat
  objs : Nat → α

namespace RingBuffer

/-- Writes the item at the tail. The caller checks that the buffer is not full. -/
def push (r : RingBuffer α) (x : α) : RingBuffer α :=
  { r with objs := Function.update r.objs r.tail x, tail := (r.tail + 1) % r.size }

def pop (r : RingBuffer α) : RingBuffer α := { r with head := (r.head + 1) % r.size }

/-- The number of items between the head and the tail. -/
def count (r : RingBuffer α) : Nat := (r.tail + r.size - r.head) % r.size

/-- The items, oldest first. -/
def contents (r : RingBuffer α) : List α :=
  (List.range r.count).map fun i => r.objs ((r.head + i) % r.size)

/-- The buffer holds the items of `l`, oldest first. -/
def Holds (r : RingBuffer α) (l : List α) : Prop :=
  l.length < r.size ∧ r.head < r.size ∧ r.tail = (r.head + l.length) % r.size ∧
    ∀ i (hi : i < l.length), r.objs ((r.head + i) % r.size) = l[i]

/-- The buffer holds the items of `l`, oldest first, and may be full. -/
def Stores (r : RingBuffer α) (l : List α) : Prop :=
  l.length ≤ r.size ∧ r.head < r.size ∧ r.tail = (r.head + l.length) % r.size ∧
    ∀ i (hi : i < l.length), r.objs ((r.head + i) % r.size) = l[i]

@[simp] theorem push_size (r : RingBuffer α) (x : α) : (r.push x).size = r.size := rfl

@[simp] theorem pop_size (r : RingBuffer α) : r.pop.size = r.size := rfl

end RingBuffer

/-! ## Places in the buffer -/

theorem wrap_lt {n a : Nat} (h : 0 < n) : a % n < n := Nat.mod_lt _ h

/-- Two places less than one turn apart are equal only when they are the same. -/
theorem wrap_inj {n a i j : Nat} (hi : i < n) (hj : j < n) (h : (a + i) % n = (a + j) % n) :
    i = j := by
  have hmod : i ≡ j [MOD n] := Nat.ModEq.add_left_cancel' a h
  have := hmod
  rwa [Nat.ModEq, Nat.mod_eq_of_lt hi, Nat.mod_eq_of_lt hj] at this

theorem wrap_step (n a i : Nat) : ((a + 1) % n + i) % n = (a + (i + 1)) % n := by
  rw [Nat.mod_add_mod, Nat.add_assoc, Nat.add_comm 1 i]

namespace RingBuffer

variable {r : RingBuffer α} {l : List α} {x : α}

/-! ## The laws -/

theorem Holds.empty_iff (h : r.Holds l) : r.head = r.tail ↔ l = [] := by
  obtain ⟨hlen, hhead, htail, -⟩ := h
  rw [htail]
  constructor
  · intro he
    have hzero : (r.head + 0) % r.size = (r.head + l.length) % r.size := by
      rwa [Nat.add_zero, Nat.mod_eq_of_lt hhead]
    exact List.length_eq_zero_iff.mp (wrap_inj (by omega) hlen hzero).symm
  · rintro rfl
    rw [List.length_nil, Nat.add_zero, Nat.mod_eq_of_lt hhead]

/-- The test for a full buffer, `head = (tail + 1) % size`. -/
theorem Holds.full_iff (h : r.Holds l) :
    r.head = (r.tail + 1) % r.size ↔ l.length + 1 = r.size := by
  obtain ⟨hlen, hhead, htail, -⟩ := h
  rw [htail, Nat.mod_add_mod, Nat.add_assoc]
  rcases Nat.lt_or_ge (l.length + 1) r.size with hlt | hge
  · constructor
    · intro he
      have hzero : (r.head + 0) % r.size = (r.head + (l.length + 1)) % r.size := by
        rwa [Nat.add_zero, Nat.mod_eq_of_lt hhead]
      have := wrap_inj (by omega) hlt hzero
      omega
    · intro he
      omega
  · have hsize : l.length + 1 = r.size := by omega
    rw [hsize, Nat.add_mod_right, Nat.mod_eq_of_lt hhead]
    simp

theorem Stores.push (h : r.Stores l) (hroom : l.length < r.size) :
    (r.push x).Stores (l ++ [x]) := by
  obtain ⟨hlen, hhead, htail, hobjs⟩ := h
  refine ⟨by simpa using Nat.succ_le_of_lt hroom, hhead, ?_, ?_⟩
  · show (r.tail + 1) % r.size = _
    rw [htail, Nat.mod_add_mod, List.length_append, List.length_singleton, Nat.add_assoc]
    rfl
  · intro i hi
    rw [List.length_append, List.length_singleton] at hi
    show Function.update r.objs r.tail x ((r.head + i) % r.size) = _
    rcases Nat.lt_or_ge i l.length with hlt | hge
    · -- An older item is not at the tail.
      have hne : (r.head + i) % r.size ≠ r.tail := by
        rw [htail]
        intro he
        have := wrap_inj (by omega) hroom he
        omega
      rw [Function.update_of_ne hne, hobjs i hlt, List.getElem_append_left hlt]
    · have hi' : i = l.length := by omega
      subst hi'
      rw [← htail, Function.update_self, List.getElem_concat_length rfl]

theorem Stores.head_eq (h : r.Stores (x :: l)) : r.objs r.head = x := by
  obtain ⟨-, hhead, -, hobjs⟩ := h
  have := hobjs 0 (by simp)
  rwa [Nat.add_zero, Nat.mod_eq_of_lt hhead] at this

theorem Stores.pop (h : r.Stores (x :: l)) : r.pop.Stores l := by
  obtain ⟨hlen, hhead, htail, hobjs⟩ := h
  rw [List.length_cons] at hlen htail
  have hsize : 0 < r.size := by omega
  refine ⟨by simpa using by omega, wrap_lt hsize, ?_, ?_⟩
  · show r.tail = ((r.head + 1) % r.size + l.length) % r.size
    rw [wrap_step, htail]
  · intro i hi
    show r.objs (((r.head + 1) % r.size + i) % r.size) = _
    rw [wrap_step, hobjs (i + 1) (by simpa using hi)]
    rfl

/-- A buffer with a cell left. -/
theorem holds_iff : r.Holds l ↔ l.length < r.size ∧ r.Stores l :=
  ⟨fun ⟨hlen, hrest⟩ => ⟨hlen, hlen.le, hrest⟩, fun ⟨hlen, _, hrest⟩ => ⟨hlen, hrest⟩⟩

theorem Holds.push (h : r.Holds l) (hroom : l.length + 1 < r.size) :
    (r.push x).Holds (l ++ [x]) := by
  obtain ⟨hlen, hstores⟩ := holds_iff.mp h
  exact holds_iff.mpr ⟨by simpa using hroom, hstores.push hlen⟩

theorem Holds.head_eq (h : r.Holds (x :: l)) : r.objs r.head = x := (holds_iff.mp h).2.head_eq

theorem Holds.pop (h : r.Holds (x :: l)) : r.pop.Holds l := by
  obtain ⟨hlen, hstores⟩ := holds_iff.mp h
  exact holds_iff.mpr ⟨Nat.lt_of_succ_lt hlen, hstores.pop⟩

theorem Holds.count_eq (h : r.Holds l) : r.count = l.length := by
  obtain ⟨hlen, hhead, htail, -⟩ := h
  unfold count
  rcases Nat.lt_or_ge (r.head + l.length) r.size with hlt | hge
  · rw [htail, Nat.mod_eq_of_lt hlt, show r.head + l.length + r.size - r.head = l.length + r.size by
      omega, Nat.add_mod_right, Nat.mod_eq_of_lt hlen]
  · have hwrap : (r.head + l.length) % r.size = r.head + l.length - r.size := by
      rw [Nat.mod_eq_sub_mod hge, Nat.mod_eq_of_lt (by omega)]
    rw [htail, hwrap, show r.head + l.length - r.size + r.size - r.head = l.length by omega,
      Nat.mod_eq_of_lt hlen]

theorem Holds.contents_eq (h : r.Holds l) : r.contents = l := by
  unfold contents
  rw [h.count_eq]
  refine List.ext_getElem (by simp) fun i hi hi' => ?_
  rw [List.getElem_map, List.getElem_range]
  exact h.2.2.2 i hi'

theorem holds_nil (hsize : 0 < r.size) (hhead : r.head < r.size) (he : r.head = r.tail) :
    r.Holds [] :=
  ⟨hsize, hhead, by rw [← he, List.length_nil, Nat.add_zero, Nat.mod_eq_of_lt hhead],
    fun i hi => absurd hi (by simp)⟩

end RingBuffer

end Rings
