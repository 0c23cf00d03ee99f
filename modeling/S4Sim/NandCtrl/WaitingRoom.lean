-- Simple_FiFo of iSSDNandCtrl.hh, the room where the commands of a channel
-- wait. `Holds q l` says that the room holds the list `l`, oldest first. The
-- test for a full room misses one case, when the tail is the last entry, so a
-- caller has to stay below the size by itself.
import S4Sim.Lib.Ring

namespace S4Sim

open Rings

variable {α : Type*}

/-- The entries with `head`, `tail` and `en_size` are the ring. -/
structure SimpleFiFo (α : Type*) where
  entries : RingBuffer α
  items : Nat
  isEmpty : Bool
  isFull : Bool

namespace SimpleFiFo

def push (q : SimpleFiFo α) (x : α) : SimpleFiFo α :=
  if q.isFull then q
  else
    { entries := q.entries.push x
      items := q.items + 1
      -- There is no `% en_size` in this test.
      isFull := decide ((q.entries.push x).head = (q.entries.push x).tail + 1)
      isEmpty := false }

def front (q : SimpleFiFo α) : Option α :=
  if q.isEmpty then none else some (q.entries.objs q.entries.head)

def pop_front (q : SimpleFiFo α) : SimpleFiFo α :=
  if q.isEmpty then q
  else
    { entries := q.entries.pop
      items := q.items - 1
      isEmpty := decide (q.entries.pop.head = q.entries.pop.tail)
      isFull := false }

structure Holds (q : SimpleFiFo α) (l : List α) : Prop where
  entries : q.entries.Holds l
  items : q.items = l.length
  empty : q.isEmpty = true ↔ l = []
  full : q.isFull = true → l.length + 1 = q.entries.size

variable {q : SimpleFiFo α} {l : List α} {x : α}

@[simp] theorem push_size : (q.push x).entries.size = q.entries.size := by
  unfold push
  split <;> rfl

@[simp] theorem pop_front_size : q.pop_front.entries.size = q.entries.size := by
  unfold pop_front
  split <;> rfl

theorem Holds.not_full (h : q.Holds l) (hroom : l.length + 1 < q.entries.size) :
    q.isFull = false := by
  rw [Bool.eq_false_iff]
  intro hfull
  have := h.full hfull
  omega

/-- A room with two entries left takes the item. -/
theorem Holds.push (h : q.Holds l) (hroom : l.length + 1 < q.entries.size) :
    (q.push x).Holds (l ++ [x]) := by
  have hentries : (q.entries.push x).Holds (l ++ [x]) := h.entries.push hroom
  unfold SimpleFiFo.push
  rw [h.not_full hroom, if_neg Bool.false_ne_true]
  refine ⟨hentries, by simp [h.items], by simp, ?_⟩
  intro hfull
  have htail := of_decide_eq_true hfull
  have hhead := hentries.2.1
  apply hentries.full_iff.mp
  rw [← htail, Nat.mod_eq_of_lt hhead]

theorem Holds.front (h : q.Holds (x :: l)) : q.front = some x := by
  have hempty : q.isEmpty = false := by
    rw [Bool.eq_false_iff]
    intro he
    simpa using h.empty.mp he
  unfold SimpleFiFo.front
  rw [hempty, if_neg Bool.false_ne_true, h.entries.head_eq]

theorem Holds.front_nil (h : q.Holds []) : q.front = none := by
  unfold SimpleFiFo.front
  rw [h.empty.mpr rfl, if_pos rfl]

theorem Holds.pop_front (h : q.Holds (x :: l)) : q.pop_front.Holds l := by
  have hempty : q.isEmpty = false := by
    rw [Bool.eq_false_iff]
    intro he
    simpa using h.empty.mp he
  have hentries : q.entries.pop.Holds l := h.entries.pop
  unfold SimpleFiFo.pop_front
  rw [hempty, if_neg Bool.false_ne_true]
  refine ⟨hentries, by simp [h.items], ?_, by simp⟩
  simp [hentries.empty_iff]

end SimpleFiFo

end S4Sim
