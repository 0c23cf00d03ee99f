-- A circular buffer between two threads that share its memory. Each assignment to a field of
-- a cell, to the tail or to the head is a step of its own. The consumer moves the head before
-- it reads the cell that it takes: the cell that always stays unused protects that one.
import S4Sim.Lib.Ring
import Mathlib.Data.List.Basic

namespace Rings

variable {α : Type*}

/-! ## The two threads -/

/-- The assignments that copy an item to a cell, one field each: from the item and the cell
before it to the cell after it. -/
abbrev FieldCopies (α : Type*) := List (α → α → α)

/-- The cell after the assignments. -/
def copyFields (copies : FieldCopies α) (x cell : α) : α :=
  copies.foldl (fun cell copy => copy x cell) cell

/-- The assignments copy every field. -/
def Whole (copies : FieldCopies α) : Prop := ∀ x cell, copyFields copies x cell = x

/-- The producer is between two items, or has the assignments `rest` left. -/
inductive Producer (α : Type*)
  | idle
  | storing (x : α) (rest : FieldCopies α)

/-- The consumer is between two items, has found one at the head, or has moved the head and
reads the cell. -/
inductive Consumer
  | idle
  | found (i : Nat)
  | taken (i : Nat)

/-- `sent` and `done` are not in the memory: the items in the order of their publication, and
how many of them the consumer is done with. -/
structure SharedRing (α : Type*) where
  size : Nat
  head : Nat
  tail : Nat
  cells : Nat → α
  producer : Producer α
  consumer : Consumer
  sent : List α
  done : Nat

namespace SharedRing

variable (r : SharedRing α)

/-- A step of the producer. `x` is its next item when it is between two, and a full buffer
drops it. -/
def produce (copies : FieldCopies α) (x : α) : SharedRing α :=
  match r.producer with
  | .idle =>
    if r.head = (r.tail + 1) % r.size then r else { r with producer := .storing x copies }
  | .storing y (copy :: rest) =>
    { r with
      cells := Function.update r.cells r.tail (copy y (r.cells r.tail))
      producer := .storing y rest }
  | .storing y [] =>
    { r with tail := (r.tail + 1) % r.size, producer := .idle, sent := r.sent ++ [y] }

/-- A step of the consumer, reading apart. -/
def consume : SharedRing α :=
  match r.consumer with
  | .idle => if r.head = r.tail then r else { r with consumer := .found r.head }
  | .found i => { r with head := (r.head + 1) % r.size, consumer := .taken i }
  | .taken _ => { r with consumer := .idle, done := r.done + 1 }

/-- The item that the producer stores. -/
def storing : List α :=
  match r.producer with
  | .idle => []
  | .storing x _ => [x]

/-- The items that the head has passed. -/
def passed : Nat :=
  match r.consumer with
  | .taken _ => r.done + 1
  | _ => r.done

/-! ## The invariant -/

/-- There is a free cell, and the assignments left make it the item. -/
def ProducerGood : Prop :=
  match r.producer with
  | .idle => True
  | .storing x rest =>
    r.sent.length + 1 < r.passed + r.size ∧ copyFields rest x (r.cells r.tail) = x

/-- The consumer has the place of the oldest item. -/
def ConsumerGood (base : Nat) : Prop :=
  match r.consumer with
  | .idle => True
  | .found i | .taken i => i = (base + r.done) % r.size ∧ r.done < r.sent.length

/-- The cells from the item in the consumer's hand up to the tail hold what was sent. `base` is
the first place. -/
structure Shared (base : Nat) (r : SharedRing α) : Prop where
  size : 0 < r.size
  head : r.head = (base + r.passed) % r.size
  tail : r.tail = (base + r.sent.length) % r.size
  passed_le : r.passed ≤ r.sent.length
  room : r.sent.length < r.passed + r.size
  cells : ∀ j (hj : j < r.sent.length), r.done ≤ j → r.cells ((base + j) % r.size) = r.sent[j]
  producer : r.ProducerGood
  consumer : r.ConsumerGood base

variable {r} {base : Nat} {copies : FieldCopies α} {x : α}

/-! ## What a step changes -/

@[simp] theorem produce_size : (r.produce copies x).size = r.size := by
  unfold produce
  split
  · split <;> rfl
  · rfl
  · rfl

/-- The producer is between two items: it takes on the next one when there is room. -/
theorem produce_idle (hpc : r.producer = .idle) :
    (r.produce copies x).sent ++ (r.produce copies x).storing =
      if r.head = (r.tail + 1) % r.size then r.sent else r.sent ++ [x] := by
  unfold produce
  rw [hpc]
  simp only
  split
  · simp [storing, hpc]
  · simp [storing]

/-- The producer goes on with its item. -/
theorem produce_storing {y : α} {rest : FieldCopies α} (hpc : r.producer = .storing y rest) :
    (r.produce copies x).sent ++ (r.produce copies x).storing = r.sent ++ r.storing := by
  unfold produce
  rw [hpc]
  cases rest <;> simp [storing, hpc]

theorem consume_idle (hpc : r.consumer = .idle) (htest : r.head ≠ r.tail) :
    r.consume = { r with consumer := .found r.head } := by
  unfold consume
  rw [hpc]
  exact if_neg htest

theorem consume_found {i : Nat} (hpc : r.consumer = .found i) :
    r.consume = { r with head := (r.head + 1) % r.size, consumer := .taken i } := by
  unfold consume
  rw [hpc]

theorem consume_taken {i : Nat} (hpc : r.consumer = .taken i) :
    r.consume = { r with consumer := .idle, done := r.done + 1 } := by
  unfold consume
  rw [hpc]

/-- What a step of the consumer leaves to the producer. -/
theorem consume_frame (r : SharedRing α) : r.consume.size = r.size ∧
    r.consume.sent = r.sent ∧ r.consume.storing = r.storing := by
  unfold consume
  split
  · split <;> exact ⟨rfl, rfl, rfl⟩
  · exact ⟨rfl, rfl, rfl⟩
  · exact ⟨rfl, rfl, rfl⟩

/-! ## The steps -/

theorem done_le_passed : r.done ≤ r.passed ∧ r.passed ≤ r.done + 1 := by
  unfold passed
  split <;> omega

/-- Two places less than one turn apart. -/
theorem place_ne {n i j : Nat} (hlt : i < j) (hturn : j < i + n) :
    (base + i) % n ≠ (base + j) % n := by
  intro he
  have hj : base + i + (j - i) = base + j := by omega
  have hsame : (base + i + 0) % n = (base + i + (j - i)) % n := by rw [Nat.add_zero, he, hj]
  have := wrap_inj (by omega) (by omega) hsame
  omega

/-- The cell at the tail holds no item that is still to be read. -/
theorem Shared.tail_free (h : r.Shared base) (hroom : r.sent.length + 1 < r.passed + r.size)
    {j : Nat} (hj : j < r.sent.length) (hdone : r.done ≤ j) :
    (base + j) % r.size ≠ r.tail := by
  have hpassed := r.done_le_passed
  rw [h.tail]
  exact place_ne hj (by omega)

/-- The full test of the producer. -/
theorem Shared.full_test (h : r.Shared base) :
    r.head = (r.tail + 1) % r.size ↔ r.sent.length + 1 = r.passed + r.size := by
  have hle := h.passed_le
  have hroom := h.room
  rw [h.head, h.tail, Nat.mod_add_mod, Nat.add_assoc base]
  constructor
  · intro he
    by_contra hne
    exact place_ne (by omega) (by omega) he
  · intro hfull
    rw [hfull, ← Nat.add_assoc base, Nat.add_mod_right]

/-- The empty test of the consumer. -/
theorem Shared.empty_test (h : r.Shared base) : r.head = r.tail ↔ r.passed = r.sent.length := by
  rw [h.head, h.tail]
  constructor
  · intro he
    by_contra hne
    have hle := h.passed_le
    exact place_ne (by omega) h.room he
  · intro he
    rw [he]

theorem Shared.produce (h : r.Shared base) (hwhole : Whole copies) :
    (r.produce copies x).Shared base := by
  unfold SharedRing.produce
  split
  · split
    · exact h
    · rename_i htest
      have hroom : r.sent.length + 1 < r.passed + r.size := by
        have := mt h.full_test.mpr htest
        have := h.room
        omega
      exact ⟨h.size, h.head, h.tail, h.passed_le, h.room, h.cells, ⟨hroom, hwhole x _⟩, h.consumer⟩
  · rename_i y copy rest hpc
    obtain ⟨hroom, hrest⟩ : r.sent.length + 1 < r.passed + r.size ∧
        copyFields (copy :: rest) y (r.cells r.tail) = y := by
      have := h.producer
      rwa [ProducerGood, hpc] at this
    refine ⟨h.size, h.head, h.tail, h.passed_le, h.room, ?_, ⟨hroom, ?_⟩, h.consumer⟩
    · intro j hj hdone
      simp only
      rw [Function.update_of_ne (h.tail_free hroom hj hdone)]
      exact h.cells j hj hdone
    · simp only [Function.update_self]
      exact hrest
  · rename_i y hpc
    obtain ⟨hroom, hcell⟩ : r.sent.length + 1 < r.passed + r.size ∧ r.cells r.tail = y := by
      have := h.producer
      rwa [ProducerGood, hpc] at this
    have hlen : (r.sent ++ [y]).length = r.sent.length + 1 := by simp
    refine ⟨h.size, h.head, ?_, ?_, ?_, ?_, trivial, ?_⟩
    · simp only [hlen]
      rw [h.tail, Nat.mod_add_mod, Nat.add_assoc]
    · exact Nat.le_trans h.passed_le (by simp)
    · simp only [hlen]
      exact hroom
    · intro j hj hdone
      simp only at hj ⊢
      rw [hlen] at hj
      by_cases hold : j < r.sent.length
      · rw [List.getElem_append_left hold]
        exact h.cells j hold hdone
      · obtain rfl : j = r.sent.length := by omega
        rw [← h.tail, hcell]
        simp
    · have hgood := h.consumer
      unfold ConsumerGood at hgood ⊢
      simp only [hlen]
      split
      · trivial
      · rename_i i hpc'
        rw [hpc'] at hgood
        exact ⟨hgood.1, Nat.lt_succ_of_lt hgood.2⟩
      · rename_i i hpc'
        rw [hpc'] at hgood
        exact ⟨hgood.1, Nat.lt_succ_of_lt hgood.2⟩

/-- The producer can go on when the head has moved. -/
theorem ProducerGood.congr {r' : SharedRing α} (h : r.ProducerGood)
    (hproducer : r'.producer = r.producer) (hsent : r'.sent = r.sent) (hsize : r'.size = r.size)
    (hcells : r'.cells = r.cells) (htail : r'.tail = r.tail) (hpassed : r.passed ≤ r'.passed) :
    r'.ProducerGood := by
  unfold ProducerGood at h ⊢
  rw [hproducer, hsent, hsize, hcells, htail]
  split
  · trivial
  · rename_i y rest hpc
    rw [hpc] at h
    exact ⟨by omega, h.2⟩

theorem Shared.consume (h : r.Shared base) : r.consume.Shared base := by
  unfold SharedRing.consume
  split
  · rename_i hpc
    have hpassed : r.passed = r.done := by
      unfold passed
      rw [hpc]
    split
    · exact h
    · rename_i htest
      have hlt : r.done < r.sent.length := by
        have := mt h.empty_test.mpr htest
        have := h.passed_le
        omega
      have hhead := h.head
      rw [hpassed] at hhead
      have hle := h.passed_le
      have hroom := h.room
      rw [hpassed] at hle hroom
      exact ⟨h.size, hhead, h.tail, hle, hroom, h.cells,
        h.producer.congr rfl rfl rfl rfl rfl hpassed.le, ⟨hhead, hlt⟩⟩
  · rename_i i hpc
    have hpassed : r.passed = r.done := by
      unfold passed
      rw [hpc]
    have hgood := h.consumer
    rw [ConsumerGood, hpc] at hgood
    have hroom := h.room
    refine ⟨h.size, ?_, h.tail, hgood.2, ?_, h.cells,
      h.producer.congr rfl rfl rfl rfl rfl (hpassed.le.trans (Nat.le_succ _)), hgood⟩
    · show (r.head + 1) % r.size = (base + (r.done + 1)) % r.size
      rw [h.head, hpassed, Nat.mod_add_mod, Nat.add_assoc]
    · show r.sent.length < r.done + 1 + r.size
      omega
  · rename_i i hpc
    have hpassed : r.passed = r.done + 1 := by
      unfold passed
      rw [hpc]
    have hhead := h.head
    have hle := h.passed_le
    have hroom := h.room
    rw [hpassed] at hhead hle hroom
    exact ⟨h.size, hhead, h.tail, hle, hroom, fun j hj hdone => h.cells j hj (Nat.le_of_lt hdone),
      h.producer.congr rfl rfl rfl rfl rfl hpassed.le, trivial⟩

/-- While the consumer reads, its cell holds the oldest item that is not done. -/
theorem Shared.taken_cell (h : r.Shared base) {i : Nat} (hpc : r.consumer = .taken i) :
    r.sent[r.done]? = some (r.cells i) := by
  have hgood := h.consumer
  rw [ConsumerGood, hpc] at hgood
  obtain ⟨rfl, hlt⟩ := hgood
  rw [List.getElem?_eq_getElem hlt, h.cells r.done hlt (Nat.le_refl _)]

/-- What a step of the producer leaves to the consumer. -/
theorem produce_frame (r : SharedRing α) (copies : FieldCopies α) (x : α) :
    (r.produce copies x).consumer = r.consumer ∧
      (r.produce copies x).done = r.done ∧ r.sent <+: (r.produce copies x).sent := by
  unfold SharedRing.produce
  split
  · split <;> exact ⟨rfl, rfl, List.prefix_rfl⟩
  · exact ⟨rfl, rfl, List.prefix_rfl⟩
  · exact ⟨rfl, rfl, List.prefix_append _ _⟩

/-- The producer leaves what the consumer is done with. -/
theorem Shared.take_produce (h : r.Shared base) (copies : FieldCopies α) (x : α) :
    (r.produce copies x).sent.take (r.produce copies x).done = r.sent.take r.done := by
  obtain ⟨-, hdone, more, hmore⟩ := r.produce_frame copies x
  have hle : r.done ≤ r.sent.length := r.done_le_passed.1.trans h.passed_le
  rw [hdone, ← hmore, List.take_append_of_le_length hle]

/-- The producer does not touch the cell that the consumer reads. -/
theorem Shared.produce_taken (h : r.Shared base) (hwhole : Whole copies) {i : Nat}
    (hpc : r.consumer = .taken i) : (r.produce copies x).cells i = r.cells i := by
  obtain ⟨hconsumer, hdone, hsent⟩ := r.produce_frame copies x
  have hold := h.taken_cell hpc
  have hnew := (h.produce (x := x) hwhole).taken_cell (hconsumer.trans hpc)
  obtain ⟨more, hmore⟩ := hsent
  have hlt : r.done < r.sent.length := (List.getElem?_eq_some_iff.mp hold).1
  rw [hdone, ← hmore, List.getElem?_append_left hlt, hold] at hnew
  exact (Option.some.inj hnew).symm

/-! ## The items that are still to be read -/

/-- The cells from the item in the consumer's hand up to the tail. -/
def unread (base : Nat) (r : SharedRing α) : List α :=
  (List.range (r.sent.length - r.done)).map fun i => r.cells ((base + r.done + i) % r.size)

theorem Shared.unread_eq (h : r.Shared base) : r.unread base = r.sent.drop r.done := by
  refine List.ext_getElem (by simp [unread]) fun i hi hi' => ?_
  have hlt : r.done + i < r.sent.length := by
    rw [List.length_drop] at hi'
    omega
  rw [List.getElem_drop, ← h.cells (r.done + i) hlt (Nat.le_add_right _ _)]
  simp [unread, Nat.add_assoc]

/-- A buffer that is at rest. The items in it count as sent. -/
def ofRing (r : RingBuffer α) (l : List α) : SharedRing α :=
  ⟨r.size, r.head, r.tail, r.objs, .idle, .idle, l, 0⟩

theorem shared_ofRing {r : RingBuffer α} {l : List α} (h : r.Holds l) :
    (ofRing r l).Shared r.head := by
  obtain ⟨hlen, hhead, htail, hobjs⟩ := h
  exact ⟨Nat.zero_lt_of_lt hhead, (Nat.mod_eq_of_lt hhead).symm, htail, Nat.zero_le _,
    by simpa [ofRing, passed] using hlen, fun j hj _ => hobjs j hj, trivial, trivial⟩

end SharedRing

end Rings
