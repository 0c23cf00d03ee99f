-- The calls of Simple_FiFo, against a list with a capacity. The room counts as full when
-- `head == tail + 1`, with one entry unused, but the sum does not wrap. So a room whose head
-- is entry 0 never counts as full: `push` goes on past the last entry and over the oldest
-- entries. `fifo_iff_no_last_entry` says that no other call goes wrong.
import S4Sim.Lib.Calls
import S4Sim.NandCtrl.WaitingRoom

namespace S4Sim

open Rings Calls

variable {α : Type*}

/-- An entry, `data` with `data_type`, is an `α`. The second `push` takes the default type. -/
inductive FiFoCall (α : Type*) where
  | push (entry : α)
  | front
  | pop_front
  | pop

namespace SimpleFiFo

def en_size : Nat := 1024

/-- The constructor. The entries are as `malloc` leaves them. -/
def new (entries : Nat → α) : SimpleFiFo α where
  entries := ⟨0, 0, en_size, entries⟩
  items := 0
  isEmpty := true
  isFull := false

def size (q : SimpleFiFo α) : Nat := q.items

def empty (q : SimpleFiFo α) : Bool := q.isEmpty

def full (q : SimpleFiFo α) : Bool := q.isFull

/-- The value that the call returns, with the entry that it writes to `en`. -/
def call (q : SimpleFiFo α) : FiFoCall α → (Nat × Option α) × SimpleFiFo α
  | .push entry => ((if q.isFull then 0 else 1, none), q.push entry)
  | .front => ((if q.isEmpty then 0 else 1, q.front), q)
  | .pop_front => ((if q.isEmpty then 0 else 1, none), q.pop_front)
  | .pop => if q.front.isSome then ((1, q.front), q.pop_front) else ((0, none), q)

end SimpleFiFo

/-- The same calls on a list of entries, oldest first. -/
def callList (capacity : Nat) (held : List α) : FiFoCall α → (Nat × Option α) × List α
  | .push entry =>
    if held.length = capacity then ((0, none), held) else ((1, none), held ++ [entry])
  | .front => ((min 1 held.length, held.head?), held)
  | .pop_front => ((min 1 held.length, none), held.tail)
  | .pop => ((min 1 held.length, held.head?), held.tail)

/-- What `size`, `empty` and `full` return agrees with the entries held. -/
structure Agrees (capacity : Nat) (q : SimpleFiFo α) (held : List α) : Prop where
  size : q.size = held.length
  empty : q.empty = true ↔ held = []
  full : q.full = true ↔ held.length = capacity
  bounded : held.length ≤ SimpleFiFo.en_size

/-- A new room does what the list does in each of the calls. -/
def IsFifo (capacity : Nat) (entries : Nat → α) (calls : List (FiFoCall α)) : Prop :=
  results SimpleFiFo.call (.new entries) calls = results (callList capacity) [] calls ∧
    ∀ pre, pre <+: calls →
      Agrees capacity (callAll SimpleFiFo.call (.new entries) pre)
        (callAll (callList capacity) [] pre)

/-- The call does not fill the room up to the last entry while the head is entry 0. -/
def NotUpToLastEntry (q : SimpleFiFo α) : FiFoCall α → Prop
  | .push _ => ¬ (q.entries.head = 0 ∧ q.entries.tail + 2 = q.entries.size)
  | _ => True

/-! ## One call -/

section

variable {q : SimpleFiFo α} {held : List α}

/-- The room holds the entries, and `full` is right. -/
structure Exact (q : SimpleFiFo α) (held : List α) : Prop where
  size : q.entries.size = SimpleFiFo.en_size
  holds : q.Holds held
  full : q.isFull = true ↔ held.length + 1 = q.entries.size

theorem exact_new (entries : Nat → α) : Exact (.new entries) [] := by
  have hsize : 0 < SimpleFiFo.en_size := by decide
  have hone : ([] : List α).length + 1 ≠ SimpleFiFo.en_size := by
    rw [List.length_nil]
    decide
  refine ⟨rfl, ⟨RingBuffer.holds_nil hsize hsize rfl, rfl, ?_, ?_⟩, ?_⟩
  · exact iff_of_true rfl rfl
  · exact fun h => absurd h Bool.false_ne_true
  · exact iff_of_false Bool.false_ne_true hone

theorem Exact.agrees (h : Exact q held) : Agrees (SimpleFiFo.en_size - 1) q held := by
  have hlen : held.length < SimpleFiFo.en_size := h.size ▸ h.holds.entries.1
  refine ⟨h.holds.items, h.holds.empty, ?_, hlen.le⟩
  show q.isFull = true ↔ _
  rw [h.full, h.size]
  omega

/-- A push that finds room sets `isFull` when `head == tail + 1` holds of the new tail. -/
theorem push_isFull {entry : α} (hnot : q.isFull = false) :
    (q.push entry).isFull = true ↔
      q.entries.head = (q.entries.tail + 1) % q.entries.size + 1 := by
  unfold SimpleFiFo.push
  rw [hnot, if_neg Bool.false_ne_true]
  exact decide_eq_true_iff

/-- While the head is not entry 0, or the new tail not the last entry, the sum needs no wrap. -/
theorem Exact.push {entry : α} (h : Exact q held) (hroom : held.length + 1 < q.entries.size)
    (hok : NotUpToLastEntry q (.push entry)) : Exact (q.push entry) (held ++ [entry]) := by
  have hnext : (q.push entry).Holds (held ++ [entry]) := h.holds.push hroom
  refine ⟨SimpleFiFo.push_size.trans h.size, hnext, ?_⟩
  have hnot := h.holds.not_full hroom
  have hfull := (h.holds.entries.push (x := entry) hroom).full_iff
  have hhead := h.holds.entries.2.1
  rw [push_isFull hnot, SimpleFiFo.push_size, ← RingBuffer.push_size q.entries entry, ← hfull]
  show q.entries.head = (q.entries.tail + 1) % q.entries.size + 1 ↔
    q.entries.head = ((q.entries.tail + 1) % q.entries.size + 1) % q.entries.size
  have htail : q.entries.tail < q.entries.size := by
    rw [h.holds.entries.2.2.1]
    exact wrap_lt (by omega)
  rcases Nat.lt_or_ge ((q.entries.tail + 1) % q.entries.size + 1) q.entries.size with hlt | hge
  · rw [Nat.mod_eq_of_lt hlt]
  · -- The new tail is the last entry.
    have hlast : (q.entries.tail + 1) % q.entries.size + 1 = q.entries.size :=
      Nat.le_antisymm (Nat.succ_le_of_lt (wrap_lt (by omega))) hge
    have hsmall : q.entries.tail + 1 < q.entries.size := by
      by_contra hno
      have hend : q.entries.tail + 1 = q.entries.size := by omega
      rw [hend, Nat.mod_self] at hlast
      omega
    rw [Nat.mod_eq_of_lt hsmall] at hlast
    rw [Nat.mod_eq_of_lt hsmall, hlast, Nat.mod_self]
    refine iff_of_false hhead.ne fun hzero => hok ⟨hzero, by omega⟩

theorem Exact.isEmpty_nil (h : Exact q ([] : List α)) : q.isEmpty = true := h.holds.empty.mpr rfl

theorem Exact.isEmpty_cons {entry : α} (h : Exact q (entry :: held)) : q.isEmpty = false := by
  rw [Bool.eq_false_iff]
  intro he
  simpa using h.holds.empty.mp he

theorem Exact.pop_front {entry : α} (h : Exact q (entry :: held)) : Exact q.pop_front held := by
  have hnext := h.holds.pop_front
  refine ⟨SimpleFiFo.pop_front_size.trans h.size, hnext, ?_⟩
  have hlen := h.holds.entries.1
  rw [List.length_cons] at hlen
  have hnot : q.pop_front.isFull = false := by
    unfold SimpleFiFo.pop_front
    rw [h.isEmpty_cons, if_neg Bool.false_ne_true]
  rw [hnot, SimpleFiFo.pop_front_size]
  exact iff_of_false Bool.false_ne_true hlen.ne

/-- The step lemma: both calls return the same, and the room holds the entries after them. -/
theorem Exact.call (h : Exact q held) (call : FiFoCall α) (hok : NotUpToLastEntry q call) :
    (q.call call).1 = (callList (SimpleFiFo.en_size - 1) held call).1 ∧
      Exact (q.call call).2 (callList (SimpleFiFo.en_size - 1) held call).2 := by
  have hlen : held.length < SimpleFiFo.en_size := h.size ▸ h.holds.entries.1
  have hfull := h.full
  rw [h.size] at hfull
  cases call with
  | push entry =>
    simp only [SimpleFiFo.call, callList]
    by_cases heq : held.length = SimpleFiFo.en_size - 1
    · have hset : q.isFull = true := hfull.mpr (by omega)
      have hsame : q.push entry = q := if_pos hset
      rw [if_pos heq, if_pos hset, hsame]
      exact ⟨rfl, h⟩
    · have hroom : held.length + 1 < q.entries.size := by
        rw [h.size]
        omega
      rw [if_neg heq, h.holds.not_full hroom, if_neg Bool.false_ne_true]
      exact ⟨rfl, h.push hroom hok⟩
  | front =>
    simp only [SimpleFiFo.call, callList]
    cases held with
    | nil => simp [h.isEmpty_nil, h.holds.front_nil, h]
    | cons entry held => simp [h.isEmpty_cons, h.holds.front, h]
  | pop_front =>
    simp only [SimpleFiFo.call, callList]
    cases held with
    | nil => simp [h.isEmpty_nil, SimpleFiFo.pop_front, h]
    | cons entry held => simp [h.isEmpty_cons, h.pop_front]
  | pop =>
    simp only [SimpleFiFo.call, callList]
    cases held with
    | nil => simp [h.holds.front_nil, h]
    | cons entry held => simp [h.holds.front, h.pop_front]

/-- The push up to the last entry leaves `full` false, with one entry unused. -/
theorem Exact.not_agrees (h : Exact q held) (call : FiFoCall α) (hbad : ¬ NotUpToLastEntry q call) :
    ¬ Agrees (SimpleFiFo.en_size - 1) (q.call call).2
      (callList (SimpleFiFo.en_size - 1) held call).2 := by
  cases call with
  | push entry =>
    obtain ⟨hhead, htail⟩ := not_not.mp hbad
    obtain ⟨hlen, -, hplace, -⟩ := h.holds.entries
    rw [hhead, Nat.zero_add, Nat.mod_eq_of_lt hlen] at hplace
    have hroom : held.length + 1 < q.entries.size := by omega
    have hsize := h.size
    intro hagrees
    have hset := hagrees.full
    simp only [SimpleFiFo.call, callList] at hset
    rw [if_neg (by omega), List.length_append, List.length_singleton] at hset
    have hfull : (q.push entry).isFull = true := hset.mpr (by omega)
    rw [push_isFull (h.holds.not_full hroom), hhead] at hfull
    omega
  | front => exact absurd trivial hbad
  | pop_front => exact absurd trivial hbad
  | pop => exact absurd trivial hbad

end

/-! ## Any calls -/

/-- The room is a FIFO of one entry less than its size exactly when no push fills it up to the
last entry while the head is entry 0. -/
theorem fifo_iff_no_last_entry (entries : Nat → α) (calls : List (FiFoCall α)) :
    IsFifo (SimpleFiFo.en_size - 1) entries calls ↔
      AllCalls SimpleFiFo.call NotUpToLastEntry (.new entries) calls := by
  have hiff : AllCalls SimpleFiFo.call NotUpToLastEntry (.new entries) calls ↔
      ∀ pre, pre <+: calls → Agrees (SimpleFiFo.en_size - 1)
        (callAll SimpleFiFo.call (.new entries) pre)
        (callAll (callList (SimpleFiFo.en_size - 1)) [] pre) := by
    apply allCalls_iff_forall_prefix (R := Exact) fun _ _ call h hok => (Exact.call h call hok).2
    · exact fun _ _ h => h.agrees
    · exact fun _ _ call h hbad => h.not_agrees call hbad
    · exact exact_new entries
  constructor
  · exact fun h => hiff.mpr h.2
  · intro hok
    refine ⟨?_, hiff.mp hok⟩
    exact (agree_of_ok (fun _ _ call h hok => Exact.call h call hok) (exact_new entries) hok).1

/-! ## A room that is not popped -/

def pushes (n : Nat) : List (FiFoCall Nat) := (List.range n).map .push

/-- While the head is entry 0, each push is taken. -/
theorem pushes_taken (entries : Nat → Nat) (n : Nat) :
    let q := callAll SimpleFiFo.call (.new entries) (pushes n)
    q.entries.head = 0 ∧ q.isFull = false ∧ q.items = n := by
  induction n with
  | zero => exact ⟨rfl, rfl, rfl⟩
  | succ n ih =>
    obtain ⟨hhead, hfull, hitems⟩ := ih
    rw [pushes, List.range_succ, List.map_append, List.map_singleton, callAll_snoc]
    rw [pushes] at hhead hfull hitems
    generalize callAll SimpleFiFo.call (.new entries) ((List.range n).map .push) = q at *
    refine ⟨?_, ?_, ?_⟩
    · simp [SimpleFiFo.call, SimpleFiFo.push, hfull, RingBuffer.push, hhead]
    · simp [SimpleFiFo.call, SimpleFiFo.push, hfull, RingBuffer.push, hhead]
    · simp [SimpleFiFo.call, SimpleFiFo.push, hfull, hitems]

/-- A new room takes 1025 entries, one more than it has, so it is a FIFO of no capacity. -/
theorem room_takes_too_many_entries :
    ¬ ∃ capacity, IsFifo capacity (fun _ => 0) (pushes 1025) := by
  rintro ⟨capacity, -, hagrees⟩
  have hlast := hagrees (pushes 1025) (List.prefix_refl _)
  have hitems := (pushes_taken (fun _ => 0) 1025).2.2
  have hsize := hlast.size
  have hbounded := hlast.bounded
  rw [SimpleFiFo.size, hitems] at hsize
  rw [← hsize] at hbounded
  exact absurd hbounded (by decide)

end S4Sim
