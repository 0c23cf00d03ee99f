-- enQueue and deQueue of util.containers.c. The cells of a queue hold pointers, and one
-- cell stays unused, so that the indices of a full queue differ from those of an empty
-- one. `queue_is_a_fifo` compares a queue with the list of the items it holds.
import S4Sim.Lib.Calls
import S4Sim.Firmware.RequestObjects

namespace S4Sim

open Rings RingBuffer Calls

variable {α : Type*}

/-- A `queue_t` of objects with the addresses `α`. A null pointer is `none`. -/
abbrev CircularQueue (α : Type*) := RingBuffer (Option α)

namespace CircularQueue

/-- The result is null when the queue is full. No index passes the size, which is an `int`. -/
def enQueue (queue : CircularQueue α) (item_ptr : Option α) : Option α × CircularQueue α :=
  if queue.head = (queue.tail + 1) % queue.size then (none, queue)
  else (item_ptr, queue.push item_ptr)

/-- The result is null when the queue is empty. -/
def deQueue (queue : CircularQueue α) : Option α × CircularQueue α :=
  if queue.head = queue.tail then (none, queue) else (queue.objs queue.head, queue.pop)

end CircularQueue

/-- The queues of the request objects are such queues. -/
theorem reqQueue_enQueue (queue : ReqQueue) (req : ReqPtr) :
    ReqQueue.enQueue queue req = (CircularQueue.enQueue queue (some req)).1.map
      fun _ => (CircularQueue.enQueue queue (some req)).2 := by
  unfold ReqQueue.enQueue CircularQueue.enQueue
  split <;> rfl

theorem reqQueue_deQueue (queue : ReqQueue) :
    ReqQueue.deQueue queue = CircularQueue.deQueue queue := rfl

/-! ## The calls, and a list with a capacity -/

inductive QueueCall (α : Type*) where
  | enQueue (item : α)
  | deQueue

def callQueue (queue : CircularQueue α) : QueueCall α → Option α × CircularQueue α
  | .enQueue item => queue.enQueue (some item)
  | .deQueue => queue.deQueue

/-- The same calls on a list of items, oldest first. -/
def callFifo (capacity : Nat) (items : List α) : QueueCall α → Option α × List α
  | .enQueue item =>
    if items.length = capacity then (none, items) else (some item, items ++ [item])
  | .deQueue => (items.head?, items.tail)

/-! ## One call -/

section

variable {queue : CircularQueue α} {items : List α} {item : α} {n : Nat}

theorem enQueue_full (h : queue.Holds (items.map some)) (hfull : items.length + 1 = queue.size) :
    queue.enQueue (some item) = (none, queue) := by
  unfold CircularQueue.enQueue
  rw [if_pos (h.full_iff.mpr (by rwa [List.length_map]))]

theorem enQueue_room (h : queue.Holds (items.map some)) (hroom : items.length + 1 < queue.size)
    (item : α) :
    queue.enQueue (some item) = (some item, queue.push (some item)) ∧
      (queue.push (some item)).Holds ((items ++ [item]).map some) := by
  have hlen : (items.map some).length + 1 < queue.size := by rwa [List.length_map]
  have hnot : queue.head ≠ (queue.tail + 1) % queue.size := by
    intro he
    exact hlen.ne (h.full_iff.mp he)
  unfold CircularQueue.enQueue
  rw [if_neg hnot, List.map_append]
  exact ⟨rfl, h.push hlen⟩

theorem deQueue_nil (h : queue.Holds (([] : List α).map some)) :
    queue.deQueue = (none, queue) := by
  unfold CircularQueue.deQueue
  rw [if_pos (h.empty_iff.mpr rfl)]

theorem deQueue_cons (h : queue.Holds ((item :: items).map some)) :
    queue.deQueue = (some item, queue.pop) ∧ queue.pop.Holds (items.map some) := by
  have hnot : queue.head ≠ queue.tail := by
    intro he
    simpa using h.empty_iff.mp he
  unfold CircularQueue.deQueue
  rw [if_neg hnot, h.head_eq]
  exact ⟨rfl, h.pop⟩

/-- The queue of size `n` holds the items. -/
def Queued (n : Nat) (queue : CircularQueue α) (items : List α) : Prop :=
  queue.size = n ∧ queue.Holds (items.map some)

theorem Queued.length_lt (h : Queued n queue items) : items.length < n := by
  have := h.2.1
  rwa [List.length_map, h.1] at this

/-- The step lemma: both calls have the same result, and the queue holds the items after them. -/
theorem Queued.call (h : Queued n queue items) (call : QueueCall α) :
    (callQueue queue call).1 = (callFifo (n - 1) items call).1 ∧
      Queued n (callQueue queue call).2 (callFifo (n - 1) items call).2 := by
  have hlen := h.length_lt
  obtain ⟨hsize, hholds⟩ := h
  cases call with
  | enQueue item =>
    simp only [callQueue, callFifo]
    by_cases hfull : items.length = n - 1
    · rw [enQueue_full hholds (by omega), if_pos hfull]
      exact ⟨rfl, hsize, hholds⟩
    · have hroom : items.length + 1 < queue.size := by omega
      obtain ⟨heq, hnext⟩ := enQueue_room hholds hroom item
      rw [heq, if_neg hfull]
      exact ⟨rfl, hsize, hnext⟩
  | deQueue =>
    simp only [callQueue, callFifo]
    cases items with
    | nil =>
      rw [deQueue_nil hholds]
      exact ⟨rfl, hsize, hholds⟩
    | cons item items =>
      obtain ⟨heq, hnext⟩ := deQueue_cons hholds
      rw [heq]
      exact ⟨rfl, hsize, hnext⟩

theorem queued_nil (hn : 1 ≤ n) (objs : Nat → Option α) : Queued n ⟨0, 0, n, objs⟩ [] :=
  ⟨rfl, holds_nil hn hn rfl⟩

end

/-! ## Any calls -/

theorem queue_is_a_fifo (n : Nat) (hn : 1 ≤ n) (objs : Nat → Option α)
    (calls : List (QueueCall α)) :
    let queue := callAll callQueue ⟨0, 0, n, objs⟩ calls
    let items := callAll (callFifo (n - 1)) [] calls
    results callQueue ⟨0, 0, n, objs⟩ calls = results (callFifo (n - 1)) [] calls ∧
      queue.contents = items.map some ∧ items.length ≤ n - 1 ∧
      queue.head < n ∧ queue.tail < n ∧
      (∀ item, (queue.enQueue (some item)).1 = none ↔ items.length = n - 1) ∧
      (∀ item, (queue.enQueue (some item)).1 = none → (queue.enQueue (some item)).2 = queue) ∧
      (queue.deQueue.1 = none ↔ items = []) := by
  intro queue items
  obtain ⟨hsame, hqueued⟩ : results callQueue ⟨0, 0, n, objs⟩ calls =
      results (callFifo (n - 1)) [] calls ∧ Queued n queue items :=
    agree (fun _ _ call h => h.call call) (queued_nil hn objs)
  have hlen := hqueued.length_lt
  obtain ⟨hsize, hholds⟩ := id hqueued
  refine ⟨hsame, hholds.contents_eq, by omega, ?_, ?_, ?_, ?_, ?_⟩
  · exact hsize ▸ hholds.2.1
  · rw [hholds.2.2.1, hsize]
    exact wrap_lt hn
  · intro item
    have heq := (hqueued.call (.enQueue item)).1
    simp only [callQueue, callFifo] at heq
    rw [heq]
    by_cases hfull : items.length = n - 1 <;> simp [hfull]
  · intro item hnull
    by_cases hfull : queue.head = (queue.tail + 1) % queue.size
    · simp only [CircularQueue.enQueue, if_pos hfull]
    · simp [CircularQueue.enQueue, hfull] at hnull
  · have heq := (hqueued.call .deQueue).1
    simp only [callQueue, callFifo] at heq
    rw [heq, List.head?_eq_none_iff]

theorem queue_is_a_fifo_of_two_cells :
    results callQueue ⟨0, 0, 2, fun _ => none⟩ [.enQueue 7, .enQueue 8, .deQueue] =
      [some 7, none, some 7] :=
  (queue_is_a_fifo 2 (by decide) (fun _ => none) [.enQueue 7, .enQueue 8, .deQueue]).1

end S4Sim
