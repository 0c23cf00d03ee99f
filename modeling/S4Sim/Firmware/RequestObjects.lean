-- The request objects, from issd_kernel_mem_alloc.c: three arrays, and a ring of free
-- objects for each. A ring of `n` entries takes `n - 1` objects, so the last object of
-- each array is never allocated. An allocation that finds no object writes to it all
-- the same.
import S4Sim.Lib.Pool
import S4Sim.Lib.Ring
import S4Sim.Lib.Run
import S4Sim.Nvme.Types

open Pools Rings RingBuffer Runs

namespace S4Sim

/-! ## Types and stages -/

def ADMIN_REQUEST : Nat := 1

def READ_IO_REQUEST : Nat := 2

def WRITE_IO_REQUEST : Nat := 3

def FLUSH_IO_REQUEST : Nat := 4

def TRIM_IO_REQUEST : Nat := 5

def ISP_IO_REQUEST : Nat := 6

def ISP_READ_PAGES_REQUEST : Nat := 10

def ISP_PROGRAM_PAGES_REQUEST : Nat := 11

def ISP_HOST_DMA_REQUEST : Nat := 13

def REQ_STAGE_FREE : Nat := 1

def REQ_STAGE_INUSE : Nat := 2

/-! ## The memory -/

def R_SIZE : Nat := INTERNAL_IO_REQ_QUEUE * 2

def W_SIZE : Nat := INTERNAL_IO_REQ_QUEUE * 2

inductive ReqArray
  | r_req
  | w_req
  | other_req_alloc
  deriving DecidableEq, Repr

def ReqArray.size : ReqArray → Nat
  | r_req => R_SIZE
  | w_req => W_SIZE
  | other_req_alloc => O_SIZE

/-- The address of an object. -/
structure ReqPtr where
  array : ReqArray
  i : Nat
  deriving DecidableEq, Repr

/-- The fields that the functions read or write. `cid` is that of `scmd`. -/
structure ReqObj where
  type : Nat
  index : Nat
  req_stage : Nat
  sqid : Nat
  cid : Nat
  deriving DecidableEq, Repr

/-- A `queue_t` of objects. A null pointer is `none`. -/
abbrev ReqQueue := RingBuffer (Option ReqPtr)

/-- `none`: the queue is full. -/
def ReqQueue.enQueue (queue : ReqQueue) (item_ptr : ReqPtr) : Option ReqQueue :=
  if queue.head = (queue.tail + 1) % queue.size then none else some (queue.push (some item_ptr))

/-- The pointer is null when the queue is empty. -/
def ReqQueue.deQueue (queue : ReqQueue) : Option ReqPtr × ReqQueue :=
  if queue.head = queue.tail then (none, queue) else (queue.objs queue.head, queue.pop)

/-- The objects of the three arrays, with `free_r_req_objs`, `free_w_req_objs` and
`free_req_objs`. -/
structure ReqMem where
  objs : ReqPtr → ReqObj
  free : ReqArray → ReqQueue

namespace ReqMem

/-- The memory before `init_req_obj`: the sizes of the queues are set, all else is 0. -/
def zeroed : ReqMem where
  objs _ := ⟨0, 0, 0, 0, 0⟩
  free a := ⟨0, 0, a.size, fun _ => none⟩

variable (m : ReqMem)

def setObj (x : ReqPtr) (obj : ReqObj) : ReqMem := { m with objs := Function.update m.objs x obj }

def setFree (a : ReqArray) (queue : ReqQueue) : ReqMem :=
  { m with free := Function.update m.free a queue }

/-- One of the loops of `init_req_obj`, from object `i`, for the turns that are left. It ends
when the queue is full. The objects of the third array have no type yet. -/
def initLoop (a : ReqArray) (type : Option Nat) (m : ReqMem) (i : Nat) : Nat → ReqMem
  | 0 => m
  | n + 1 =>
    match ReqQueue.enQueue (m.free a) ⟨a, i⟩ with
    | none => m
    | some queue =>
      let req := m.objs ⟨a, i⟩
      let m := (m.setFree a queue).setObj ⟨a, i⟩
        { req with type := type.getD req.type, index := i + 1, req_stage := REQ_STAGE_FREE }
      initLoop a type m (i + 1) n

/-- A queue is full before the loop has gone over its array. -/
def init_req_obj : ReqMem :=
  let m := m.initLoop .r_req (some READ_IO_REQUEST) 0 R_SIZE
  let m := m.initLoop .w_req (some WRITE_IO_REQUEST) 0 W_SIZE
  m.initLoop .other_req_alloc none 0 O_SIZE

end ReqMem

/-- The array of a type: the switch of `sys_malloc_req_obj` and of `sys_free_req_obj`. -/
def arrayOf (type : Nat) : Option ReqArray :=
  if type = READ_IO_REQUEST then some .r_req
  else if type = WRITE_IO_REQUEST then some .w_req
  else if type ∈ [ADMIN_REQUEST, FLUSH_IO_REQUEST, ISP_IO_REQUEST, ISP_READ_PAGES_REQUEST,
      ISP_PROGRAM_PAGES_REQUEST, ISP_HOST_DMA_REQUEST, TRIM_IO_REQUEST] then
    some .other_req_alloc
  else none

namespace ReqMem

variable (m : ReqMem)

/-- The outer `none`: the write of `req_stage` goes through a null pointer. Only the third
array takes the type of the call. -/
def sys_malloc_req_obj (req_type : Nat) : Option (Option ReqPtr × ReqMem) :=
  match arrayOf req_type with
  | none => some (none, m)
  | some a =>
    match ReqQueue.deQueue (m.free a) with
    | (none, _) => none
    | (some req, queue) =>
      let obj := m.objs req
      let type := if a = .other_req_alloc then req_type else obj.type
      some (some req,
        (m.setFree a queue).setObj req { obj with type, req_stage := REQ_STAGE_INUSE })

/-- The result of `enQueue` is not looked at. A type that is none of the nine frees nothing. -/
def sys_free_req_obj (req_obj : ReqPtr) : ReqMem :=
  match arrayOf (m.objs req_obj).type with
  | none => m
  | some a =>
    (m.setFree a ((ReqQueue.enQueue (m.free a) req_obj).getD (m.free a))).setObj req_obj
      { m.objs req_obj with req_stage := REQ_STAGE_FREE }

end ReqMem

/-! ## Runs of the pools -/

/-- The memory, with the objects that are allocated. -/
structure ReqState where
  memory : ReqMem
  allocated : List ReqPtr

/-- An allocation, a free, or writes of the owner of an object. -/
inductive ReqAction
  | malloc (req_type : Nat)
  | free (req_obj : ReqPtr)
  | update (req_obj : ReqPtr) (obj : ReqObj)
  deriving DecidableEq, Repr

def bootedReqs : ReqState := ⟨ReqMem.zeroed.init_req_obj, []⟩

/-- What the owner of an object writes. It keeps the type, except that the ISP driver uses one
object for reads and programs. It never sets the stage of a free object. -/
def OwnerWrites (old new : ReqObj) : Prop :=
  new.index = old.index ∧ new.req_stage ≠ REQ_STAGE_FREE ∧
    (new.type = old.type ∨ (old.type ∈ [ISP_READ_PAGES_REQUEST, ISP_PROGRAM_PAGES_REQUEST] ∧
      new.type ∈ [ISP_READ_PAGES_REQUEST, ISP_PROGRAM_PAGES_REQUEST]))

instance (old new : ReqObj) : Decidable (OwnerWrites old new) := by
  unfold OwnerWrites
  infer_instance

/-- One call, or the writes of an owner. `none`: an allocation finds no object, or the object
is not allocated. -/
def reqStep (s : ReqState) : ReqAction → Option ReqState
  | .malloc req_type => (s.memory.sys_malloc_req_obj req_type).map fun (req, memory) =>
    ⟨memory, s.allocated ++ req.toList⟩
  | .free req_obj =>
    if req_obj ∈ s.allocated then
      some ⟨s.memory.sys_free_req_obj req_obj, s.allocated.erase req_obj⟩
    else none
  | .update req_obj obj =>
    if req_obj ∈ s.allocated ∧ OwnerWrites (s.memory.objs req_obj) obj then
      some { s with memory := s.memory.setObj req_obj obj }
    else none

/-- The allocated objects of an array. -/
def ReqState.outstanding (s : ReqState) (a : ReqArray) : List ReqPtr :=
  s.allocated.filter fun x => x.array = a

/-- The call does what the pools are for. -/
def ReqRight (s : ReqState) : ReqAction → Prop
  | .malloc req_type => ∀ a, arrayOf req_type = some a →
    if (s.memory.free a).head = (s.memory.free a).tail then
      s.memory.sys_malloc_req_obj req_type = some (none, s.memory)
    else ∃ req memory, s.memory.sys_malloc_req_obj req_type = some (some req, memory) ∧
      (memory.objs req).type = req_type ∧ req.array = a ∧ req ∉ s.allocated
  | .free req_obj => req_obj ∈ s.allocated →
    ((s.memory.sys_free_req_obj req_obj).free req_obj.array).contents.count (some req_obj) = 1 ∧
      ∀ a ≠ req_obj.array, (s.memory.sys_free_req_obj req_obj).free a = s.memory.free a
  | .update .. => True

/-- An allocation finds fewer objects of its array allocated than its queue takes. -/
def HasRoom (s : ReqState) : ReqAction → Prop
  | .malloc req_type => ∀ a, arrayOf req_type = some a → (s.outstanding a).length < a.size - 1
  | _ => True

/-! ## The memory after init_req_obj -/

variable {m : ReqMem} {a b : ReqArray} {type : Option Nat} {x : ReqPtr} {i n t : Nat}
  {s s' : ReqState} {free : List ReqPtr}

/-- The objects that the queue of an array takes. -/
def objectsOf (a : ReqArray) : List ReqPtr := (List.range (a.size - 1)).map fun i => ⟨a, i⟩

theorem mem_objectsOf : x ∈ objectsOf a ↔ x.array = a ∧ x.i < a.size - 1 := by
  obtain ⟨b, i⟩ := x
  simp only [objectsOf, List.mem_map, List.mem_range, ReqPtr.mk.injEq]
  constructor
  · rintro ⟨j, hj, rfl, rfl⟩
    exact ⟨rfl, hj⟩
  · rintro ⟨rfl, hi⟩
    exact ⟨i, hi, rfl, rfl⟩

theorem nodup_objectsOf (a : ReqArray) : (objectsOf a).Nodup :=
  List.nodup_range.map fun _ _ h => (ReqPtr.mk.inj h).2

@[simp] theorem length_objectsOf (a : ReqArray) : (objectsOf a).length = a.size - 1 := by
  simp [objectsOf]

/-- One turn of a loop of `init_req_obj`: the queue is full, or it takes the object. -/
theorem initLoop_succ (a : ReqArray) (type : Option Nat) (m : ReqMem) (i n : Nat) :
    m.initLoop a type i (n + 1) =
      if (m.free a).head = ((m.free a).tail + 1) % (m.free a).size then m
      else ReqMem.initLoop a type ((m.setFree a ((m.free a).push (some ⟨a, i⟩))).setObj ⟨a, i⟩
        ⟨type.getD (m.objs ⟨a, i⟩).type, i + 1, REQ_STAGE_FREE, (m.objs ⟨a, i⟩).sqid,
          (m.objs ⟨a, i⟩).cid⟩) (i + 1) n := by
  by_cases hfull : (m.free a).head = ((m.free a).tail + 1) % (m.free a).size
  · have hqueue : ReqQueue.enQueue (m.free a) ⟨a, i⟩ = none := if_pos hfull
    simp only [ReqMem.initLoop, hqueue, if_pos hfull]
  · have hqueue : ReqQueue.enQueue (m.free a) ⟨a, i⟩ = some ((m.free a).push (some ⟨a, i⟩)) :=
      if_neg hfull
    simp only [ReqMem.initLoop, hqueue, if_neg hfull]

/-- A loop leaves the other arrays. -/
theorem initLoop_other (hab : b ≠ a) :
    (m.initLoop a type i n).free b = m.free b ∧
      ∀ j, (m.initLoop a type i n).objs ⟨b, j⟩ = m.objs ⟨b, j⟩ := by
  induction n generalizing m i with
  | zero => exact ⟨rfl, fun _ => rfl⟩
  | succ n ih =>
    rw [initLoop_succ]
    split
    · exact ⟨rfl, fun _ => rfl⟩
    · refine ⟨ih.1.trans (Function.update_of_ne hab ..), fun j => (ih.2 j).trans ?_⟩
      exact Function.update_of_ne (by simp [hab]) ..

/-- A loop without a type leaves the types. -/
theorem initLoop_none : ((m.initLoop a none i n).objs x).type = (m.objs x).type := by
  induction n generalizing m i with
  | zero => rfl
  | succ n ih =>
    rw [initLoop_succ]
    split
    · rfl
    · rw [ih]
      by_cases hx : x = ⟨a, i⟩
      · simp [ReqMem.setObj, hx]
      · simp [ReqMem.setObj, ReqMem.setFree, Function.update_of_ne hx]

/-- The objects below `i` have the type of their array. -/
def TypedBelow (m : ReqMem) (a : ReqArray) (t i : Nat) : Prop := ∀ j < i, (m.objs ⟨a, j⟩).type = t

/-- A loop fills its queue with all objects of its array but the last. -/
theorem initLoop_fills (type : Option Nat) (hsize : (m.free a).size = a.size)
    (hring : (m.free a).Holds ((List.range i).map fun j => some ⟨a, j⟩)) (hn : a.size ≤ i + n) :
    ((m.initLoop a type i n).free a).size = a.size ∧
      ((m.initLoop a type i n).free a).Holds ((objectsOf a).map some) ∧
      ∀ t, type = some t → TypedBelow m a t i →
        TypedBelow (m.initLoop a type i n) a t (a.size - 1) := by
  have hlen := hring.1
  have hfull := hring.full_iff
  rw [List.length_map, List.length_range] at hlen hfull
  rw [hsize] at hlen
  induction n generalizing m i with
  | zero => omega
  | succ n ih =>
    rw [initLoop_succ]
    split
    · rename_i hh
      obtain rfl : i = a.size - 1 := by
        have := hfull.mp hh
        omega
      refine ⟨hsize, ?_, fun t _ ht => ht⟩
      rwa [objectsOf, List.map_map]
    · rename_i hh
      have hroom : i + 1 < a.size := by
        have : i + 1 ≠ (m.free a).size := fun he => hh (hfull.mpr he)
        omega
      have hpush := hring.push (x := some ⟨a, i⟩)
        (by rw [List.length_map, List.length_range, hsize]; exact hroom)
      rw [show (List.range i).map (fun j => some (⟨a, j⟩ : ReqPtr)) ++ [some ⟨a, i⟩] =
        (List.range (i + 1)).map fun j => some ⟨a, j⟩ by simp [List.range_succ]] at hpush
      have htype : ∀ t, type = some t → type.getD (m.objs ⟨a, i⟩).type = t := by
        rintro t rfl
        rfl
      generalize type.getD (m.objs ⟨a, i⟩).type = typ at htype ⊢
      generalize hm : (m.setFree a ((m.free a).push (some ⟨a, i⟩))).setObj ⟨a, i⟩
        ⟨typ, i + 1, REQ_STAGE_FREE, (m.objs ⟨a, i⟩).sqid, (m.objs ⟨a, i⟩).cid⟩ = m'
      have hfree : m'.free a = (m.free a).push (some ⟨a, i⟩) := by
        rw [← hm]
        exact Function.update_self ..
      rw [← hfree] at hpush
      have hfull' := hpush.full_iff
      rw [List.length_map, List.length_range] at hfull'
      have hsize' : (m'.free a).size = a.size := by
        rw [hfree]
        exact hsize
      obtain ⟨hsize'', hring', htyped⟩ := ih hsize' hpush (by omega) hroom hfull'
      refine ⟨hsize'', hring', fun t ht hbelow => htyped t ht fun j hj => ?_⟩
      rw [← hm]
      rcases Nat.lt_succ_iff_lt_or_eq.mp hj with hlt | rfl
      · have hne : (⟨a, j⟩ : ReqPtr) ≠ ⟨a, i⟩ := by simp; omega
        exact (congrArg ReqObj.type (Function.update_of_ne hne ..)).trans (hbelow j hlt)
      · exact (congrArg ReqObj.type (Function.update_self ..)).trans (htype t ht)

theorem zeroed_holds (a : ReqArray) :
    (ReqMem.zeroed.free a).Holds ((List.range 0).map fun j => some ⟨a, j⟩) := by
  have hpos : 0 < a.size := by cases a <;> decide
  exact holds_nil hpos hpos rfl

/-! ## The invariant -/

/-- The objects of an array are a pool, and the queue holds the free ones. -/
structure ReqPool (a : ReqArray) (s : ReqState) (free : List ReqPtr) : Prop where
  size : (s.memory.free a).size = a.size
  ring : (s.memory.free a).Holds (free.map some)
  pool : Pool (objectsOf a) free (s.outstanding a)

/-- The type of each object is one of its array. Those of the third array get their type
when they are allocated. -/
structure ReqTypes (s : ReqState) : Prop where
  r_req : TypedBelow s.memory .r_req READ_IO_REQUEST (R_SIZE - 1)
  w_req : TypedBelow s.memory .w_req WRITE_IO_REQUEST (W_SIZE - 1)
  other : ∀ i, (s.memory.objs ⟨.other_req_alloc, i⟩).type ∉ [READ_IO_REQUEST, WRITE_IO_REQUEST]
  allocated : ∀ x ∈ s.allocated, arrayOf (s.memory.objs x).type = some x.array

structure ReqPools (s : ReqState) : Prop extends ReqTypes s where
  pools : ∀ a, ∃ free, ReqPool a s free

/-- A loop that starts with the queue as it was at first fills it. -/
theorem initLoop_first (m : ReqMem) (a : ReqArray) (type : Option Nat)
    (hfree : m.free a = ReqMem.zeroed.free a) :
    ((m.initLoop a type 0 a.size).free a).size = a.size ∧
      ((m.initLoop a type 0 a.size).free a).Holds ((objectsOf a).map some) ∧
      ∀ t, type = some t → TypedBelow (m.initLoop a type 0 a.size) a t (a.size - 1) := by
  have hring : (m.free a).Holds ((List.range 0).map fun j => some ⟨a, j⟩) := by
    rw [hfree]
    exact zeroed_holds a
  obtain ⟨hsize, hholds, htyped⟩ :=
    initLoop_fills type (by rw [hfree]; rfl) hring (Nat.le_add_left ..)
  exact ⟨hsize, hholds, fun t ht => htyped t ht nofun⟩

theorem reqPools_booted : ReqPools bootedReqs := by
  obtain ⟨m1, hm1⟩ : ∃ m1, m1 = ReqMem.zeroed.initLoop .r_req (some READ_IO_REQUEST) 0
    (ReqArray.size .r_req) := ⟨_, rfl⟩
  obtain ⟨m2, hm2⟩ : ∃ m2, m2 = m1.initLoop .w_req (some WRITE_IO_REQUEST) 0
    (ReqArray.size .w_req) := ⟨_, rfl⟩
  obtain ⟨m3, hm3⟩ : ∃ m3, m3 = m2.initLoop .other_req_alloc none 0
    (ReqArray.size .other_req_alloc) := ⟨_, rfl⟩
  have hm : bootedReqs.memory = m3 := by
    simp only [hm3, hm2, hm1, bootedReqs, ReqMem.init_req_obj, ReqArray.size]
  -- What each loop leaves of the arrays of the others.
  have h1 : ∀ b, b ≠ .r_req → m1.free b = ReqMem.zeroed.free b ∧
      ∀ i, m1.objs ⟨b, i⟩ = ReqMem.zeroed.objs ⟨b, i⟩ := by
    rw [hm1]
    exact fun b hb => initLoop_other hb
  have h2 : ∀ b, b ≠ .w_req → m2.free b = m1.free b ∧ ∀ i, m2.objs ⟨b, i⟩ = m1.objs ⟨b, i⟩ := by
    rw [hm2]
    exact fun b hb => initLoop_other hb
  have h3 : ∀ b, b ≠ .other_req_alloc → m3.free b = m2.free b ∧
      ∀ i, m3.objs ⟨b, i⟩ = m2.objs ⟨b, i⟩ := by
    rw [hm3]
    exact fun b hb => initLoop_other hb
  have hr := initLoop_first ReqMem.zeroed .r_req (some READ_IO_REQUEST) rfl
  have hw := initLoop_first m1 .w_req (some WRITE_IO_REQUEST) (h1 .w_req nofun).1
  have ho := initLoop_first m2 .other_req_alloc none
    ((h2 .other_req_alloc nofun).1.trans (h1 .other_req_alloc nofun).1)
  rw [← hm1] at hr
  rw [← hm2] at hw
  rw [← hm3] at ho
  have hpool : ∀ a, (m3.free a).size = a.size → (m3.free a).Holds ((objectsOf a).map some) →
      ReqPool a bootedReqs (objectsOf a) :=
    fun a hsize hholds => ⟨by rw [hm, hsize], by rwa [hm], pool_full (nodup_objectsOf a)⟩
  have hr3 : m3.free .r_req = m1.free .r_req := (h3 .r_req nofun).1.trans (h2 .r_req nofun).1
  have hw3 : m3.free .w_req = m2.free .w_req := (h3 .w_req nofun).1
  refine ⟨⟨fun j hj => ?_, fun j hj => ?_, fun j => ?_, nofun⟩, fun a => ⟨objectsOf a, ?_⟩⟩
  · rw [hm, (h3 .r_req nofun).2, (h2 .r_req nofun).2]
    exact hr.2.2 _ rfl j hj
  · rw [hm, (h3 .w_req nofun).2]
    exact hw.2.2 _ rfl j hj
  · rw [hm, hm3, initLoop_none, (h2 .other_req_alloc nofun).2, (h1 .other_req_alloc nofun).2]
    exact show 0 ∉ [READ_IO_REQUEST, WRITE_IO_REQUEST] by decide
  · cases a with
    | r_req => exact hpool _ (hr3 ▸ hr.1) (hr3 ▸ hr.2.1)
    | w_req => exact hpool _ (hw3 ▸ hw.1) (hw3 ▸ hw.2.1)
    | other_req_alloc => exact hpool _ ho.1 ho.2.1

theorem arrayOf_other :
    arrayOf t = some .other_req_alloc → t ∉ [READ_IO_REQUEST, WRITE_IO_REQUEST] := by
  unfold arrayOf
  intro h
  split at h
  · cases h
  · rename_i hr
    split at h
    · cases h
    · rename_i hw
      simp [hr, hw]

/-! ## The steps -/

theorem ReqPool.length (h : ReqPool a s free) :
    free.length + (s.outstanding a).length = a.size - 1 := by
  rw [h.pool.length, length_objectsOf]

theorem malloc_nil (h : ReqPool a s []) (ht : arrayOf t = some a) :
    s.memory.sys_malloc_req_obj t = none := by
  have hempty : (s.memory.free a).head = (s.memory.free a).tail := h.ring.empty_iff.mpr rfl
  simp [ReqMem.sys_malloc_req_obj, ht, ReqQueue.deQueue, hempty]

theorem malloc_cons (h : ReqPool a s (x :: free)) (ht : arrayOf t = some a) :
    s.memory.sys_malloc_req_obj t = some (some x,
      (s.memory.setFree a (s.memory.free a).pop).setObj x
        { s.memory.objs x with
          type := if a = .other_req_alloc then t else (s.memory.objs x).type
          req_stage := REQ_STAGE_INUSE }) := by
  have hempty : (s.memory.free a).head ≠ (s.memory.free a).tail := fun he => by
    simpa using h.ring.empty_iff.mp he
  have hhead : (s.memory.free a).objs (s.memory.free a).head = some x := h.ring.head_eq
  simp only [ReqMem.sys_malloc_req_obj, ht, ReqQueue.deQueue, if_neg hempty, hhead]

theorem ReqPools.fixed_type (h : ReqPools s) (hx : x ∈ objectsOf a) (ha : a ≠ .other_req_alloc)
    (ht : arrayOf t = some a) : (s.memory.objs x).type = t := by
  obtain ⟨b, i⟩ := x
  obtain ⟨rfl, hi⟩ := mem_objectsOf.mp hx
  unfold arrayOf at ht
  split at ht
  · rename_i he
    cases ht
    exact (h.r_req i hi).trans he.symm
  · split at ht
    · rename_i he
      cases ht
      exact (h.w_req i hi).trans he.symm
    · split at ht
      · cases ht
        exact absurd rfl ha
      · cases ht

theorem outstanding_snoc : ReqState.outstanding ⟨m, s.allocated ++ [x]⟩ b =
    s.outstanding b ++ if x.array = b then [x] else [] := by
  unfold ReqState.outstanding
  rw [List.filter_append]
  by_cases h : x.array = b <;> simp [h]

theorem outstanding_erase : ReqState.outstanding ⟨m, s.allocated.erase x⟩ b =
    if x.array = b then (s.outstanding b).erase x else s.outstanding b := by
  unfold ReqState.outstanding
  rw [← List.erase_filter]
  split
  · rfl
  · rename_i hb
    exact List.erase_of_not_mem fun hmem => hb (by simpa using (List.mem_filter.mp hmem).2)

/-- The state after an allocation that finds the object `x`. -/
theorem ReqPools.malloc (h : ReqPools s) (hpool : ReqPool a s (x :: free))
    (ht : arrayOf t = some a) :
    ReqRight s (.malloc t) ∧ ∀ s', reqStep s (.malloc t) = some s' → ReqPools s' := by
  have hx := hpool.pool.mem_of_free List.mem_cons_self
  obtain ⟨harray, hi⟩ := mem_objectsOf.mp hx
  have hmalloc := malloc_cons hpool ht
  generalize hm : (s.memory.setFree a (s.memory.free a).pop).setObj x
    { s.memory.objs x with
      type := if a = .other_req_alloc then t else (s.memory.objs x).type
      req_stage := REQ_STAGE_INUSE } = m at hmalloc
  have htype : (m.objs x).type = t := by
    rw [← hm]
    simp only [ReqMem.setObj, Function.update_self]
    split
    · rfl
    · rename_i ha
      exact h.fixed_type hx ha ht
  have hobjs : ∀ y, y ≠ x → m.objs y = s.memory.objs y := by
    intro y hy
    rw [← hm]
    exact Function.update_of_ne hy ..
  have hnew : x ∉ s.allocated := fun hmem =>
    hpool.pool.not_taken List.mem_cons_self (List.mem_filter.mpr ⟨hmem, by simpa using harray⟩)
  constructor
  · intro b hb
    obtain rfl := Option.some.inj (ht.symm.trans hb)
    have hempty : (s.memory.free a).head ≠ (s.memory.free a).tail := fun he => by
      simpa using hpool.ring.empty_iff.mp he
    rw [if_neg hempty]
    exact ⟨x, m, hmalloc, htype, harray, hnew⟩
  · intro s' hs
    simp only [reqStep, hmalloc, Option.map_some, Option.some.injEq, Option.toList_some] at hs
    subst hs
    have hkeep : ∀ y : ReqPtr, y.array ≠ .other_req_alloc →
        (m.objs y).type = (s.memory.objs y).type := by
      intro y hy
      by_cases hyx : y = x
      · subst hyx
        rw [← hm]
        simp [ReqMem.setObj, ← harray, hy]
      · rw [hobjs y hyx]
    refine ⟨⟨fun j hj => ?_, fun j hj => ?_, fun j => ?_, fun y hy => ?_⟩, fun b => ?_⟩
    · rw [hkeep ⟨.r_req, j⟩ nofun]
      exact h.r_req j hj
    · rw [hkeep ⟨.w_req, j⟩ nofun]
      exact h.w_req j hj
    · by_cases hyx : (⟨.other_req_alloc, j⟩ : ReqPtr) = x
      · rw [hyx, htype]
        have ha : a = .other_req_alloc := by rw [← harray, ← hyx]
        exact arrayOf_other (ha ▸ ht)
      · rw [hobjs _ hyx]
        exact h.other j
    · rcases List.mem_append.mp hy with hold | hlast
      · have hyx : y ≠ x := fun he => hnew (he ▸ hold)
        rw [hobjs y hyx]
        exact h.allocated y hold
      · rw [List.mem_singleton.mp hlast, htype, ht, harray]
    · by_cases hb : b = a
      · subst hb
        have hfree : m.free b = (s.memory.free b).pop := by
          rw [← hm]
          exact Function.update_self ..
        refine ⟨free, ?_, ?_, ?_⟩
        · rw [hfree]
          exact hpool.size
        · rw [hfree]
          exact hpool.ring.pop
        · rw [outstanding_snoc, if_pos harray]
          exact hpool.pool.take
      · obtain ⟨l, hl⟩ := h.pools b
        have hfree : m.free b = s.memory.free b := by
          rw [← hm]
          exact Function.update_of_ne hb ..
        refine ⟨l, ?_, ?_, ?_⟩
        · rw [hfree]
          exact hl.size
        · rw [hfree]
          exact hl.ring
        · rw [outstanding_snoc, if_neg (by rw [harray]; exact Ne.symm hb), List.append_nil]
          exact hl.pool

/-- A freed object is the last one of the queue of its array. -/
theorem ReqPools.free_obj (h : ReqPools s) (hx : x ∈ s.allocated) :
    ReqRight s (.free x) ∧
      ReqPools ⟨s.memory.sys_free_req_obj x, s.allocated.erase x⟩ := by
  obtain ⟨l, hpool⟩ := h.pools x.array
  have hout : x ∈ s.outstanding x.array := List.mem_filter.mpr ⟨hx, by simp⟩
  have hroom : l.length + 1 < (s.memory.free x.array).size := by
    have hlen := hpool.length
    have hpos := List.length_pos_of_mem hout
    rw [hpool.size]
    omega
  have hqueue : ReqQueue.enQueue (s.memory.free x.array) x =
      some ((s.memory.free x.array).push (some x)) := by
    refine if_neg fun hfull => ?_
    have := hpool.ring.full_iff.mp hfull
    rw [List.length_map] at this
    omega
  have hfree : s.memory.sys_free_req_obj x =
      (s.memory.setFree x.array ((s.memory.free x.array).push (some x))).setObj x
        { s.memory.objs x with req_stage := REQ_STAGE_FREE } := by
    simp [ReqMem.sys_free_req_obj, h.allocated x hx, hqueue]
  have hself : (s.memory.sys_free_req_obj x).free x.array =
      (s.memory.free x.array).push (some x) := by
    rw [hfree]
    exact Function.update_self ..
  have hother : ∀ a ≠ x.array, (s.memory.sys_free_req_obj x).free a = s.memory.free a := by
    intro a ha
    rw [hfree]
    exact Function.update_of_ne ha ..
  have htype : ∀ y, ((s.memory.sys_free_req_obj x).objs y).type = (s.memory.objs y).type := by
    intro y
    rw [hfree]
    by_cases hy : y = x
    · subst hy
      simp [ReqMem.setObj]
    · exact congrArg ReqObj.type (Function.update_of_ne hy ..)
  have hring := hpool.ring.push (x := some x) (by rwa [List.length_map])
  have hmap : l.map some ++ [some x] = (l ++ [x]).map some := by simp
  rw [hmap] at hring
  have hgive := hpool.pool.give hout
  constructor
  · intro _
    refine ⟨?_, hother⟩
    rw [hself, hring.contents_eq]
    refine List.count_eq_one_of_mem ?_ (List.mem_map.mpr ⟨x, by simp, rfl⟩)
    exact hgive.places_nodup.of_append_left.map (Option.some_injective _)
  · refine ⟨⟨fun j hj => ?_, fun j hj => ?_, fun j => ?_, fun y hy => ?_⟩, fun b => ?_⟩
    · rw [htype]
      exact h.r_req j hj
    · rw [htype]
      exact h.w_req j hj
    · rw [htype]
      exact h.other j
    · rw [htype]
      exact h.allocated y (List.mem_of_mem_erase hy)
    · by_cases hb : b = x.array
      · subst hb
        refine ⟨l ++ [x], ?_, ?_, ?_⟩
        · rw [hself]
          exact hpool.size
        · rw [hself]
          exact hring
        · rw [outstanding_erase, if_pos rfl]
          exact hgive
      · obtain ⟨k, hk⟩ := h.pools b
        refine ⟨k, ?_, ?_, ?_⟩
        · rw [hother b hb]
          exact hk.size
        · rw [hother b hb]
          exact hk.ring
        · rw [outstanding_erase, if_neg (Ne.symm hb)]
          exact hk.pool

/-- What an owner writes leaves the arrays of the types. -/
theorem OwnerWrites.arrayOf {old new : ReqObj} (h : OwnerWrites old new) :
    arrayOf new.type = arrayOf old.type ∧
      (old.type ∉ [READ_IO_REQUEST, WRITE_IO_REQUEST] →
        new.type ∉ [READ_IO_REQUEST, WRITE_IO_REQUEST]) ∧
      (old.type ∈ [READ_IO_REQUEST, WRITE_IO_REQUEST] → new.type = old.type) := by
  rcases h.2.2 with he | ⟨hold, hnew⟩
  · rw [he]
    exact ⟨rfl, id, fun _ => rfl⟩
  · simp only [List.mem_cons, List.not_mem_nil, or_false] at hold hnew
    rcases hold with hold | hold <;> rcases hnew with hnew | hnew <;> rw [hold, hnew] <;> decide

theorem ReqPools.update {obj : ReqObj} (h : ReqPools s)
    (hw : OwnerWrites (s.memory.objs x) obj) :
    ReqPools { s with memory := s.memory.setObj x obj } := by
  obtain ⟨harray, hother, hfixed⟩ := hw.arrayOf
  have hkeep : ∀ y, y ≠ x → (s.memory.setObj x obj).objs y = s.memory.objs y :=
    fun y hy => Function.update_of_ne hy ..
  have hself : (s.memory.setObj x obj).objs x = obj := Function.update_self ..
  have htyped : ∀ y, (s.memory.objs y).type ∈ [READ_IO_REQUEST, WRITE_IO_REQUEST] →
      ((s.memory.setObj x obj).objs y).type = (s.memory.objs y).type := by
    intro y hy
    by_cases hyx : y = x
    · rw [hyx] at hy ⊢
      rw [hself, hfixed hy]
    · rw [hkeep y hyx]
  refine ⟨⟨fun j hj => ?_, fun j hj => ?_, fun j => ?_, fun y hy => ?_⟩, fun b => ?_⟩
  · have hold := h.r_req j hj
    exact (htyped _ (by simp [hold])).trans hold
  · have hold := h.w_req j hj
    exact (htyped _ (by simp [hold])).trans hold
  · by_cases hyx : (⟨.other_req_alloc, j⟩ : ReqPtr) = x
    · rw [hyx]
      show ((s.memory.setObj x obj).objs x).type ∉ _
      rw [hself]
      exact hother (hyx ▸ h.other j)
    · show ((s.memory.setObj x obj).objs _).type ∉ _
      rw [hkeep _ hyx]
      exact h.other j
  · show S4Sim.arrayOf ((s.memory.setObj x obj).objs y).type = _
    by_cases hyx : y = x
    · rw [hyx, hself, harray]
      exact hyx ▸ h.allocated y hy
    · rw [hkeep y hyx]
      exact h.allocated y hy
  · obtain ⟨l, hl⟩ := h.pools b
    exact ⟨l, hl.size, hl.ring, hl.pool⟩

theorem ReqPools.step {act : ReqAction} (h : ReqPools s) (hs : reqStep s act = some s') :
    ReqPools s' := by
  cases act with
  | malloc t =>
    cases ht : arrayOf t with
    | none =>
      simp only [reqStep, ReqMem.sys_malloc_req_obj, ht, Option.map_some, Option.some.injEq,
        Option.toList_none, List.append_nil] at hs
      rwa [← hs]
    | some a =>
      obtain ⟨l, hl⟩ := h.pools a
      cases l with
      | nil => simp [reqStep, malloc_nil hl ht] at hs
      | cons x free => exact (h.malloc hl ht).2 s' hs
  | free x =>
    simp only [reqStep, Option.ite_none_right_eq_some, Option.some.injEq] at hs
    obtain ⟨hx, rfl⟩ := hs
    exact (h.free_obj hx).2
  | update x obj =>
    simp only [reqStep, Option.ite_none_right_eq_some, Option.some.injEq] at hs
    obtain ⟨⟨-, hw⟩, rfl⟩ := hs
    exact h.update hw

theorem reqPools_run {acts : List ReqAction} (h : run reqStep bootedReqs acts = some s) :
    ReqPools s :=
  run_keeps (I := ReqPools) (fun _ _ _ ht hs => ht.step hs) reqPools_booted h

/-! ## The law -/

theorem ReqPools.right_iff (h : ReqPools s) (act : ReqAction) : ReqRight s act ↔ HasRoom s act := by
  cases act with
  | malloc t =>
    cases ht : arrayOf t with
    | none => simp [ReqRight, HasRoom, ht]
    | some a =>
      obtain ⟨l, hl⟩ := h.pools a
      have hlen := hl.length
      have hroom : HasRoom s (.malloc t) ↔ (s.outstanding a).length < a.size - 1 := by
        simp [HasRoom, ht]
      rw [hroom]
      cases l with
      | nil =>
        -- The write through the null pointer has no outcome.
        simp [ReqRight, ht, malloc_nil hl ht] at hlen ⊢
        omega
      | cons x free =>
        have hlt : (s.outstanding a).length < a.size - 1 := by
          rw [List.length_cons] at hlen
          omega
        exact ⟨fun _ => hlt, fun _ => (h.malloc hl ht).1⟩
  | free x =>
    refine ⟨fun _ => trivial, fun _ hx => (h.free_obj hx).1 hx⟩
  | update x obj => exact Iff.rfl

/-- The calls of a sequence are right exactly when no allocation finds its queue empty. -/
theorem the_request_pools_are_right_iff_no_allocation_finds_its_queue_empty
    (acts : List ReqAction) :
    AllSteps reqStep ReqRight bootedReqs acts ↔ AllSteps reqStep HasRoom bootedReqs acts :=
  allSteps_iff_of_invariant (I := ReqPools) (fun _ act ht => ht.right_iff act)
    (fun _ _ _ ht hs => ht.step hs) reqPools_booted

/-- While the third array has objects, requests of its types take them one by one. -/
theorem admin_requests (hn : n ≤ O_SIZE - 1) :
    ∃ s, run reqStep bootedReqs (List.replicate n (.malloc ADMIN_REQUEST)) = some s ∧
      (s.outstanding .other_req_alloc).length = n := by
  induction n with
  | zero => exact ⟨_, rfl, rfl⟩
  | succ n ih =>
    obtain ⟨s, hs, hlen⟩ := ih (Nat.le_of_succ_le hn)
    have ht : arrayOf ADMIN_REQUEST = some .other_req_alloc := by decide
    obtain ⟨l, hl⟩ := (reqPools_run hs).pools .other_req_alloc
    have hleft := hl.length
    rw [show ReqArray.size .other_req_alloc = O_SIZE from rfl] at hleft
    obtain ⟨x, free, rfl⟩ := List.exists_cons_of_length_pos (show 0 < l.length by omega)
    obtain ⟨m, hm⟩ : ∃ m, s.memory.sys_malloc_req_obj ADMIN_REQUEST = some (some x, m) :=
      ⟨_, malloc_cons hl ht⟩
    refine ⟨⟨m, s.allocated ++ [x]⟩, ?_, ?_⟩
    · rw [List.replicate_succ']
      exact run_snoc_eq_some.mpr ⟨s, hs, by simp [reqStep, hm]⟩
    · have hx := (mem_objectsOf.mp (hl.pool.mem_of_free List.mem_cons_self)).1
      rw [outstanding_snoc, if_pos hx, List.length_append, hlen, List.length_singleton]

/-- The 128th administration request finds no object, and is written to all the same. -/
theorem an_allocation_from_an_empty_queue_writes_through_a_null_pointer :
    ¬ ∀ acts : List ReqAction, AllSteps reqStep ReqRight bootedReqs acts := by
  intro hall
  obtain ⟨n, hn⟩ : ∃ n, n = O_SIZE - 1 := ⟨_, rfl⟩
  obtain ⟨s, hs, hlen⟩ := admin_requests hn.le
  have hright := (allSteps_snoc.mp (hall (List.replicate n (.malloc ADMIN_REQUEST) ++
    [.malloc ADMIN_REQUEST]))).2 s hs
  have hroom := ((reqPools_run hs).right_iff _).mp hright .other_req_alloc (by decide)
  rw [hlen, hn] at hroom
  exact absurd hroom (Nat.lt_irrefl _)

end S4Sim
