-- The operation objects of the low level NAND driver, from low_level_nand_io.c: two
-- arrays, and a ring of free objects for each. The rings start full and have no test for
-- an empty one. The loop of `init_op_obj` over `pops` writes each address to entry 0.
import S4Sim.Lib.Pool
import S4Sim.Lib.Ring
import S4Sim.Lib.Run

open Pools Rings RingBuffer Runs

namespace S4Sim

def FLASH_READ_OPERATION : Nat := 8

def FLASH_PROGRAM_OPERATION : Nat := 9

def MAX_OPS : Nat := 128

/-- The address of an object: an element of `rops` or of `pops`. -/
inductive OpPtr
  | rop (i : Nat)
  | pop (i : Nat)
  deriving DecidableEq, Repr

/-- The address is inside its array. -/
def OpPtr.InArray : OpPtr → Prop
  | .rop i | .pop i => i < MAX_OPS

/-- The fields of `rop_t` and `pop_t` that the pool writes. -/
structure OpObj where
  type : Nat
  index : Nat

/-- The memory of the pool. A null pointer is `none`. -/
structure OpObjs where
  rops : Nat → OpObj
  pops : Nat → OpObj
  free_rop_objs : RingBuffer (Option OpPtr)
  free_pop_objs : RingBuffer (Option OpPtr)

namespace OpObjs

/-- The memory before `init_op_obj`: all bytes are 0. -/
def zeroed : OpObjs where
  rops _ := ⟨0, 0⟩
  pops _ := ⟨0, 0⟩
  free_rop_objs := ⟨0, 0, 0, fun _ => none⟩
  free_pop_objs := ⟨0, 0, 0, fun _ => none⟩

variable (m : OpObjs)

/-- One turn of the loop over `rops`. -/
def initRop (i : Nat) : OpObjs :=
  { m with
    rops := Function.update m.rops i ⟨FLASH_READ_OPERATION, i + 1⟩
    free_rop_objs := { m.free_rop_objs with
      objs := Function.update m.free_rop_objs.objs i (some (.rop i)) } }

/-- One turn of the loop over `pops`. -/
def initPop (i : Nat) : OpObjs :=
  { m with
    pops := Function.update m.pops i ⟨FLASH_PROGRAM_OPERATION, i + 1⟩
    free_pop_objs := { m.free_pop_objs with
      objs := Function.update m.free_pop_objs.objs 0 (some (.pop i)) } }

def init_op_obj : OpObjs :=
  let m := { m with
    free_rop_objs := { m.free_rop_objs with size := MAX_OPS, tail := 0, head := 0 }
    free_pop_objs := { m.free_pop_objs with size := MAX_OPS } }
  let m := (List.range MAX_OPS).foldl initRop m
  let m := { m with
    free_rop_objs := { m.free_rop_objs with tail := MAX_OPS % MAX_OPS }
    free_pop_objs := { m.free_pop_objs with tail := 0, head := 0 } }
  let m := (List.range MAX_OPS).foldl initPop m
  { m with free_pop_objs := { m.free_pop_objs with tail := MAX_OPS % MAX_OPS } }

def malloc_op_obj (req_type : Nat) : Option OpPtr × OpObjs :=
  if req_type = FLASH_READ_OPERATION then
    (m.free_rop_objs.objs m.free_rop_objs.head, { m with free_rop_objs := m.free_rop_objs.pop })
  else if req_type = FLASH_PROGRAM_OPERATION then
    (m.free_pop_objs.objs m.free_pop_objs.head, { m with free_pop_objs := m.free_pop_objs.pop })
  else (none, m)

/-- `*((uint32_t*)op_obj)` -/
def typeOf : OpPtr → Nat
  | .rop i => (m.rops i).type
  | .pop i => (m.pops i).type

def free_op_obj (op_obj : OpPtr) : OpObjs :=
  let type := m.typeOf op_obj
  if type = FLASH_READ_OPERATION then
    { m with free_rop_objs := m.free_rop_objs.push (some op_obj) }
  else if type = FLASH_PROGRAM_OPERATION then
    { m with free_pop_objs := m.free_pop_objs.push (some op_obj) }
  else m

/-- What the allocation after `n` others of the type returns. -/
def nth_malloc (req_type : Nat) (m : OpObjs) : Nat → Option OpPtr
  | 0 => (m.malloc_op_obj req_type).1
  | n + 1 => nth_malloc req_type (m.malloc_op_obj req_type).2 n

end OpObjs

/-! ## Runs of the pool -/

/-- The memory, with the objects that are allocated. -/
structure OpPool where
  memory : OpObjs
  allocated : List OpPtr

inductive OpAction
  | malloc (req_type : Nat)
  | free (op_obj : OpPtr)
  deriving DecidableEq, Repr

def bootedPool : OpPool := ⟨OpObjs.zeroed.init_op_obj, []⟩

/-- The allocated objects of a type. -/
def OpPool.outstanding (s : OpPool) (req_type : Nat) : List OpPtr :=
  s.allocated.filter fun op => s.memory.typeOf op = req_type

/-- One call. `none`: the type is not one of the two, `MAX_OPS` of its objects are allocated,
or the object is not. -/
def opStep (s : OpPool) : OpAction → Option OpPool
  | .malloc req_type =>
    if req_type ∈ [FLASH_READ_OPERATION, FLASH_PROGRAM_OPERATION] ∧
        (s.outstanding req_type).length < MAX_OPS then
      let (op, memory) := s.memory.malloc_op_obj req_type
      some ⟨memory, s.allocated ++ op.toList⟩
    else none
  | .free op_obj =>
    if op_obj ∈ s.allocated then
      some ⟨s.memory.free_op_obj op_obj, s.allocated.erase op_obj⟩
    else none

/-- One of the next `MAX_OPS` allocations of its type returns the object. -/
def Available (m : OpObjs) (op_obj : OpPtr) : Prop :=
  ∃ n < MAX_OPS, m.nth_malloc (m.typeOf op_obj) n = some op_obj

/-- The call does what a pool of `MAX_OPS` objects a type does. -/
def OpRight (s : OpPool) : OpAction → Prop
  | .malloc req_type =>
    ∃ op, (s.memory.malloc_op_obj req_type).1 = some op ∧ op.InArray ∧
      s.memory.typeOf op = req_type ∧ op ∉ s.allocated
  | .free op_obj => Available (s.memory.free_op_obj op_obj) op_obj

/-! ## The memory after init_op_obj -/

variable {m : OpObjs} {s s' : OpPool} {op : OpPtr} {n i : Nat}

theorem foldl_initRop (m : OpObjs) (n : Nat) :
    (List.range n).foldl OpObjs.initRop m =
      { m with
        rops := fun i => if i < n then ⟨FLASH_READ_OPERATION, i + 1⟩ else m.rops i
        free_rop_objs := { m.free_rop_objs with
          objs := fun i => if i < n then some (.rop i) else m.free_rop_objs.objs i } } := by
  induction n with
  | zero => simp
  | succ n ih =>
    rw [List.range_succ, List.foldl_append, ih]
    simp only [List.foldl_cons, List.foldl_nil, OpObjs.initRop, OpObjs.mk.injEq,
      RingBuffer.mk.injEq, true_and, and_true]
    constructor <;>
    · funext i
      by_cases hi : i = n
      · subst hi
        simp
      · have hiff : i < n + 1 ↔ i < n := by omega
        simp [Function.update_of_ne hi, hiff]

/-- Each turn writes the same entry, and the last address stays. -/
theorem foldl_initPop (m : OpObjs) (n : Nat) :
    (List.range (n + 1)).foldl OpObjs.initPop m =
      { m with
        pops := fun i => if i < n + 1 then ⟨FLASH_PROGRAM_OPERATION, i + 1⟩ else m.pops i
        free_pop_objs := { m.free_pop_objs with
          objs := Function.update m.free_pop_objs.objs 0 (some (.pop n)) } } := by
  induction n with
  | zero =>
    rw [Nat.zero_add, List.range_one]
    simp only [List.foldl_cons, List.foldl_nil, OpObjs.initPop, OpObjs.mk.injEq, true_and, and_true]
    funext i
    by_cases hi : i = 0
    · subst hi
      simp
    · simp [hi]
  | succ n ih =>
    rw [List.range_succ, List.foldl_append, ih]
    simp only [List.foldl_cons, List.foldl_nil, OpObjs.initPop, OpObjs.mk.injEq,
      Function.update_idem, true_and, and_true]
    funext i
    by_cases hi : i = n + 1
    · subst hi
      simp
    · have hiff : i < n + 1 + 1 ↔ i < n + 1 := by omega
      simp [Function.update_of_ne hi, hiff]

theorem init_op_obj_eq : OpObjs.zeroed.init_op_obj =
    { rops := fun i => if i < MAX_OPS then ⟨FLASH_READ_OPERATION, i + 1⟩ else ⟨0, 0⟩
      pops := fun i => if i < MAX_OPS then ⟨FLASH_PROGRAM_OPERATION, i + 1⟩ else ⟨0, 0⟩
      free_rop_objs := ⟨0, 0, MAX_OPS, fun i => if i < MAX_OPS then some (.rop i) else none⟩
      free_pop_objs := ⟨0, 0, MAX_OPS, Function.update (fun _ => none) 0 (some (.pop 127))⟩ } := by
  unfold OpObjs.init_op_obj
  have hsucc : MAX_OPS = 127 + 1 := rfl
  simp only [foldl_initRop, Nat.mod_self]
  rw [hsucc, foldl_initPop]
  rfl

/-! ## Read operations -/

def OpPtr.isRop : OpPtr → Bool
  | rop _ => true
  | pop _ => false

def allRops : List OpPtr := (List.range MAX_OPS).map .rop

theorem allRops_length : allRops.length = MAX_OPS := by
  rw [allRops, List.length_map, List.length_range]

theorem nodup_allRops : allRops.Nodup :=
  List.nodup_range.map fun _ _ h => OpPtr.rop.inj h

theorem mem_allRops : op ∈ allRops ↔ ∃ i < MAX_OPS, op = .rop i := by
  simp [allRops, eq_comm]

/-- The read objects are a pool, and the ring holds the free ones. -/
structure ReadPool (s : OpPool) (free : List OpPtr) : Prop where
  types : ∀ i < MAX_OPS, (s.memory.rops i).type = FLASH_READ_OPERATION
  size : s.memory.free_rop_objs.size = MAX_OPS
  ring : s.memory.free_rop_objs.Stores (free.map some)
  pool : Pool allRops free (s.allocated.filter OpPtr.isRop)

theorem readPool_booted : ReadPool bootedPool allRops := by
  have hmemory : bootedPool.memory = OpObjs.zeroed.init_op_obj := rfl
  refine ⟨fun i hi => ?_, ?_, ?_, pool_full nodup_allRops⟩
  · rw [hmemory, init_op_obj_eq]
    simp [hi]
  · rw [hmemory, init_op_obj_eq]
  · rw [hmemory, init_op_obj_eq]
    refine ⟨by simp [allRops], by decide, by simp [allRops], fun i hi => ?_⟩
    have hi : i < MAX_OPS := by simpa [allRops] using hi
    simp [allRops, Nat.mod_eq_of_lt hi, hi]

/-- Allocations take the free objects in order. -/
theorem nth_malloc_read {free : List OpPtr} {n : Nat}
    (h : m.free_rop_objs.Stores (free.map some)) (hn : n < free.length) :
    m.nth_malloc FLASH_READ_OPERATION n = some free[n] := by
  induction n generalizing m free with
  | zero =>
    obtain ⟨x, rest, rfl⟩ := List.exists_cons_of_length_pos hn
    exact h.head_eq
  | succ n ih =>
    obtain ⟨x, rest, rfl⟩ := List.exists_cons_of_length_pos (Nat.zero_lt_of_lt hn)
    exact ih (m := (m.malloc_op_obj FLASH_READ_OPERATION).2) h.pop (Nat.lt_of_succ_lt_succ hn)

theorem opStep_malloc {req_type : Nat} (h : opStep s (.malloc req_type) = some s') :
    req_type ∈ [FLASH_READ_OPERATION, FLASH_PROGRAM_OPERATION] ∧
      (s.outstanding req_type).length < MAX_OPS ∧
      s' = ⟨(s.memory.malloc_op_obj req_type).2,
        s.allocated ++ (s.memory.malloc_op_obj req_type).1.toList⟩ := by
  simp only [opStep, Option.ite_none_right_eq_some, Option.some.injEq] at h
  obtain ⟨⟨htype, hlen⟩, rfl⟩ := h
  exact ⟨htype, hlen, rfl⟩

theorem opStep_free (h : opStep s (.free op) = some s') :
    op ∈ s.allocated ∧ s' = ⟨s.memory.free_op_obj op, s.allocated.erase op⟩ := by
  simp only [opStep, Option.ite_none_right_eq_some, Option.some.injEq] at h
  exact ⟨h.1, h.2.symm⟩

theorem ReadPool.typeOf {free : List OpPtr} (h : ReadPool s free) (hop : op ∈ allRops) :
    s.memory.typeOf op = FLASH_READ_OPERATION := by
  obtain ⟨i, hi, rfl⟩ := mem_allRops.mp hop
  exact h.types i hi

/-- The pool depends on the ring and the array of the read objects, and on those allocated. -/
theorem ReadPool.congr {free : List OpPtr} (h : ReadPool s free)
    (hrops : s'.memory.rops = s.memory.rops)
    (hring : s'.memory.free_rop_objs = s.memory.free_rop_objs)
    (halloc : s'.allocated.filter OpPtr.isRop = s.allocated.filter OpPtr.isRop) :
    ReadPool s' free := by
  refine ⟨?_, ?_, ?_, ?_⟩
  · rw [hrops]
    exact h.types
  · rw [hring]
    exact h.size
  · rw [hring]
    exact h.ring
  · rw [halloc]
    exact h.pool

/-- Allocating a read object takes the first one that is free. -/
theorem ReadPool.malloc {free : List OpPtr} (h : ReadPool s free)
    (hout : (s.allocated.filter OpPtr.isRop).length < MAX_OPS) :
    OpRight s (.malloc FLASH_READ_OPERATION) ∧
      (∃ free', ReadPool ⟨(s.memory.malloc_op_obj FLASH_READ_OPERATION).2,
        s.allocated ++ (s.memory.malloc_op_obj FLASH_READ_OPERATION).1.toList⟩ free') ∧
      ∃ i, (s.memory.malloc_op_obj FLASH_READ_OPERATION).1 = some (.rop i) := by
  have hlen := h.pool.length
  rw [allRops_length] at hlen
  obtain ⟨x, rest, rfl⟩ := List.exists_cons_of_length_pos (show 0 < free.length by omega)
  have hx : x ∈ allRops := h.pool.mem_of_free List.mem_cons_self
  obtain ⟨i, hi, rfl⟩ := mem_allRops.mp hx
  have hmalloc : s.memory.malloc_op_obj FLASH_READ_OPERATION =
      (some (.rop i), { s.memory with free_rop_objs := s.memory.free_rop_objs.pop }) := by
    unfold OpObjs.malloc_op_obj
    rw [if_pos rfl, h.ring.head_eq]
  refine ⟨?_, ?_, i, by rw [hmalloc]⟩
  · refine ⟨.rop i, by rw [hmalloc], hi, h.typeOf hx, fun hmem => ?_⟩
    exact h.pool.not_taken List.mem_cons_self (List.mem_filter.mpr ⟨hmem, rfl⟩)
  · rw [hmalloc]
    refine ⟨rest, h.types, h.size, h.ring.pop, ?_⟩
    simp only [Option.toList_some, List.filter_append]
    exact h.pool.take

/-- A read object that is freed is the last one of the ring. -/
theorem ReadPool.free_op {free : List OpPtr} (h : ReadPool s free) (hmem : op ∈ s.allocated)
    (hrop : op.isRop = true) :
    OpRight s (.free op) ∧
      (∃ free', ReadPool ⟨s.memory.free_op_obj op, s.allocated.erase op⟩ free') ∧
      (s.memory.free_op_obj op).free_pop_objs = s.memory.free_pop_objs ∧
      (s.memory.free_op_obj op).pops = s.memory.pops := by
  have htaken : op ∈ s.allocated.filter OpPtr.isRop := List.mem_filter.mpr ⟨hmem, hrop⟩
  have htype := h.typeOf (h.pool.mem_of_taken htaken)
  have hfree : s.memory.free_op_obj op =
      { s.memory with free_rop_objs := s.memory.free_rop_objs.push (some op) } := by
    unfold OpObjs.free_op_obj
    rw [if_pos htype]
  have hroom : free.length < MAX_OPS := by
    have hlen := h.pool.length
    have hpos := List.length_pos_of_mem htaken
    rw [allRops_length] at hlen
    omega
  have hring : (s.memory.free_rop_objs.push (some op)).Stores ((free ++ [op]).map some) := by
    rw [List.map_append]
    exact h.ring.push (by rw [List.length_map, h.size]; exact hroom)
  refine ⟨⟨free.length, hroom, ?_⟩, ⟨free ++ [op], ?_, ?_, ?_, ?_⟩, ?_, ?_⟩
  · have hsame : (s.memory.free_op_obj op).typeOf op = FLASH_READ_OPERATION := by
      rw [hfree]
      exact htype
    have hlast : free.length < (free ++ [op]).length := by simp
    rw [hsame, hfree, nth_malloc_read hring hlast]
    simp
  · rw [hfree]
    exact h.types
  · rw [hfree]
    exact h.size
  · rw [hfree]
    exact hring
  · rw [← List.erase_filter]
    exact h.pool.give htaken
  · rw [hfree]
  · rw [hfree]

/-! ## Program operations -/

/-- The one program object that the ring gets. -/
def lastPop : OpPtr := .pop 127

theorem lastPop_inArray : lastPop.InArray := show 127 < MAX_OPS by decide

/-- Where this object is after `n` allocations: in entry 0 of the ring, or allocated. The
other entries are null. -/
inductive ProgramAt : Nat → RingBuffer (Option OpPtr) → List OpPtr → Prop
  | fresh {objs : Nat → Option OpPtr} (h : objs 0 = some lastPop) (hnull : objs 1 = none) :
    ProgramAt 0 ⟨0, 0, MAX_OPS, objs⟩ []
  | taken {objs : Nat → Option OpPtr} (hnull : objs 1 = none) :
    ProgramAt 1 ⟨1, 0, MAX_OPS, objs⟩ [lastPop]
  | returned {objs : Nat → Option OpPtr} (h : objs 0 = some lastPop) (hnull : objs 1 = none) :
    ProgramAt 1 ⟨1, 1, MAX_OPS, objs⟩ []

def OpPool.allocatedPops (s : OpPool) : List OpPtr := s.allocated.filter fun op => !op.isRop

/-- The pools after at most one allocation of a program object. -/
structure PoolsAt (n : Nat) (s : OpPool) : Prop where
  reads : ∃ free, ReadPool s free
  types : (s.memory.pops 127).type = FLASH_PROGRAM_OPERATION
  place : ProgramAt n s.memory.free_pop_objs s.allocatedPops

theorem poolsAt_booted : PoolsAt 0 bootedPool := by
  have hmemory : bootedPool.memory = OpObjs.zeroed.init_op_obj := rfl
  refine ⟨⟨allRops, readPool_booted⟩, ?_, ?_⟩
  · rw [hmemory, init_op_obj_eq]
    rfl
  · rw [hmemory, init_op_obj_eq]
    exact .fresh rfl rfl

theorem ProgramAt.mem {ring : RingBuffer (Option OpPtr)} {ops : List OpPtr}
    (h : ProgramAt n ring ops) (hop : op ∈ ops) : op = lastPop := by
  cases h with
  | fresh => cases hop
  | taken => exact List.mem_singleton.mp hop
  | returned => cases hop

theorem PoolsAt.outstanding_read (h : PoolsAt n s) :
    s.outstanding FLASH_READ_OPERATION = s.allocated.filter OpPtr.isRop := by
  obtain ⟨free, hread⟩ := h.reads
  refine List.filter_congr fun op hop => ?_
  cases op with
  | rop i =>
    have hmem : OpPtr.rop i ∈ allRops := hread.pool.mem_of_taken (List.mem_filter.mpr ⟨hop, rfl⟩)
    simp [hread.typeOf hmem, OpPtr.isRop]
  | pop i =>
    have hlast := h.place.mem (List.mem_filter.mpr ⟨hop, rfl⟩)
    rw [hlast, show s.memory.typeOf lastPop = FLASH_PROGRAM_OPERATION from h.types]
    rfl

theorem malloc_program (m : OpObjs) : m.malloc_op_obj FLASH_PROGRAM_OPERATION =
    (m.free_pop_objs.objs m.free_pop_objs.head, { m with free_pop_objs := m.free_pop_objs.pop }) :=
  rfl

theorem nth_malloc_program (h : m.free_pop_objs.head < m.free_pop_objs.size) :
    m.nth_malloc FLASH_PROGRAM_OPERATION n =
      m.free_pop_objs.objs ((m.free_pop_objs.head + n) % m.free_pop_objs.size) := by
  induction n generalizing m with
  | zero =>
    rw [Nat.add_zero, Nat.mod_eq_of_lt h]
    rfl
  | succ n ih =>
    have hnext := ih (m := (m.malloc_op_obj FLASH_PROGRAM_OPERATION).2) (wrap_lt (by omega))
    rw [← wrap_step]
    exact hnext

/-- The first allocation of a program object returns the last object. -/
theorem PoolsAt.first_program (h : PoolsAt 0 s) :
    OpRight s (.malloc FLASH_PROGRAM_OPERATION) ∧
      PoolsAt 1 ⟨(s.memory.malloc_op_obj FLASH_PROGRAM_OPERATION).2,
        s.allocated ++ (s.memory.malloc_op_obj FLASH_PROGRAM_OPERATION).1.toList⟩ := by
  obtain ⟨⟨free, hread⟩, htypes, hplace⟩ := h
  rw [malloc_program]
  generalize hring : s.memory.free_pop_objs = ring at hplace ⊢
  generalize hpops : s.allocatedPops = ops at hplace
  cases hplace with
  | @fresh objs hlast hnull =>
    simp only [hlast, Option.toList_some]
    refine ⟨⟨lastPop, by rw [malloc_program, hring]; exact hlast, lastPop_inArray, htypes, ?_⟩,
      ⟨free, hread.congr rfl rfl ?_⟩, htypes, ?_⟩
    · intro hmem
      have : lastPop ∈ s.allocatedPops := List.mem_filter.mpr ⟨hmem, rfl⟩
      rw [hpops] at this
      cases this
    · simp [lastPop, OpPtr.isRop]
    · have hone : OpPool.allocatedPops
          ⟨{ s.memory with free_pop_objs := RingBuffer.pop ⟨0, 0, MAX_OPS, objs⟩ },
            s.allocated ++ [lastPop]⟩ = [lastPop] := by
        have hold : s.allocated.filter (fun op => !op.isRop) = [] := hpops
        simp only [OpPool.allocatedPops, List.filter_append, hold]
        rfl
      rw [hone]
      exact .taken hnull

/-- The second one returns a null pointer. -/
theorem PoolsAt.second_program (h : PoolsAt 1 s) :
    ¬ OpRight s (.malloc FLASH_PROGRAM_OPERATION) := by
  rintro ⟨op, hop, -⟩
  have hplace := h.place
  rw [malloc_program] at hop
  generalize s.memory.free_pop_objs = ring at hplace hop
  generalize s.allocatedPops = ops at hplace
  cases hplace with
  | taken hnull => exact absurd (hnull.symm.trans hop) nofun
  | returned hlast hnull => exact absurd (hnull.symm.trans hop) nofun

/-- The program object that is freed goes back to entry 0. -/
theorem PoolsAt.free_program (h : PoolsAt n s) (hmem : op ∈ s.allocated)
    (hpop : op.isRop = false) :
    OpRight s (.free op) ∧ PoolsAt n ⟨s.memory.free_op_obj op, s.allocated.erase op⟩ := by
  obtain ⟨⟨free, hread⟩, htypes, hplace⟩ := h
  have hin : op ∈ s.allocatedPops := List.mem_filter.mpr ⟨hmem, by simp [hpop]⟩
  obtain rfl := hplace.mem hin
  have hfree : s.memory.free_op_obj lastPop =
      { s.memory with free_pop_objs := s.memory.free_pop_objs.push (some lastPop) } := by
    unfold OpObjs.free_op_obj
    rw [show s.memory.typeOf lastPop = FLASH_PROGRAM_OPERATION from htypes]
    rfl
  have hreads : (s.allocated.erase lastPop).filter OpPtr.isRop =
      s.allocated.filter OpPtr.isRop := by
    rw [← List.erase_filter]
    exact List.erase_of_not_mem fun hmem => by simp [lastPop, OpPtr.isRop] at hmem
  have hpops : OpPool.allocatedPops ⟨s.memory.free_op_obj lastPop, s.allocated.erase lastPop⟩ =
      s.allocatedPops.erase lastPop := (List.erase_filter ..).symm
  have hread' : ReadPool ⟨s.memory.free_op_obj lastPop, s.allocated.erase lastPop⟩ free :=
    hread.congr (by rw [hfree]) (by rw [hfree]) hreads
  have htypes' : ((s.memory.free_op_obj lastPop).pops 127).type = FLASH_PROGRAM_OPERATION := by
    rw [hfree]
    exact htypes
  generalize hring : s.memory.free_pop_objs = ring at hplace hfree
  generalize s.allocatedPops = ops at hplace hin hpops
  cases hplace with
  | fresh => cases hin
  | returned => cases hin
  | @taken objs hnull =>
    have hentry : (RingBuffer.push ⟨1, 0, MAX_OPS, objs⟩ (some lastPop)).objs 0 = some lastPop :=
      show Function.update objs 0 (some lastPop) 0 = some lastPop from Function.update_self ..
    constructor
    · -- The ring goes round the null pointers before it comes to entry 0.
      refine ⟨127, by decide, ?_⟩
      have hpush : (s.memory.free_op_obj lastPop).free_pop_objs =
          ⟨1, 1, MAX_OPS, Function.update objs 0 (some lastPop)⟩ := by
        rw [hfree]
        rfl
      rw [show OpObjs.typeOf _ lastPop = FLASH_PROGRAM_OPERATION from htypes',
        nth_malloc_program (by rw [hpush]; exact show 1 < MAX_OPS by decide), hpush]
      simp [MAX_OPS]
    · refine ⟨⟨free, hread'⟩, htypes', ?_⟩
      rw [hpops, hfree]
      exact .returned hentry hnull

/-! ## The law -/

/-- A step that allocates no second program object is right. -/
theorem PoolsAt.step {a : OpAction} (h : PoolsAt n s) (hs : opStep s a = some s')
    (hn : n + [a].count (.malloc FLASH_PROGRAM_OPERATION) ≤ 1) :
    OpRight s a ∧ PoolsAt (n + [a].count (.malloc FLASH_PROGRAM_OPERATION)) s' := by
  cases a with
  | malloc req_type =>
    obtain ⟨htype, hlen, rfl⟩ := opStep_malloc hs
    simp only [List.mem_cons, List.not_mem_nil, or_false] at htype
    rcases htype with rfl | rfl
    · obtain ⟨free, hread⟩ := h.reads
      rw [h.outstanding_read] at hlen
      obtain ⟨hright, hnext, i, hop⟩ := hread.malloc hlen
      have hpops : OpPool.allocatedPops ⟨(s.memory.malloc_op_obj FLASH_READ_OPERATION).2,
          s.allocated ++ (s.memory.malloc_op_obj FLASH_READ_OPERATION).1.toList⟩ =
          s.allocatedPops := by
        simp [OpPool.allocatedPops, hop, OpPtr.isRop]
      refine ⟨hright, hnext, h.types, ?_⟩
      rw [hpops]
      exact h.place
    · obtain rfl : n = 0 := by simpa using hn
      exact h.first_program
  | free op =>
    obtain ⟨hmem, rfl⟩ := opStep_free hs
    have hzero : [OpAction.free op].count (.malloc FLASH_PROGRAM_OPERATION) = 0 := rfl
    rw [hzero]
    cases hrop : op.isRop with
    | false => exact h.free_program hmem hrop
    | true =>
      obtain ⟨free, hread⟩ := h.reads
      obtain ⟨hright, hnext, hring, hpops⟩ := hread.free_op hmem hrop
      refine ⟨hright, hnext, ?_, ?_⟩
      · rw [hpops]
        exact h.types
      · have hsame : OpPool.allocatedPops ⟨s.memory.free_op_obj op, s.allocated.erase op⟩ =
            s.allocatedPops := by
          unfold OpPool.allocatedPops
          rw [← List.erase_filter]
          exact List.erase_of_not_mem fun hmem => by simp [hrop] at hmem
        rw [hring, hsame]
        exact h.place

theorem poolsAt_run {acts : List OpAction} (h : run opStep bootedPool acts = some s)
    (hn : acts.count (.malloc FLASH_PROGRAM_OPERATION) ≤ 1) :
    PoolsAt (acts.count (.malloc FLASH_PROGRAM_OPERATION)) s := by
  refine run_invariant (I := fun acts s => acts.count (.malloc FLASH_PROGRAM_OPERATION) ≤ 1 →
    PoolsAt (acts.count (.malloc FLASH_PROGRAM_OPERATION)) s) (fun _ => poolsAt_booted) ?_ h hn
  intro acts t a u _ ht ha hn
  rw [List.count_append] at hn ⊢
  exact ((ht (by omega)).step ha hn).2

/-- The pools are right in a run exactly when it allocates a program object at most once. -/
theorem the_operation_pools_are_right_iff_a_program_takes_one_object {acts : List OpAction}
    (h : run opStep bootedPool acts = some s) :
    AllSteps opStep OpRight bootedPool acts ↔
      acts.count (.malloc FLASH_PROGRAM_OPERATION) ≤ 1 := by
  induction acts using List.reverseRecOn generalizing s with
  | nil => simp [AllSteps]
  | append_singleton acts a ih =>
    obtain ⟨t, ht, ha⟩ := run_snoc_eq_some.mp h
    have hlast : (∀ u, run opStep bootedPool acts = some u → OpRight u a) ↔ OpRight t a := by
      simp [ht]
    rw [allSteps_snoc, ih ht, hlast, List.count_append]
    constructor
    · rintro ⟨hn, hright⟩
      by_contra hmore
      -- The step is the second allocation of a program object.
      obtain rfl : a = .malloc FLASH_PROGRAM_OPERATION := by
        by_contra hne
        have hzero : [a].count (.malloc FLASH_PROGRAM_OPERATION) = 0 := by simp [hne]
        omega
      have hone : acts.count (.malloc FLASH_PROGRAM_OPERATION) = 1 := by
        simp only [List.count_singleton_self] at hmore
        omega
      have hpools := poolsAt_run ht hn
      rw [hone] at hpools
      exact hpools.second_program hright
    · intro hn
      exact ⟨by omega, ((poolsAt_run ht (by omega)).step ha hn).1⟩

/-- The law for an allocation and a free of each type. -/
theorem the_operation_pools_are_right_for_one_operation_a_type :
    AllSteps opStep OpRight bootedPool
      [.malloc FLASH_READ_OPERATION, .free (.rop 0), .malloc FLASH_PROGRAM_OPERATION,
        .free (.pop 127)] := by
  have hrun : ∃ s, run opStep bootedPool [.malloc FLASH_READ_OPERATION, .free (.rop 0),
      .malloc FLASH_PROGRAM_OPERATION, .free (.pop 127)] = some s :=
    Option.isSome_iff_exists.mp (by decide +kernel)
  obtain ⟨s, hs⟩ := hrun
  exact (the_operation_pools_are_right_iff_a_program_takes_one_object hs).mpr (by decide)

/-- The second program operation gets a null pointer. -/
theorem the_second_program_operation_gets_no_object :
    ¬ ∀ (acts : List OpAction) (s : OpPool), run opStep bootedPool acts = some s →
      AllSteps opStep OpRight bootedPool acts := by
  intro hall
  have hrun : ∃ s, run opStep bootedPool (List.replicate 2 (.malloc FLASH_PROGRAM_OPERATION)) =
      some s := Option.isSome_iff_exists.mp (by decide +kernel)
  obtain ⟨s, hs⟩ := hrun
  obtain ⟨-, hsecond⟩ := hall _ s hs
  obtain ⟨⟨op, hop, -⟩, -⟩ := hsecond _ rfl
  have hnull : ((bootedPool.memory.malloc_op_obj FLASH_PROGRAM_OPERATION).2.malloc_op_obj
      FLASH_PROGRAM_OPERATION).1 = none := by decide +kernel
  exact absurd (hnull.symm.trans hop) nofun

end S4Sim
