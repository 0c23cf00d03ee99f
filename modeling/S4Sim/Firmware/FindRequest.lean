-- The search for the request of an Abort command, from issd_kernel_mem_alloc.c and
-- nvme_driver.c. A freed object keeps its identifiers, and the search does not look at
-- the stage, so it may find the object of a command that is over. The error text of the
-- Abort handler reads the object that was found, also when there is none.
import S4Sim.Firmware.RequestObjects
import S4Sim.Firmware.State

open Runs

namespace S4Sim

/-! ## The search -/

namespace ReqMem

variable (m : ReqMem) (sqid cid : Nat)

def hasIds (x : ReqPtr) : Bool := (m.objs x).sqid == sqid && (m.objs x).cid == cid

/-- The test of a turn. The third array also has objects without identifiers. -/
def matchesIds (x : ReqPtr) : Bool :=
  match x.array with
  | .other_req_alloc =>
    (m.objs x).type ∈ [FLUSH_IO_REQUEST, ISP_IO_REQUEST, TRIM_IO_REQUEST] && m.hasIds sqid cid x
  | _ => m.hasIds sqid cid x

/-- The objects of an array, the last one included. -/
def allObjects (a : ReqArray) : List ReqPtr := (List.range a.size).map fun i => ⟨a, i⟩

/-- The loop over one array. -/
def find_in (a : ReqArray) : Option ReqPtr := (allObjects a).find? (m.matchesIds sqid cid)

/-- `none` is a null pointer. -/
def sys_find_io_request : Option ReqPtr :=
  match m.find_in sqid cid .r_req with
  | some x => some x
  | none =>
    match m.find_in sqid cid .w_req with
    | some x => some x
    | none => m.find_in sqid cid .other_req_alloc

/-- The two words of dword 10 of an Abort command. -/
def abortSqid (scmd : NvmeSCmd) : Nat := scmd.cdw10.toNat % 2 ^ 16

def abortCid (scmd : NvmeSCmd) : Nat := scmd.cdw10.toNat / 2 ^ 16

/-- `nvme_adort_cmd` with the memory of the objects. -/
def nvme_adort_cmd (env : Env) (req : Req) (d : Driver) : Option Driver :=
  S4Sim.nvme_adort_cmd
    { env with
      found := (m.sys_find_io_request (abortSqid req.scmd) (abortCid req.scmd)).isSome } req d

end ReqMem

/-! ## What the search is for -/

section Right

variable (m : ReqMem) (sqid cid : Nat)

/-- The object is that of an I/O command under way. -/
def InUseIo (x : ReqPtr) : Prop :=
  (m.objs x).req_stage ≠ REQ_STAGE_FREE ∧ (m.objs x).type ∈ [READ_IO_REQUEST, WRITE_IO_REQUEST,
    FLUSH_IO_REQUEST, TRIM_IO_REQUEST, ISP_IO_REQUEST]

instance (x : ReqPtr) : Decidable (InUseIo m x) := by
  unfold InUseIo
  infer_instance

/-- The objects in the order of the search. -/
def searched : List ReqPtr :=
  ReqMem.allObjects .r_req ++ ReqMem.allObjects .w_req ++ ReqMem.allObjects .other_req_alloc

/-- The search returns the request in use with the identifiers, if there is one. -/
def FindsInUse : Prop :=
  match m.sys_find_io_request sqid cid with
  | some x => InUseIo m x ∧ m.hasIds sqid cid x = true
  | none => ∀ x ∈ searched, InUseIo m x → m.hasIds sqid cid x = false

/-- An Abort command with the identifiers is completed. -/
def AbortCompletes : Prop :=
  ∀ (env : Env) (req : Req) (d : Driver), ReqMem.abortSqid req.scmd = sqid →
    ReqMem.abortCid req.scmd = cid → m.nvme_adort_cmd env req d = d.enqueue_admin_ccmd req

/-- A request in use has the identifiers, and no object before it in the search has them
from a command that is over. -/
def FirstIsInUse : Prop :=
  ∃ early x late, searched = early ++ x :: late ∧ m.matchesIds sqid cid x = true ∧ InUseIo m x ∧
    ∀ y ∈ early, m.matchesIds sqid cid y = true → InUseIo m y

/-- No Abort command can name the identifiers, and no object has them. -/
def NamedByNone : Prop :=
  ¬ (sqid < 2 ^ 16 ∧ cid < 2 ^ 16) ∧ ∀ x ∈ searched, m.matchesIds sqid cid x = false

end Right

variable {m : ReqMem} {sqid cid : Nat} {x : ReqPtr} {s : ReqState}

theorem sys_find_io_request_eq (m : ReqMem) (sqid cid : Nat) :
    m.sys_find_io_request sqid cid = searched.find? (m.matchesIds sqid cid) := by
  unfold ReqMem.sys_find_io_request ReqMem.find_in searched
  rw [List.find?_append, List.find?_append]
  cases (ReqMem.allObjects .r_req).find? (m.matchesIds sqid cid) with
  | some x => rfl
  | none =>
    cases (ReqMem.allObjects .w_req).find? (m.matchesIds sqid cid) with
    | some x => rfl
    | none => rfl

theorem hasIds_of_matches (h : m.matchesIds sqid cid x = true) : m.hasIds sqid cid x = true := by
  unfold ReqMem.matchesIds at h
  split at h
  · exact (Bool.and_eq_true_iff.mp h).2
  · exact h

/-- A request in use with the identifiers passes the test: the third array has no READ and no
WRITE. -/
theorem ReqTypes.matches_of_inUse (h : ReqTypes s) (hx : InUseIo s.memory x)
    (hids : s.memory.hasIds sqid cid x = true) : s.memory.matchesIds sqid cid x = true := by
  obtain ⟨a, i⟩ := x
  unfold ReqMem.matchesIds
  cases a with
  | r_req => exact hids
  | w_req => exact hids
  | other_req_alloc =>
    have hother := h.other i
    have htype := hx.2
    simp only [List.mem_cons, List.not_mem_nil, or_false, not_or] at hother htype
    simp only [List.mem_cons, List.not_mem_nil, or_false, Bool.and_eq_true, decide_eq_true_eq]
    refine ⟨?_, hids⟩
    tauto

/-! ## The law -/

/-- The Abort handler completes when the search finds an object. -/
theorem abort_of_found (h : m.sys_find_io_request sqid cid = some x) :
    AbortCompletes m sqid cid := by
  rintro env req d rfl rfl
  simp [ReqMem.nvme_adort_cmd, S4Sim.nvme_adort_cmd, h]

/-- An admin queue of two entries takes a completion. -/
theorem enqueue_admin_isSome (req : Req) :
    ((initialize_nvme 1 1 0 0).enqueue_admin_ccmd req).isSome = true := rfl

/-- It does not complete when the search finds none and an Abort command can name the ids. -/
theorem not_abort_of_none (h : m.sys_find_io_request sqid cid = none) (hsqid : sqid < 2 ^ 16)
    (hcid : cid < 2 ^ 16) : ¬ AbortCompletes m sqid cid := by
  intro hall
  have hword : sqid + 2 ^ 16 * cid < 2 ^ 32 := by omega
  let scmd : NvmeSCmd := ⟨0x08, 0, 0, 0, 0, 0, UInt32.ofNat (sqid + 2 ^ 16 * cid), 0, 0⟩
  have hcdw10 : scmd.cdw10.toNat = sqid + 2 ^ 16 * cid := Nat.mod_eq_of_lt hword
  have hids : ReqMem.abortSqid scmd = sqid ∧ ReqMem.abortCid scmd = cid := by
    unfold ReqMem.abortSqid ReqMem.abortCid
    rw [hcdw10]
    omega
  let env : Env := ⟨1, 0, 0, scmd, fun _ => 0, none, false, false⟩
  have hcompletes := hall env { zeroReq with scmd } (initialize_nvme 1 1 0 0) hids.1 hids.2
  have hsome := enqueue_admin_isSome { zeroReq with scmd }
  rw [← hcompletes] at hsome
  simp [ReqMem.nvme_adort_cmd, S4Sim.nvme_adort_cmd, hids.1, hids.2, h] at hsome

/-- In every state of the pools, a query for a request and its Abort command are right exactly
when the first object with the identifiers is in use. -/
theorem a_query_is_right_iff_the_first_object_is_in_use {acts : List ReqAction}
    (h : run reqStep bootedReqs acts = some s) (sqid cid : Nat) :
    (FindsInUse s.memory sqid cid ∧ AbortCompletes s.memory sqid cid) ↔
      (FirstIsInUse s.memory sqid cid ∨ NamedByNone s.memory sqid cid) := by
  have htypes := (reqPools_run h).toReqTypes
  have hfind := sys_find_io_request_eq s.memory sqid cid
  unfold FindsInUse
  cases hres : s.memory.sys_find_io_request sqid cid with
  | none =>
    rw [hres] at hfind
    have hnone : ∀ x ∈ searched, s.memory.matchesIds sqid cid x = false := by
      simpa using List.find?_eq_none.mp hfind.symm
    constructor
    · rintro ⟨-, habort⟩
      exact Or.inr ⟨fun ⟨hsqid, hcid⟩ => not_abort_of_none hres hsqid hcid habort, hnone⟩
    · rintro (⟨early, x, late, hsplit, hx, -⟩ | ⟨hwide, -⟩)
      · rw [hnone x (by simp [hsplit])] at hx
        cases hx
      · refine ⟨fun x hx huse => ?_, ?_⟩
        · by_contra hids
          have := htypes.matches_of_inUse huse (Bool.not_eq_false _ ▸ hids)
          rw [hnone x hx] at this
          cases this
        · rintro env req d rfl rfl
          -- The words of a command have 16 bits.
          exact absurd
            ⟨Nat.mod_lt _ (by decide), Nat.div_lt_of_lt_mul req.scmd.cdw10.toNat_lt⟩ hwide
  | some x =>
    rw [hres] at hfind
    obtain ⟨hx, early, late, hsplit, hearly⟩ := List.find?_eq_some_iff_append.mp hfind.symm
    have hearly : ∀ y ∈ early, s.memory.matchesIds sqid cid y = false := by simpa using hearly
    constructor
    · rintro ⟨⟨huse, -⟩, -⟩
      refine Or.inl ⟨early, x, late, hsplit, hx, huse, fun y hy hmatch => ?_⟩
      rw [hearly y hy] at hmatch
      cases hmatch
    · intro hcond
      refine ⟨⟨?_, hasIds_of_matches hx⟩, abort_of_found hres⟩
      rcases hcond with ⟨early', z, late', hsplit', hz, huse, hfirst⟩ | ⟨-, hnone⟩
      · -- The search stops at `z` at the latest.
        rw [hsplit', List.find?_append] at hfind
        cases hw : early'.find? (s.memory.matchesIds sqid cid) with
        | none =>
          rw [hw, List.find?_cons_of_pos hz] at hfind
          cases hfind
          exact huse
        | some w =>
          rw [hw] at hfind
          cases hfind
          exact hfirst x (List.mem_of_find?_eq_some hw) hx
      · rw [hnone x (by simp [hsplit])] at hx
        cases hx

/-- A READ with the ids of no command before it: the first object is in use. -/
theorem a_query_for_the_first_command_is_right :
    ∃ s, run reqStep bootedReqs [.malloc READ_IO_REQUEST,
        .update ⟨.r_req, 0⟩ ⟨READ_IO_REQUEST, 1, REQ_STAGE_INUSE, 1, 5⟩] = some s ∧
      FindsInUse s.memory 1 5 ∧ AbortCompletes s.memory 1 5 := by
  have hrun : (run reqStep bootedReqs [.malloc READ_IO_REQUEST,
      .update ⟨.r_req, 0⟩ ⟨READ_IO_REQUEST, 1, REQ_STAGE_INUSE, 1, 5⟩]).map (fun s =>
      (s.memory.matchesIds 1 5 ⟨.r_req, 0⟩, decide (InUseIo s.memory ⟨.r_req, 0⟩))) =
      some (true, true) := by decide +kernel
  obtain ⟨s, hs, hvals⟩ := Option.map_eq_some_iff.mp hrun
  simp only [Prod.mk.injEq, decide_eq_true_eq] at hvals
  have hsplit : searched = [] ++ ⟨.r_req, 0⟩ :: searched.tail := by decide +kernel
  exact ⟨s, hs, (a_query_is_right_iff_the_first_object_is_in_use hs 1 5).mpr
    (Or.inl ⟨[], _, _, hsplit, hvals.1, hvals.2, nofun⟩)⟩

/-- Two READs with the same ids, the first of them over. -/
def recycledCid : List ReqAction :=
  [.malloc READ_IO_REQUEST, .update ⟨.r_req, 0⟩ ⟨READ_IO_REQUEST, 1, REQ_STAGE_INUSE, 1, 5⟩,
    .free ⟨.r_req, 0⟩, .malloc READ_IO_REQUEST,
    .update ⟨.r_req, 1⟩ ⟨READ_IO_REQUEST, 2, REQ_STAGE_INUSE, 1, 5⟩]

/-- The search finds the object of the command that is over. -/
theorem a_query_finds_the_object_of_a_command_that_is_over :
    ¬ ∀ (acts : List ReqAction) (s : ReqState), run reqStep bootedReqs acts = some s →
      ∀ sqid cid, FindsInUse s.memory sqid cid ∧ AbortCompletes s.memory sqid cid := by
  intro hall
  have hrun : (run reqStep bootedReqs recycledCid).map (fun s =>
      (s.memory.sys_find_io_request 1 5, (s.memory.objs ⟨.r_req, 0⟩).req_stage)) =
      some (some ⟨.r_req, 0⟩, REQ_STAGE_FREE) := by decide +kernel
  obtain ⟨s, hs, hvals⟩ := Option.map_eq_some_iff.mp hrun
  simp only [Prod.mk.injEq] at hvals
  obtain ⟨hfinds, -⟩ := hall recycledCid s hs 1 5
  unfold FindsInUse at hfinds
  rw [hvals.1] at hfinds
  exact hfinds.1.1 hvals.2

end S4Sim
