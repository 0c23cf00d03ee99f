-- The READ of one request by the FTL thread. While the flash has the blocks of the
-- namespace, the FTL zeroes the page buffer for a block that is not mapped and reads the
-- flash page of the others, so at the end of the job the page buffer has the blocks.
import S4Sim.Firmware.WriteBack
import S4Sim.Lib.Blocks
import S4Sim.Lib.Digits

open Digits Windows

namespace S4Sim

variable (c : Config)

/-- The flash has the blocks: a block that is not mapped is zero, and the flash page of the
others has their bytes. -/
structure HasBlocks (t : FtlThread) (blocks : Nat → Nat → UInt8) : Prop where
  zero : ∀ lpn, t.ftl.is_unmapped_lpa lpn = true → ∀ k < c.pageBytes, blocks lpn k = 0
  page : ∀ lpn < c.g.total_num_of_pages, t.ftl.is_unmapped_lpa lpn = false →
    ∀ k < c.pageBytes, t.flash (t.ftl.lpa_table lpn) k = blocks lpn k

/-- The read operation of page `i` of a READ. -/
def readOp (t : FtlThread) (req : Req) (i : Nat) : NandOp :=
  ⟨t.ftl.lpa_table (req.lpn i), false, some (i * c.pageBytes)⟩

/-- Page `i` of the page buffer has its block. -/
def PageLoaded (blocks : Nat → Nat → UInt8) (req : Req) (page_buffer : Nat → UInt8) (i : Nat) :
    Prop :=
  ∀ k < c.pageBytes, page_buffer (i * c.pageBytes + k) = blocks (req.lpn i) k

/-- Of the first `n` pages, those without an operation in `ops` are in the page buffer, and
the flash pages of the operations have the blocks of the others. -/
structure LoadProgress (t : FtlThread) (blocks : Nat → Nat → UInt8) (req : Req)
    (page_buffer : Nat → UInt8) (n : Nat) (ops : List NandOp) : Prop where
  le : n ≤ req.scmd.nlbs + 1
  pending : ∀ op ∈ ops, ∃ i < n, op = readOp c t req i ∧
    ∀ k < c.pageBytes, t.flash op.ppa k = blocks (req.lpn i) k
  done : ∀ i < n, readOp c t req i ∈ ops ∨ PageLoaded c blocks req page_buffer i

section LoadProgress

variable {c} {blocks : Nat → Nat → UInt8} {n k : Nat} {req : Req} {page_buffer : Nat → UInt8}
  {t t' : FtlThread} {ops : List NandOp}

theorem loadProgress_start (t : FtlThread) (blocks : Nat → Nat → UInt8) (req : Req)
    (page_buffer : Nat → UInt8) : LoadProgress c t blocks req page_buffer 0 [] :=
  ⟨Nat.zero_le _, List.forall_mem_nil _, fun i hi => absurd hi (Nat.not_lt_zero i)⟩

theorem LoadProgress.congr (h : LoadProgress c t blocks req page_buffer n ops)
    (hftl : t'.ftl = t.ftl) (hflash : t'.flash = t.flash) :
    LoadProgress c t' blocks req page_buffer n ops := by
  have hop : ∀ i, readOp c t' req i = readOp c t req i := by
    intro i
    rw [readOp, readOp, hftl]
  refine ⟨h.le, fun op hmem => ?_, fun i hi => ?_⟩
  · rw [hflash]
    obtain ⟨i, hi, heq, hbytes⟩ := h.pending op hmem
    exact ⟨i, hi, heq.trans (hop i).symm, hbytes⟩
  · rw [hop]
    exact h.done i hi

/-- A write to the window of one page leaves the other pages of the page buffer. -/
theorem pageLoaded_other {i j : Nat} {bytes : Nat → UInt8} (hne : j ≠ i)
    (h : PageLoaded c blocks req page_buffer j) :
    PageLoaded c blocks req (writeWindow page_buffer (i * c.pageBytes) c.pageBytes bytes) j := by
  intro k hk
  rw [writeWindow_outside (digits_apart hk hne)]
  exact h k hk

theorem pageLoaded_same {i : Nat} {bytes : Nat → UInt8}
    (h : ∀ k < c.pageBytes, bytes k = blocks (req.lpn i) k) :
    PageLoaded c blocks req (writeWindow page_buffer (i * c.pageBytes) c.pageBytes bytes) i := by
  intro k hk
  rw [writeWindow_inside hk]
  exact h k hk

/-- `ftl_process_read_io` zeroes the page of a block that is not mapped. -/
theorem LoadProgress.zero (h : LoadProgress c t blocks req page_buffer n ops)
    (hn : n ≤ req.scmd.nlbs) (hzero : ∀ k < c.pageBytes, blocks (req.lpn n) k = 0) :
    LoadProgress c t blocks req
      (writeWindow page_buffer (n * c.pageBytes) c.pageBytes fun _ => 0) (n + 1) ops := by
  refine ⟨by omega, fun op hmem => ?_, fun i hi => ?_⟩
  · obtain ⟨i, hi, hop⟩ := h.pending op hmem
    exact ⟨i, by omega, hop⟩
  · rcases Nat.lt_succ_iff_lt_or_eq.mp hi with hi | rfl
    · exact (h.done i hi).imp_right (pageLoaded_other (by omega))
    · exact Or.inr (pageLoaded_same fun k hk => (hzero k hk).symm)

/-- It adds a read operation for the others. -/
theorem LoadProgress.add (h : LoadProgress c t blocks req page_buffer n ops)
    (hn : n ≤ req.scmd.nlbs)
    (hpage : ∀ k < c.pageBytes, t.flash (t.ftl.lpa_table (req.lpn n)) k = blocks (req.lpn n) k) :
    LoadProgress c t blocks req page_buffer (n + 1) (ops ++ [readOp c t req n]) := by
  refine ⟨by omega, fun op hmem => ?_, fun i hi => ?_⟩
  · rcases List.mem_append.mp hmem with hmem | hmem
    · obtain ⟨i, hi, hop⟩ := h.pending op hmem
      exact ⟨i, by omega, hop⟩
    · rw [List.mem_singleton.mp hmem]
      exact ⟨n, by omega, rfl, hpage⟩
  · rcases Nat.lt_succ_iff_lt_or_eq.mp hi with hi | rfl
    · exact (h.done i hi).imp_left (List.mem_append_left _)
    · exact Or.inl (by simp)

/-- One of the operations ends. -/
theorem LoadProgress.read (h : LoadProgress c t blocks req page_buffer n ops) (hk : k < ops.length)
    {offset : Nat} (hoffset : ops[k].ssd_addr = some offset) :
    LoadProgress c t blocks req
      (writeWindow page_buffer offset c.pageBytes (t.flash ops[k].ppa)) n (ops.eraseIdx k) := by
  obtain ⟨i, hi, hop, hbytes⟩ := h.pending _ (List.getElem_mem hk)
  rw [hop] at hoffset
  cases hoffset
  refine ⟨h.le, fun op hmem => h.pending op (List.mem_of_mem_eraseIdx hmem), fun j hj => ?_⟩
  by_cases hji : j = i
  · subst hji
    exact Or.inr (pageLoaded_same hbytes)
  · rcases h.done j hj with hmem | hloaded
    · refine Or.inl (mem_eraseIdx_of_ne hk hmem fun he => hji ?_)
      -- The operations of different pages have different places in the page buffer.
      rw [hop] at he
      have hplace : j * c.pageBytes = i * c.pageBytes :=
        Option.some.inj (congrArg NandOp.ssd_addr he)
      exact Nat.eq_of_mul_eq_mul_right (Nat.two_pow_pos _) hplace
    · exact Or.inr (pageLoaded_other hji hloaded)

end LoadProgress

/-! ## The steps of the FTL thread -/

/-- The FTL thread has the READ as its one job: how many of its pages it has gone through, and
the read operations that are left. -/
inductive ReadAt (req : Req) (t : FtlThread) : Nat → List NandOp → Prop
  | queued (hout : t.outq = []) (hpc : t.pc = .idle) (hinq : t.inq = [.read req]) :
    ReadAt req t 0 []
  | looping {n : Nat} {ops : List NandOp} (hout : t.outq = [])
    (hpc : t.pc = .looping (.read req) n ops) (hinq : t.inq = []) : ReadAt req t n ops
  | reading {ops : List NandOp} (hout : t.outq = []) (hpc : t.pc = .waiting (.read req) ops)
    (hinq : t.inq = []) : ReadAt req t (req.scmd.nlbs + 1) ops
  | ended (hout : t.outq = [.read req]) (hpc : t.pc = .idle) (hinq : t.inq = []) :
    ReadAt req t (req.scmd.nlbs + 1) []

/-- The FTL thread is at some step of the READ. -/
def Loading (t : FtlThread) (blocks : Nat → Nat → UInt8) (req : Req)
    (page_buffer : Nat → UInt8) : Prop :=
  ∃ n ops, ReadAt req t n ops ∧ LoadProgress c t blocks req page_buffer n ops

section Steps

variable {c} {blocks : Nat → Nat → UInt8} {pick n : Nat} {applet : Nat → UInt8} {req : Req}
  {s s' : State} {ops : List NandOp}

/-- A turn of the loop of `ftl_process_read_io`. -/
theorem loading_process_read_io (hflash : HasBlocks c s.ftl blocks) (hout : s.ftl.outq = [])
    (hinq : s.ftl.inq = [])
    (hprogress : LoadProgress c s.ftl blocks req s.buf.page_buffer n ops)
    (hs : ftl_process_read_io c req n ops s = some s') :
    Loading c s'.ftl blocks req s'.buf.page_buffer := by
  unfold ftl_process_read_io at hs
  simp only at hs
  split at hs
  · rename_i hn
    split at hs
    · rename_i hlpn
      split at hs
      · rename_i hm
        cases hs
        refine ⟨n + 1, ops, .looping hout rfl hinq, ?_⟩
        exact (hprogress.zero hn (hflash.zero _ hm)).congr rfl rfl
      · rename_i hm
        cases hs
        refine ⟨n + 1, _, .looping hout rfl hinq, ?_⟩
        have hmapped : s.ftl.ftl.is_unmapped_lpa (req.lpn n) = false :=
          Bool.eq_false_of_not_eq_true hm
        exact (hprogress.add hn (hflash.page _ hlpn hmapped)).congr rfl rfl
    · cases hs
  · rename_i hn
    cases hs
    have hall : n = req.scmd.nlbs + 1 := by
      have := hprogress.le
      omega
    subst hall
    exact ⟨_, ops, .reading hout rfl hinq, hprogress.congr rfl rfl⟩

/-- The FTL thread keeps the progress of a READ. -/
theorem Loading.step (h : Loading c s.ftl blocks req s.buf.page_buffer)
    (hflash : HasBlocks c s.ftl blocks) (hs : ftlThreadStep c pick applet s = some s') :
    Loading c s'.ftl blocks req s'.buf.page_buffer := by
  obtain ⟨n, ops, hat, hprogress⟩ := h
  unfold ftlThreadStep at hs
  cases hat with
  | queued hout hpc hinq =>
    simp only [hpc, hinq] at hs
    cases hs
    exact ⟨0, [], .looping hout rfl rfl, hprogress.congr rfl rfl⟩
  | looping hout hpc hinq =>
    simp only [hpc] at hs
    exact loading_process_read_io hflash hout hinq hprogress hs
  | reading hout hpc hinq =>
    cases ops with
    | nil =>
      simp only [hpc] at hs
      cases hs
      refine ⟨_, [], .ended ?_ rfl hinq, hprogress.congr rfl rfl⟩
      simp [endJob, hout]
    | cons op ops =>
      simp only [hpc] at hs
      have hk : pick % (op :: ops).length < (op :: ops).length := Nat.mod_lt _ (by simp)
      obtain ⟨i, hi, hop, hbytes⟩ := hprogress.pending _ (List.getElem_mem hk)
      have hnand : nandOp c applet (readOp c s.ftl req i) s = s.setPageBuffer
          (writeWindow s.buf.page_buffer (i * c.pageBytes) c.pageBytes
            (s.ftl.flash (s.ftl.ftl.lpa_table (req.lpn i)))) := rfl
      rw [List.getD_eq_getElem _ _ hk, hop, hnand] at hs
      cases hs
      have hread := hprogress.read hk (congrArg NandOp.ssd_addr hop)
      rw [hop] at hread
      exact ⟨_, _, .reading hout rfl hinq, hread.congr rfl rfl⟩
  | ended hout hpc hinq =>
    simp only [hpc, hinq] at hs
    cases hs
    exact ⟨_, [], .ended hout hpc hinq, hprogress⟩

/-- When the READ is back in the queue of the NVMe thread, all its pages are in the page
buffer, and the FTL has nothing else to do. -/
theorem Loading.ended {t : FtlThread} {page_buffer : Nat → UInt8} {rest : List FtlJob}
    (h : Loading c t blocks req page_buffer) (hout : t.outq = .read req :: rest) :
    ∀ i ≤ req.scmd.nlbs, PageLoaded c blocks req page_buffer i := by
  obtain ⟨n, ops, hat, hprogress⟩ := h
  cases hat with
  | queued hnone => simp [hout] at hnone
  | looping hnone => simp [hout] at hnone
  | reading hnone => simp [hout] at hnone
  | ended =>
    intro i hi
    rcases hprogress.done i (by omega) with hop | hloaded
    · cases hop
    · exact hloaded

end Steps

end S4Sim
