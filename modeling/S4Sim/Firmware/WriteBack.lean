-- The write-back of one WRITE by the FTL thread. The log of written pages is not in the
-- source: it says what was written last to an LPN. While the FTL maps and programs the
-- pages of a WRITE, the newest pages of the other LPNs stay in the flash.
import S4Sim.Firmware.Moves
import S4Sim.Ftl.MappingTables
import Mathlib.Data.List.GetD
import Mathlib.Data.List.Nodup

open Windows

namespace S4Sim

/-! ## The log of written pages -/

/-- One page of a WRITE, with the bytes of the page buffer at the end of its transfer. -/
structure WrittenPage where
  uid : Nat
  lpn : Nat
  bytes : Nat → UInt8

/-- The LPN of page `i` of a WRITE. -/
def Req.lpn (req : Req) (i : Nat) : Nat := (req.scmd.slba + i) % 2 ^ 32

/-- The last page of each LPN. -/
def newest (log : List WrittenPage) : Nat → Option WrittenPage :=
  updateEach WrittenPage.lpn (fun p _ => some p) (fun _ => none) log

variable (c : Config)

def writtenPage (req : Req) (page_buffer : Nat → UInt8) (i : Nat) : WrittenPage :=
  ⟨req.uid, req.lpn i, fun k => page_buffer (i * c.pageBytes + k)⟩

/-- The pages of a WRITE. -/
def writtenPages (req : Req) (page_buffer : Nat → UInt8) : List WrittenPage :=
  (List.range (req.scmd.nlbs + 1)).map (writtenPage c req page_buffer)

/-- `lpa_table` maps the LPN of the page to a flash page with its bytes. -/
structure InFlash (t : FtlThread) (p : WrittenPage) : Prop where
  lpn : p.lpn < c.g.total_num_of_pages
  mapped : t.ftl.is_unmapped_lpa p.lpn = false
  bytes : ∀ k < c.pageBytes, t.flash (t.ftl.lpa_table p.lpn) k = p.bytes k

/-- The last page of each LPN is in the flash. -/
def AllInFlash (t : FtlThread) (log : List WrittenPage) : Prop :=
  ∀ p, newest log p.lpn = some p → InFlash c t p

section Log

variable {c} {log new early late : List WrittenPage} {p : WrittenPage} {lpn i j : Nat} {req : Req}
  {page_buffer : Nat → UInt8} {t t' : FtlThread}

theorem newest_snoc : newest (log ++ [p]) = Function.update (newest log) p.lpn (some p) :=
  updateEach_snoc

theorem newest_append : newest (log ++ new) =
    updateEach WrittenPage.lpn (fun p _ => some p) (newest log) new := updateEach_append

/-- A page is the last of its LPN, or a later page of the LPN is. -/
theorem newest_from (early late : List WrittenPage) (p : WrittenPage) :
    ∃ p' ∈ p :: late, p'.lpn = p.lpn ∧ newest (early ++ p :: late) p.lpn = some p' := by
  induction late using List.reverseRecOn with
  | nil => exact ⟨p, by simp, rfl, by rw [newest_snoc, Function.update_self]⟩
  | append_singleton late q ih =>
    have hsnoc : early ++ p :: (late ++ [q]) = (early ++ p :: late) ++ [q] := by simp
    rw [hsnoc, newest_snoc]
    by_cases hq : q.lpn = p.lpn
    · refine ⟨q, by simp, hq, ?_⟩
      rw [hq, Function.update_self]
    · obtain ⟨p', hp', hlpn, hnewest⟩ := ih
      refine ⟨p', ?_, hlpn, ?_⟩
      · rw [← List.cons_append]
        exact List.mem_append_left _ hp'
      · rw [Function.update_of_ne (Ne.symm hq)]
        exact hnewest

/-- The pages of one WRITE have different LPNs. -/
theorem Req.lpn_inj (hi : i ≤ req.scmd.nlbs) (hj : j ≤ req.scmd.nlbs) (h : req.lpn i = req.lpn j) :
    i = j := by
  have hlt : req.scmd.nlbs < 2 ^ 16 := Nat.mod_lt _ (by decide)
  unfold Req.lpn at h
  omega

theorem mem_writtenPages : p ∈ writtenPages c req page_buffer ↔
    ∃ i ≤ req.scmd.nlbs, writtenPage c req page_buffer i = p := by
  simp only [writtenPages, List.mem_map, List.mem_range, Nat.lt_succ_iff]

theorem nodup_writtenPages :
    ((writtenPages c req page_buffer).map WrittenPage.lpn).Nodup := by
  rw [writtenPages, List.map_map]
  refine List.Nodup.map_on ?_ List.nodup_range
  intro i hi j hj h
  have hi := List.mem_range.mp hi
  have hj := List.mem_range.mp hj
  exact Req.lpn_inj (Nat.lt_succ_iff.mp hi) (Nat.lt_succ_iff.mp hj) h

/-- After a WRITE, its pages are the newest of their LPNs. -/
theorem newest_written (log : List WrittenPage) (hi : i ≤ req.scmd.nlbs) :
    newest (log ++ writtenPages c req page_buffer) (req.lpn i) =
      some (writtenPage c req page_buffer i) := by
  rw [newest_append]
  exact updateEach_of_mem (f := fun p _ => some p) nodup_writtenPages
    (mem_writtenPages.mpr ⟨i, hi, rfl⟩)

theorem newest_unwritten (log : List WrittenPage)
    (h : ∀ i ≤ req.scmd.nlbs, lpn ≠ req.lpn i) :
    newest (log ++ writtenPages c req page_buffer) lpn = newest log lpn := by
  rw [newest_append]
  refine updateEach_other ?_
  intro hmem
  obtain ⟨p, hp, rfl⟩ := List.mem_map.mp hmem
  obtain ⟨i, hi, rfl⟩ := mem_writtenPages.mp hp
  exact h i hi rfl

theorem InFlash.congr (h : InFlash c t p) (hftl : t'.ftl = t.ftl) (hflash : t'.flash = t.flash) :
    InFlash c t' p := by
  refine ⟨h.lpn, ?_, ?_⟩
  · rw [hftl]
    exact h.mapped
  · rw [hftl, hflash]
    exact h.bytes

theorem AllInFlash.congr (h : AllInFlash c t log) (hftl : t'.ftl = t.ftl)
    (hflash : t'.flash = t.flash) : AllInFlash c t' log :=
  fun p hp => (h p hp).congr hftl hflash

end Log

/-! ## The pages of a WRITE in the FTL -/

/-- The program operation of page `i` of a WRITE. -/
def programOp (t : FtlThread) (req : Req) (i : Nat) : NandOp :=
  ⟨t.ftl.lpa_table (req.lpn i), true, some (i * c.pageBytes)⟩

/-- The first `n` pages of the WRITE are mapped, and those without an operation in `ops` are
in the flash. So are the newest pages of the other LPNs. -/
structure Progress (t : FtlThread) (log : List WrittenPage) (req : Req)
    (page_buffer : Nat → UInt8) (n : Nat) (ops : List NandOp) : Prop where
  le : n ≤ req.scmd.nlbs + 1
  mapped : ∀ i < n, req.lpn i < c.g.total_num_of_pages ∧
    t.ftl.is_unmapped_lpa (req.lpn i) = false
  pending : ∀ op ∈ ops, ∃ i < n, op = programOp c t req i
  done : ∀ i < n, programOp c t req i ∈ ops ∨ InFlash c t (writtenPage c req page_buffer i)
  others : ∀ p, (∀ i ≤ req.scmd.nlbs, p.lpn ≠ req.lpn i) → newest log p.lpn = some p →
    InFlash c t p

section Progress

variable {c} {log : List WrittenPage} {p : WrittenPage} {lpn a k n : Nat} {req : Req} {x : Ppa}
  {page_buffer : Nat → UInt8} {t t' : FtlThread} {ops : List NandOp} {ftl : Ftl}

theorem AllInFlash.start (h : AllInFlash c t log) (req : Req) (page_buffer : Nat → UInt8) :
    Progress c t log req page_buffer 0 [] :=
  ⟨Nat.zero_le _, nofun, nofun, nofun, fun p _ hp => h p hp⟩

/-- When all pages are mapped and no operation is left, the WRITE is in the flash. -/
theorem Progress.finish (h : Progress c t log req page_buffer (req.scmd.nlbs + 1) []) :
    AllInFlash c t (log ++ writtenPages c req page_buffer) := by
  intro p hp
  by_cases hother : ∀ i ≤ req.scmd.nlbs, p.lpn ≠ req.lpn i
  · rw [newest_unwritten log hother] at hp
    exact h.others p hother hp
  · push Not at hother
    obtain ⟨i, hi, hlpn⟩ := hother
    rw [hlpn, newest_written log hi] at hp
    cases hp
    rcases h.done i (Nat.lt_succ_iff.mpr hi) with hop | hin
    · cases hop
    · exact hin

theorem Progress.congr (h : Progress c t log req page_buffer n ops) (hftl : t'.ftl = t.ftl)
    (hflash : t'.flash = t.flash) : Progress c t' log req page_buffer n ops := by
  have hop : ∀ i, programOp c t' req i = programOp c t req i := by
    intro i
    rw [programOp, programOp, hftl]
  refine ⟨h.le, ?_, ?_, ?_, fun p hp hnew => (h.others p hp hnew).congr hftl hflash⟩
  · rw [hftl]
    exact h.mapped
  · simp only [hop]
    exact h.pending
  · intro i hi
    rw [hop]
    exact (h.done i hi).imp_right fun hin => hin.congr hftl hflash

/-- A mapping of one LPN leaves the pages of the others. -/
theorem InFlash.map (h : InFlash c t p) (hne : p.lpn ≠ lpn)
    (hftl : t'.ftl = map_new_page lpn x (t.ftl.advance x)) (hflash : t'.flash = t.flash) :
    InFlash c t' p := by
  have hlpa : t'.ftl.lpa_table p.lpn = t.ftl.lpa_table p.lpn := by
    rw [hftl, map_new_page_lpa_table, Function.update_of_ne hne]
    rfl
  refine ⟨h.lpn, ?_, ?_⟩
  · unfold Ftl.is_unmapped_lpa
    rw [hlpa]
    exact h.mapped
  · rw [hlpa, hflash]
    exact h.bytes

/-- `process_wbc` maps the next page. -/
theorem Progress.map (h : Progress c t log req page_buffer n ops) (hgood : Good c.g t.ftl a)
    (hn : n ≤ req.scmd.nlbs) (hlpn : req.lpn n < c.g.total_num_of_pages)
    (hmap : make_new_mapping c.g t.ftl (req.lpn n) = some (x, ftl)) (hftl : t'.ftl = ftl)
    (hflash : t'.flash = t.flash) :
    Progress c t' log req page_buffer (n + 1) (ops ++ [⟨x, true, some (n * c.pageBytes)⟩]) := by
  obtain ⟨-, hx, -, heq⟩ := make_new_mapping_cases hgood hmap
  rw [heq] at hftl
  have hself : t'.ftl.lpa_table (req.lpn n) = x := by
    rw [hftl, map_new_page_lpa_table, Function.update_self]
  have hother : ∀ i < n, t'.ftl.lpa_table (req.lpn i) = t.ftl.lpa_table (req.lpn i) := by
    intro i hi
    have hne : req.lpn i ≠ req.lpn n := fun he => by
      have := Req.lpn_inj (by omega) hn he
      omega
    rw [hftl, map_new_page_lpa_table, Function.update_of_ne hne]
    rfl
  have hop : ∀ i < n, programOp c t' req i = programOp c t req i := by
    intro i hi
    rw [programOp, programOp, hother i hi]
  have hnew : programOp c t' req n = ⟨x, true, some (n * c.pageBytes)⟩ := by
    rw [programOp, hself]
  refine ⟨by omega, ?_, ?_, ?_, ?_⟩
  · intro i hi
    rcases Nat.lt_succ_iff_lt_or_eq.mp hi with hi | rfl
    · obtain ⟨hin, hm⟩ := h.mapped i hi
      refine ⟨hin, ?_⟩
      unfold Ftl.is_unmapped_lpa
      rw [hother i hi]
      exact hm
    · refine ⟨hlpn, ?_⟩
      unfold Ftl.is_unmapped_lpa
      rw [hself]
      simpa using hx.chn_ne
  · intro op hmem
    rcases List.mem_append.mp hmem with hmem | hmem
    · obtain ⟨i, hi, rfl⟩ := h.pending op hmem
      exact ⟨i, by omega, (hop i hi).symm⟩
    · exact ⟨n, by omega, (List.mem_singleton.mp hmem).trans hnew.symm⟩
  · intro i hi
    rcases Nat.lt_succ_iff_lt_or_eq.mp hi with hi | rfl
    · rw [hop i hi]
      rcases h.done i hi with hmem | hin
      · exact Or.inl (List.mem_append_left _ hmem)
      · refine Or.inr (hin.map (fun he => ?_) hftl hflash)
        have := Req.lpn_inj (by omega) hn he
        omega
    · rw [hnew]
      exact Or.inl (by simp)
  · intro p hp hnewest
    exact (h.others p hp hnewest).map (hp n hn) hftl hflash

/-- A program of the page of another LPN leaves the page. -/
theorem InFlash.program (h : InFlash c t p) (hgood : Good c.g t.ftl a) {bytes : Nat → UInt8}
    (hlpn : lpn < c.g.total_num_of_pages) (hm : t.ftl.is_unmapped_lpa lpn = false)
    (hne : p.lpn ≠ lpn) (hftl : t'.ftl = t.ftl)
    (hflash : t'.flash = Function.update t.flash (t.ftl.lpa_table lpn) bytes) :
    InFlash c t' p := by
  have hpage : t.ftl.lpa_table p.lpn ≠ t.ftl.lpa_table lpn := fun he =>
    hne (hgood.inverse.lpa_table_inj h.lpn hlpn h.mapped hm he)
  refine ⟨h.lpn, ?_, ?_⟩
  · rw [hftl]
    exact h.mapped
  · rw [hftl, hflash, Function.update_of_ne hpage]
    exact h.bytes

theorem mem_eraseIdx_of_ne {op : NandOp} (hk : k < ops.length) (hmem : op ∈ ops)
    (hne : op ≠ ops[k]) : op ∈ ops.eraseIdx k := by
  obtain ⟨i, hi, rfl⟩ := List.mem_iff_getElem.mp hmem
  refine List.mem_eraseIdx_iff_getElem.mpr ⟨i, hi, ?_, rfl⟩
  rintro rfl
  exact hne rfl

/-- One of the operations ends. -/
theorem Progress.program (h : Progress c t log req page_buffer n ops) (hgood : Good c.g t.ftl a)
    (hk : k < ops.length) {offset : Nat} (hoffset : ops[k].ssd_addr = some offset)
    (hftl : t'.ftl = t.ftl)
    (hflash : t'.flash = Function.update t.flash ops[k].ppa fun b => page_buffer (offset + b)) :
    Progress c t' log req page_buffer n (ops.eraseIdx k) := by
  obtain ⟨i, hi, hop⟩ := h.pending _ (List.getElem_mem hk)
  obtain ⟨hlpn, hm⟩ := h.mapped i hi
  have hle := h.le
  rw [hop] at hoffset hflash
  cases hoffset
  have hops : ∀ j, programOp c t' req j = programOp c t req j := by
    intro j
    rw [programOp, programOp, hftl]
  refine ⟨h.le, ?_, ?_, ?_, ?_⟩
  · rw [hftl]
    exact h.mapped
  · intro op hmem
    simp only [hops]
    exact h.pending op (List.mem_of_mem_eraseIdx hmem)
  · intro j hj
    by_cases hji : j = i
    · subst hji
      refine Or.inr ⟨hlpn, ?_, fun b _ => ?_⟩
      · rw [hftl]
        exact hm
      · rw [hftl, hflash]
        exact congrFun (Function.update_self ..) b
    · have hne : req.lpn j ≠ req.lpn i := fun he => hji (Req.lpn_inj (by omega) (by omega) he)
      obtain ⟨hlpn', hm'⟩ := h.mapped j hj
      rw [hops]
      rcases h.done j hj with hmem | hin
      · refine Or.inl (mem_eraseIdx_of_ne hk hmem fun he => hne ?_)
        rw [hop] at he
        exact hgood.inverse.lpa_table_inj hlpn' hlpn hm' hm (congrArg NandOp.ppa he)
      · exact Or.inr (hin.program hgood hlpn hm hne hftl hflash)
  · intro p hp hnewest
    exact (h.others p hp hnewest).program hgood hlpn hm (hp i (by omega)) hftl hflash

end Progress

/-! ## The steps of the FTL thread -/

/-- The FTL thread has the write-back as its one job: how many of its pages are mapped, and
the page programs that are left. -/
inductive WriteBackAt (req : Req) (t : FtlThread) : Nat → List NandOp → Prop
  | queued (hout : t.outq = []) (hpc : t.pc = .idle) (hinq : t.inq = [.flush]) :
    WriteBackAt req t 0 []
  | mapping {i n : Nat} {ops : List NandOp} (hout : t.outq = [])
    (hpc : t.pc = .looping .flush i ops) (hinq : t.inq = []) (hn : n = min i (req.scmd.nlbs + 1)) :
    WriteBackAt req t n ops
  | programming {ops : List NandOp} (hout : t.outq = []) (hpc : t.pc = .waiting .flush ops)
    (hinq : t.inq = []) : WriteBackAt req t (req.scmd.nlbs + 1) ops
  | ended (hout : t.outq = [.flush]) (hpc : t.pc = .idle) (hinq : t.inq = []) :
    WriteBackAt req t (req.scmd.nlbs + 1) []

/-- The write back cache has the pages of the WRITE, and no other. -/
structure CachedWrite (req : Req) (wbc : Wbc) : Prop where
  fits : req.scmd.nlbs < WBC_PAGES
  count : wbc.num_program_pgs = req.scmd.nlbs + 1
  filled : ∀ i ≤ req.scmd.nlbs, wbc.pages i = ⟨req.lpn i, i * c.pageBytes, true⟩
  rest : ∀ i, req.scmd.nlbs < i → (wbc.pages i).valid = false

/-- The FTL thread is at some step of the write-back. -/
def WritingBack (t : FtlThread) (log : List WrittenPage) (req : Req)
    (page_buffer : Nat → UInt8) : Prop :=
  ∃ n ops, WriteBackAt req t n ops ∧ Progress c t log req page_buffer n ops

/-- The page operations of the FTL thread. -/
def FtlPc.ops : FtlPc → List NandOp
  | .idle => []
  | .looping _ _ ops => ops
  | .waiting _ ops => ops

/-- The FTL thread has jobs of READs only, and it programs no page. -/
structure OnlyReads (t : FtlThread) : Prop where
  jobs : ∀ job ∈ t.jobs, ∃ req, job = .read req
  ops : ∀ op ∈ t.pc.ops, op.program = false

section Steps

variable {c} {log : List WrittenPage} {a pick : Nat} {applet : Nat → UInt8} {req : Req}
  {s s' : State}

/-- A turn of the loop of `process_wbc`. -/
theorem writingBack_process_wbc {i : Nat} {ops : List NandOp} (hwbc : CachedWrite c req s.buf.wbc)
    (hgood : Good c.g s.ftl.ftl a) (hout : s.ftl.outq = []) (hinq : s.ftl.inq = [])
    (hpc : s.ftl.pc = .looping .flush i ops)
    (hprogress : Progress c s.ftl log req s.buf.page_buffer (min i (req.scmd.nlbs + 1)) ops)
    (hs : process_wbc c i ops s = some s') :
    s'.buf = s.buf ∧ WritingBack c s'.ftl log req s.buf.page_buffer := by
  have hfits := hwbc.fits
  unfold process_wbc at hs
  split at hs
  · simp only at hs
    by_cases hi : i ≤ req.scmd.nlbs
    · have hn : min i (req.scmd.nlbs + 1) = i := by omega
      rw [hn] at hprogress
      rw [hwbc.filled i hi, if_pos rfl] at hs
      unfold mapPage at hs
      split at hs
      · rename_i hlpn
        split at hs
        · -- No page is free: the thread stays in `make_new_mapping`.
          cases hs
          exact ⟨rfl, i, ops, .mapping hout hpc hinq hn.symm, hprogress⟩
        · rename_i x ftl hmap
          cases hs
          refine ⟨rfl, i + 1, _, .mapping hout rfl hinq (by omega), ?_⟩
          exact hprogress.map hgood hi hlpn hmap rfl rfl
      · cases hs
    · have hn : min i (req.scmd.nlbs + 1) = min (i + 1) (req.scmd.nlbs + 1) := by omega
      rw [hwbc.rest i (by omega), if_neg Bool.false_ne_true] at hs
      cases hs
      exact ⟨rfl, _, ops, .mapping hout rfl hinq hn, hprogress.congr rfl rfl⟩
  · rename_i hend
    have hn : min i (req.scmd.nlbs + 1) = req.scmd.nlbs + 1 := by
      rw [hwbc.count] at hend
      omega
    rw [hn] at hprogress
    cases hs
    exact ⟨rfl, _, ops, .programming hout rfl hinq, hprogress.congr rfl rfl⟩

/-- The FTL thread keeps the progress of a write-back, and it leaves the page buffer. -/
theorem WritingBack.step (h : WritingBack c s.ftl log req s.buf.page_buffer)
    (hwbc : CachedWrite c req s.buf.wbc) (hgood : Good c.g s.ftl.ftl a)
    (hs : ftlThreadStep c pick applet s = some s') :
    s'.buf = s.buf ∧ WritingBack c s'.ftl log req s.buf.page_buffer := by
  obtain ⟨n, ops, hat, hprogress⟩ := h
  unfold ftlThreadStep at hs
  cases hat with
  | queued hout hpc hinq =>
    simp only [hpc, hinq] at hs
    cases hs
    exact ⟨rfl, 0, [], .mapping hout rfl rfl (by simp), hprogress.congr rfl rfl⟩
  | mapping hout hpc hinq hn =>
    simp only [hpc] at hs
    exact writingBack_process_wbc hwbc hgood hout hinq hpc (hn ▸ hprogress) hs
  | programming hout hpc hinq =>
    cases ops with
    | nil =>
      simp only [hpc] at hs
      cases hs
      refine ⟨rfl, _, [], .ended ?_ rfl hinq, hprogress.congr rfl rfl⟩
      simp [endJob, hout]
    | cons op ops =>
      simp only [hpc] at hs
      have hk : pick % (op :: ops).length < (op :: ops).length := Nat.mod_lt _ (by simp)
      obtain ⟨i, hi, hop⟩ := hprogress.pending _ (List.getElem_mem hk)
      have hnand : nandOp c applet (programOp c s.ftl req i) s = { s with ftl := { s.ftl with
          flash := Function.update s.ftl.flash (s.ftl.ftl.lpa_table (req.lpn i))
            fun b => s.buf.page_buffer (i * c.pageBytes + b) } } := rfl
      rw [List.getD_eq_getElem _ _ hk, hop, hnand] at hs
      cases hs
      refine ⟨rfl, _, _, .programming hout rfl hinq,
        hprogress.program hgood hk (congrArg NandOp.ssd_addr hop) rfl ?_⟩
      rw [hop]
      rfl
  | ended hout hpc hinq =>
    simp only [hpc, hinq] at hs
    cases hs
    exact ⟨rfl, _, [], .ended hout hpc hinq, hprogress⟩

theorem nandOp_read {op : NandOp} (h : op.program = false) :
    ∃ page_buffer, nandOp c applet op s = s.setPageBuffer page_buffer := by
  unfold nandOp
  rw [h, if_neg Bool.false_ne_true]
  split
  · exact ⟨_, rfl⟩
  · exact ⟨s.buf.page_buffer, rfl⟩

/-- A job of the FTL thread is a READ. -/
theorem OnlyReads.read {t : FtlThread} (h : OnlyReads t) {job : FtlJob} (hjob : job ∈ t.pc.job) :
    ∃ req, job = .read req :=
  h.jobs job (by simp [FtlThread.jobs, hjob])

theorem OnlyReads.pc {t t' : FtlThread} (h : OnlyReads t) (hjobs : t'.jobs = t.jobs)
    (hops : ∀ op ∈ t'.pc.ops, op.program = false) : OnlyReads t' := by
  refine ⟨?_, hops⟩
  rw [hjobs]
  exact h.jobs

/-- READs leave the tables and the flash. -/
theorem OnlyReads.step (h : OnlyReads s.ftl) (hs : ftlThreadStep c pick applet s = some s') :
    OnlyReads s'.ftl ∧ s'.ftl.ftl = s.ftl.ftl ∧ s'.ftl.flash = s.ftl.flash := by
  have hops := h.ops
  unfold ftlThreadStep at hs
  split at hs
  · rename_i hpc
    split at hs
    · cases hs
      exact ⟨h, rfl, rfl⟩
    · rename_i job rest hinq
      cases hs
      refine ⟨h.pc ?_ (List.forall_mem_nil _), rfl, rfl⟩
      simp [FtlThread.jobs, hpc, hinq]
  · rename_i req i ops hpc
    rw [hpc] at hops
    have hjobs : ∀ i' ops', FtlThread.jobs { s.ftl with pc := .looping (.read req) i' ops' } =
        s.ftl.jobs := by
      intro i' ops'
      simp [FtlThread.jobs, hpc]
    unfold ftl_process_read_io at hs
    simp only at hs
    split at hs
    · split at hs
      · split at hs
        · cases hs
          exact ⟨h.pc (hjobs _ _) hops, rfl, rfl⟩
        · cases hs
          refine ⟨h.pc (hjobs _ _) fun op hop => ?_, rfl, rfl⟩
          rcases List.mem_append.mp hop with hop | hop
          · exact hops op hop
          · rw [List.mem_singleton.mp hop]
      · cases hs
    · cases hs
      refine ⟨h.pc ?_ hops, rfl, rfl⟩
      simp [FtlThread.jobs, State.setPc, hpc]
  · rename_i i ops hpc
    have hin : FtlJob.flush ∈ s.ftl.pc.job := by simp [hpc]
    obtain ⟨req, hreq⟩ := h.read hin
    cases hreq
  · rename_i program start_lpn num_of_lpn i ops hpc
    have hin : FtlJob.isp program start_lpn num_of_lpn ∈ s.ftl.pc.job := by simp [hpc]
    obtain ⟨req, hreq⟩ := h.read hin
    cases hreq
  · rename_i job hpc
    have hin : job ∈ s.ftl.pc.job := by simp [hpc]
    obtain ⟨req, rfl⟩ := h.read hin
    cases hs
    refine ⟨h.pc ?_ (List.forall_mem_nil _), rfl, rfl⟩
    simp [FtlThread.jobs, endJob, hpc]
  · rename_i job op ops hpc
    rw [hpc] at hops
    have hk : pick % (op :: ops).length < (op :: ops).length := Nat.mod_lt _ (by simp)
    obtain ⟨page_buffer, hnand⟩ : ∃ page_buffer,
        nandOp c applet (op :: ops)[pick % (op :: ops).length] s = s.setPageBuffer page_buffer :=
      nandOp_read (hops _ (List.getElem_mem hk))
    simp only at hs
    rw [List.getD_eq_getElem _ _ hk, hnand] at hs
    cases hs
    refine ⟨h.pc ?_ fun op hop => hops op (List.mem_of_mem_eraseIdx hop), rfl, rfl⟩
    simp [FtlThread.jobs, State.setPc, State.setPageBuffer, hpc]

end Steps

end S4Sim
