-- The abstract block device: a store of blocks, where each accepted WRITE gives its LBAs
-- the bytes that were transferred for it, from zeros on. The log of written pages has the
-- same blocks, and so has the flash when no WRITE is under way.
import S4Sim.Firmware.FlushDurability
import S4Sim.Firmware.HostTransfers
import S4Sim.Firmware.ReadPages

open Blocks

namespace S4Sim

variable (c : Config)

/-! ## The abstract device -/

/-- A READ that `verify_rw_param` accepts. -/
def Fetch.acceptedRead (f : Fetch) : Bool := f.isRead && verify_rw_param c f.scmd

/-- A WRITE as a write of blocks, with the bytes that were transferred for it. -/
def Fetch.write (ts : List Transfer) (w : Fetch) : BlockWrite UInt8 :=
  ⟨w.scmd.slba, w.scmd.nlbs + 1, transferredBytes ts w.uid⟩

/-- The blocks of the namespace after commands. -/
def blocksAfter (ts : List Transfer) (fetched : List Fetch) : Nat → Nat → UInt8 :=
  writeAllBlocks c.pageBytes (fun _ _ => 0)
    ((fetched.filter (Fetch.acceptedWrite c)).map (Fetch.write ts))

/-- The bytes that a READ asks for, LBA by LBA, when `early` was fetched before it. -/
def Fetch.readBytes (ts : List Transfer) (early : List Fetch) (f : Fetch) : Nat → UInt8 :=
  stream c.pageBytes (blocksAfter c ts early) f.scmd.slba

/-- The LBAs are below `nsze`, and the PRPs decode into segments for all the blocks. -/
structure Fits (f : Fetch) : Prop where
  inside : f.scmd.slba + f.scmd.nlbs < c.nsze
  segments : ∃ ops, f.segments c = some ops ∧ opsBytes ops = (f.scmd.nlbs + 1) * c.pageBytes

instance (f : Fetch) : Decidable (Fits c f) :=
  decidable_of_iff (f.scmd.slba + f.scmd.nlbs < c.nsze ∧ ((f.segments c).any fun ops =>
      opsBytes ops == (f.scmd.nlbs + 1) * c.pageBytes) = true) (by
    simp only [Option.any_eq_true, beq_iff_eq]
    exact ⟨fun h => ⟨h.1, h.2⟩, fun h => ⟨h.inside, h.segments⟩⟩)

def CommandsFit (fetched : List Fetch) : Prop :=
  ∀ f ∈ fetched, (f.isRead || f.isWrite) = true → Fits c f

instance (fetched : List Fetch) : Decidable (CommandsFit c fetched) := by
  unfold CommandsFit
  infer_instance

/-- The command has a completion, or a later command is fetched. -/
def Over (d : Driver) (f : Fetch) (late : List Fetch) : Prop :=
  late ≠ [] ∨ ∃ e ∈ d.enqueued, e.2.uid = f.uid

/-- The transfers of each WRITE that is over are those of its segments. The transfers of a READ
send the bytes that it asks for to its segments, up to the last one when it is over. -/
structure IsBlockDevice (d : Driver) : Prop where
  write : ∀ early w late, d.fetched = early ++ w :: late → w.acceptedWrite c = true →
    Over d w late → ∃ ops, w.segments c = some ops ∧
      transfersOf d.transfers w.uid =
        segmentTransfers w.uid false (transferredBytes d.transfers w.uid) 0 ops
  read : ∀ early f late, d.fetched = early ++ f :: late → f.isRead = true →
    ∃ ops, f.segments c = some ops ∧
      transfersOf d.transfers f.uid <+:
        segmentTransfers f.uid true (f.readBytes c d.transfers early) 0 ops ∧
      (f.acceptedRead c = true → Over d f late → transfersOf d.transfers f.uid =
        segmentTransfers f.uid true (f.readBytes c d.transfers early) 0 ops)

section BlocksAfter

variable {c} {ts ts' : List Transfer} {fetched early late : List Fetch} {f w : Fetch}
  {lba k : Nat}

/-- A block of zeros: no accepted WRITE has the LBA. -/
theorem blocksAfter_never
    (h : ∀ w ∈ fetched, w.acceptedWrite c = true → ¬ (w.write ts).Covers lba) :
    blocksAfter c ts fetched lba k = 0 := by
  refine writeAllBlocks_never fun v hv => ?_
  obtain ⟨w, hw, rfl⟩ := List.mem_map.mp hv
  obtain ⟨hw, hacc⟩ := List.mem_filter.mp hw
  exact h w hw hacc

/-- Each block is that of the last accepted WRITE of its LBA. -/
theorem blocksAfter_last {i : Nat} (hw : w.acceptedWrite c = true) (hi : i ≤ w.scmd.nlbs)
    (hlate : ∀ v ∈ late, v.acceptedWrite c = true → ¬ (v.write ts).Covers (w.scmd.slba + i)) :
    blocksAfter c ts (early ++ w :: late) (w.scmd.slba + i) k =
      transferredBytes ts w.uid (i * c.pageBytes + k) := by
  unfold blocksAfter
  rw [List.filter_append, List.filter_cons_of_pos hw, List.map_append, List.map_cons]
  refine writeAllBlocks_last (w := w.write ts) (Nat.lt_succ_of_le hi) fun v hv => ?_
  obtain ⟨u, hu, rfl⟩ := List.mem_map.mp hv
  obtain ⟨hu, hacc⟩ := List.mem_filter.mp hu
  exact hlate u hu hacc

theorem blocksAfter_snoc_other (h : f.acceptedWrite c = false) :
    blocksAfter c ts (fetched ++ [f]) = blocksAfter c ts fetched := by
  simp [blocksAfter, h]

theorem blocksAfter_snoc_write (h : f.acceptedWrite c = true) :
    blocksAfter c ts (fetched ++ [f]) =
      writeBlocks c.pageBytes (blocksAfter c ts fetched) (f.write ts) := by
  simp [blocksAfter, h, writeAllBlocks]

/-- The blocks depend on the transfers of the commands alone. -/
theorem blocksAfter_congr (h : ∀ w ∈ fetched, transfersOf ts' w.uid = transfersOf ts w.uid) :
    blocksAfter c ts' fetched = blocksAfter c ts fetched := by
  unfold blocksAfter
  congr 1
  refine List.map_congr_left fun w hw => ?_
  simp only [Fetch.write, BlockWrite.mk.injEq, true_and]
  funext b
  rw [transferredBytes, transferredBytes, h w (List.mem_filter.mp hw).1]

end BlocksAfter

/-! ## The request in hand -/

/-- The request in hand is that of the last fetched command, and it has its segments. -/
structure InHand (fetched : List Fetch) (req : Req) (early : List Fetch) (f : Fetch) : Prop where
  last : fetched = early ++ [f]
  uid : f.uid = req.uid
  slba : f.scmd.slba = req.scmd.slba
  nlbs : f.scmd.nlbs = req.scmd.nlbs
  inside : f.scmd.slba + f.scmd.nlbs < c.nsze
  segments : f.segments c = some req.dma.ops
  bytes : opsBytes req.dma.ops = (req.scmd.nlbs + 1) * c.pageBytes

theorem nsze_lt : c.nsze < 2 ^ 32 := Nat.mod_lt _ (by decide)

section InHand

variable {c} {fetched early : List Fetch} {f : Fetch} {req : Req} {i : Nat} {s : State} {env : Env}

/-- The LPN of a page is its LBA. -/
theorem InHand.lpn (h : InHand c fetched req early f) (hi : i ≤ req.scmd.nlbs) :
    req.lpn i = f.scmd.slba + i := by
  have hinside := h.inside
  have hlt := nsze_lt c
  have hnlbs := h.nlbs
  rw [h.slba, Req.lpn]
  apply Nat.mod_eq_of_lt
  rw [h.slba] at hinside
  omega

/-- A READ or WRITE that is fetched and accepted. -/
theorem RwAsk.inHand (hask : RwAsk c s.driver env req) (hfits : Fits c (fetchOf s.driver env)) :
    InHand c (s.driver.fetched ++ [fetchOf s.driver env]) req s.driver.fetched
      (fetchOf s.driver env) := by
  obtain ⟨ops, hops, hbytes⟩ := hfits.segments
  obtain ⟨old, ok, hsize, hdec⟩ := hask.decoded
  obtain ⟨hsame, -⟩ := decodedOps_spec hops hsize hdec
  refine ⟨rfl, hask.uid.symm, hask.slba.symm, hask.nlbs.symm, hfits.inside, ?_, ?_⟩
  · rw [hsame]
    exact hops
  · rw [hsame, hbytes, hask.nlbs]
    rfl

end InHand

/-! ## The log and the flash -/

/-- The newest page of each LPN has its block, and the other blocks are zeros. -/
structure Mirrors (log : List WrittenPage) (blocks : Nat → Nat → UInt8) : Prop where
  written : ∀ lpn p, newest log lpn = some p → ∀ k < c.pageBytes, blocks lpn k = p.bytes k
  never : ∀ lpn, newest log lpn = none → ∀ k < c.pageBytes, blocks lpn k = 0

section Mirrors

variable {c} {log : List WrittenPage} {ts : List Transfer} {early fetched : List Fetch} {f : Fetch}
  {req : Req} {page_buffer : Nat → UInt8} {blocks : Nat → Nat → UInt8} {t : FtlThread}

theorem newest_lpn {lpn : Nat} {p : WrittenPage} (h : newest log lpn = some p) : p.lpn = lpn := by
  induction log using List.reverseRecOn with
  | nil => cases h
  | append_singleton log q ih =>
    rw [newest_snoc] at h
    by_cases hq : lpn = q.lpn
    · rw [hq, Function.update_self] at h
      cases h
      exact hq.symm
    · rw [Function.update_of_ne hq] at h
      exact ih h

theorem newest_none_of_append {new : List WrittenPage} {lpn : Nat}
    (h : newest (log ++ new) lpn = none) : newest log lpn = none := by
  induction new using List.reverseRecOn with
  | nil => rwa [List.append_nil] at h
  | append_singleton new p ih =>
    rw [← List.append_assoc, newest_snoc] at h
    by_cases hp : lpn = p.lpn
    · rw [hp, Function.update_self] at h
      cases h
    · rw [Function.update_of_ne hp] at h
      exact ih h

/-- A WRITE gives the log and the abstract device the same blocks. -/
theorem Mirrors.write (h : Mirrors c log (blocksAfter c ts early))
    (hand : InHand c fetched req early f) (hacc : f.acceptedWrite c = true)
    (hts : transfersOf ts req.uid = segmentTransfers req.uid false page_buffer 0 req.dma.ops) :
    Mirrors c (log ++ writtenPages c req page_buffer) (blocksAfter c ts (early ++ [f])) := by
  rw [blocksAfter_snoc_write hacc]
  -- The blocks of the WRITE have the bytes of the page buffer.
  have hnew : ∀ i ≤ req.scmd.nlbs, ∀ k < c.pageBytes,
      writeBlocks c.pageBytes (blocksAfter c ts early) (f.write ts) (req.lpn i) k =
        page_buffer (i * c.pageBytes + k) := by
    intro i hi k hk
    have hcount : i < (f.write ts).count := by
      rw [Fetch.write, hand.nlbs]
      exact Nat.lt_succ_of_le hi
    have hstart : req.lpn i = (f.write ts).start + i := hand.lpn hi
    rw [hstart, writeBlocks_covered hcount]
    simp only [Fetch.write, hand.uid]
    refine transferredBytes_eq hts ?_
    have hlast : (i + 1) * c.pageBytes ≤ (req.scmd.nlbs + 1) * c.pageBytes :=
      Nat.mul_le_mul_right _ (by omega)
    rw [Nat.succ_mul] at hlast
    rw [hand.bytes]
    omega
  have hold : ∀ lpn, (∀ i ≤ req.scmd.nlbs, lpn ≠ req.lpn i) → ∀ k,
      writeBlocks c.pageBytes (blocksAfter c ts early) (f.write ts) lpn k =
        blocksAfter c ts early lpn k := by
    intro lpn hother k
    refine writeBlocks_other fun hcovers => ?_
    obtain ⟨hle, hlt⟩ := hcovers
    simp only [Fetch.write, hand.nlbs] at hle hlt
    refine hother (lpn - f.scmd.slba) (by omega) ?_
    rw [hand.lpn (by omega)]
    omega
  constructor
  · intro lpn p hp k hk
    by_cases hother : ∀ i ≤ req.scmd.nlbs, lpn ≠ req.lpn i
    · rw [newest_unwritten log hother] at hp
      rw [hold lpn hother]
      exact h.written lpn p hp k hk
    · push Not at hother
      obtain ⟨i, hi, rfl⟩ := hother
      rw [newest_written log hi] at hp
      cases hp
      exact hnew i hi k hk
  · intro lpn hnone k hk
    have hother : ∀ i ≤ req.scmd.nlbs, lpn ≠ req.lpn i := by
      rintro i hi rfl
      rw [newest_written log hi] at hnone
      cases hnone
    rw [newest_unwritten log hother] at hnone
    rw [hold lpn hother]
    exact h.never lpn hnone k hk

/-- When the newest pages are in the flash, the flash has the blocks. -/
theorem AllInFlash.hasBlocks (h : AllInFlash c t log) (hmirror : Mirrors c log blocks)
    (hunmapped : ∀ lpn, newest log lpn = none → t.ftl.is_unmapped_lpa lpn = true) :
    HasBlocks c t blocks := by
  constructor
  · intro lpn hm
    refine hmirror.never lpn (Option.eq_none_iff_forall_ne_some.mpr fun p hp => ?_)
    have hlpn := newest_lpn hp
    subst hlpn
    have hmapped := (h p hp).mapped
    rw [hm] at hmapped
    cases hmapped
  · intro lpn hlpn hm k hk
    cases hp : newest log lpn with
    | none =>
      rw [hunmapped lpn hp] at hm
      cases hm
    | some p =>
      rw [hmirror.written lpn p hp k hk]
      obtain rfl := newest_lpn hp
      exact (h p hp).bytes k hk

end Mirrors

end S4Sim
