-- The flash of the FTL thread is the flash array. The thread sees its pages and
-- the page buffer, the array an image and a RAM of bytes, and the operation that
-- the thread waits for changes both in the same way.
import S4Sim.Firmware.Threads
import S4Sim.NandCtrl.ArrayOperations

open Digits Runs Windows

namespace S4Sim

/-! ## The places of the pages -/

namespace FlashBuild

variable {b : FlashBuild} {x y : Ppa}

/-- The bases of the fields of an address, the page first. -/
def bases (b : FlashBuild) : List Nat :=
  [b.geometry.nand_pages_per_block, b.geometry.nand_blocks_per_plane,
    b.geometry.nand_planes_per_die, b.geometry.dies_per_channel, b.geometry.nand_num_chn]

/-- The number of a page in the image. -/
def pageNumber (b : FlashBuild) (x : Ppa) : Nat := mixedRadix b.bases (FlashParams.fields x)

theorem pageOffset_number : b.pageOffset x = b.pageNumber x * b.geometry.nandPageBytes := by
  unfold pageOffset pageNumber bases FlashParams.fields chip_index Geometry.pages_per_plane
  simp only [mixedRadix_cons, mixedRadix_nil]
  ring

theorem pageNumber_inj (hx : b.geometry.HasPage x) (hy : b.geometry.HasPage y)
    (h : b.pageNumber x = b.pageNumber y) : x = y := by
  have hfields : ∀ z, b.geometry.HasPage z →
      List.Forall₂ (· < ·) (FlashParams.fields z) b.bases := by
    rintro z ⟨hchn, hdie, hplane, hblock, hpage⟩
    simp only [FlashParams.fields, bases, List.forall₂_cons, List.Forall₂.nil, and_true]
    exact ⟨hpage, hblock, hplane, hdie, hchn⟩
  have heq := mixedRadix_inj (hfields x hx) (hfields y hy) h
  simp only [FlashParams.fields, List.cons.injEq, and_true] at heq
  obtain ⟨hpage, hblock, hplane, hdie, hchn⟩ := heq
  cases x
  cases y
  exact Ppa.mk.injEq .. ▸ ⟨hchn, hdie, hplane, hblock, hpage⟩

/-- Two pages have no byte of the image in common. -/
theorem pageOffset_apart (hx : b.geometry.HasPage x) (hy : b.geometry.HasPage y) (hne : x ≠ y) :
    b.pageOffset x + b.geometry.nandPageBytes ≤ b.pageOffset y ∨
      b.pageOffset y + b.geometry.nandPageBytes ≤ b.pageOffset x := by
  rw [pageOffset_number, pageOffset_number]
  exact multiples_apart fun h => hne (pageNumber_inj hx hy h)

end FlashBuild

/-! ## The pages of the FTL -/

/-- The page of the operation, with the buffer in the RAM. -/
def NandOp.page (page_buffer : Nat) (op : NandOp) : FlashPage where
  op := if op.program then .FLASH_PROGRAM else .FLASH_READ
  ppa := op.ppa
  ssd_addr := page_buffer + op.ssd_addr.getD 0

/-- The flash of the FTL thread is in the image, and the page buffer, of so many bytes, in the
RAM. -/
structure InMemory (b : FlashBuild) (page_buffer bytes : Nat) (s : State) (m : FlashMemory) :
    Prop where
  flash : ∀ x, b.geometry.HasPage x → ∀ i < b.geometry.nandPageBytes,
    s.ftl.flash x i = m.image (b.pageOffset x + i)
  buffer : ∀ i < bytes, s.buf.page_buffer i = m.ram (page_buffer + i)

/-- The page is one of the array, and has its buffer in the page buffer. -/
def NandOp.Fits (b : FlashBuild) (bytes : Nat) (op : NandOp) : Prop :=
  b.geometry.HasPage op.ppa ∧
    ∃ offset, op.ssd_addr = some offset ∧ offset + b.geometry.nandPageBytes ≤ bytes

section Operations

variable {b : FlashBuild} {c : Config} {page_buffer bytes : Nat} {s : State} {m : FlashMemory}
  {op : NandOp} {ops : List NandOp} {job : FtlJob} {a : Nat → UInt8}

theorem InMemory.page_done (h : InMemory b page_buffer bytes s m) (hg : c.g = b.geometry)
    (hfits : op.Fits b bytes) : InMemory b page_buffer bytes (nandOp c a op s)
      (b.executePage m (op.page page_buffer)) := by
  obtain ⟨hpage, offset, haddr, hend⟩ := hfits
  have hbytes : c.pageBytes = b.geometry.nandPageBytes := by
    unfold Config.pageBytes Geometry.nandPageBytes
    rw [← hg, c.equal]
  unfold nandOp FlashBuild.executePage NandOp.page
  simp only [haddr, Option.getD_some, hbytes]
  cases op.program with
  | true =>
    refine ⟨fun x hx i hi => ?_, h.buffer⟩
    simp only [if_pos]
    by_cases hsame : x = op.ppa
    · subst hsame
      rw [Function.update_self, writeWindow_inside hi, h.buffer _ (by omega), Nat.add_assoc]
    · rw [Function.update_of_ne hsame, writeWindow_outside]
      · exact h.flash x hx i hi
      · rcases FlashBuild.pageOffset_apart hx hpage hsame with hle | hle <;> omega
  | false =>
    refine ⟨h.flash, fun i hi => ?_⟩
    simp only [State.setPageBuffer, if_neg Bool.false_ne_true]
    by_cases hin : offset ≤ i ∧ i < offset + b.geometry.nandPageBytes
    · obtain ⟨j, rfl⟩ := Nat.exists_eq_add_of_le hin.1
      have hj : j < b.geometry.nandPageBytes := by omega
      rw [writeWindow_inside hj, ← Nat.add_assoc, writeWindow_inside hj, h.flash _ hpage j hj]
    · rw [writeWindow_outside (by omega), writeWindow_outside (by omega)]
      exact h.buffer i hi

/-- The thread ends the pages of its operation one after another. -/
theorem InMemory.operation (hg : c.g = b.geometry) :
    ∀ (ops : List NandOp) (s : State) (m : FlashMemory), InMemory b page_buffer bytes s m →
      s.ftl.pc = .waiting job ops → (∀ op ∈ ops, op.Fits b bytes) →
      ∃ s', run (fwStep c) s (List.replicate ops.length (.ftl 0 a)) = some s' ∧
        s'.ftl.pc = .waiting job [] ∧
        InMemory b page_buffer bytes s' (b.executeAll m (ops.map (NandOp.page page_buffer)))
  | [], s, m, h, hpc, _ => ⟨s, rfl, hpc, h⟩
  | op :: ops, s, m, h, hpc, hfits => by
    have hstep : fwStep c s (.ftl 0 a) =
        some ((nandOp c a op s).setPc (.waiting job ops)) := by
      simp [fwStep, ftlThreadStep, hpc]
    have hnext : InMemory b page_buffer bytes ((nandOp c a op s).setPc (.waiting job ops))
        (b.executePage m (op.page page_buffer)) := by
      have hop := h.page_done (a := a) hg (hfits op List.mem_cons_self)
      exact ⟨hop.flash, hop.buffer⟩
    obtain ⟨s', hrun, hpc', hmem⟩ := InMemory.operation hg ops _ _ hnext rfl
      fun op' hop' => hfits op' (List.mem_cons_of_mem _ hop')
    refine ⟨s', ?_, hpc', hmem⟩
    rw [List.length_cons, List.replicate_succ, run_cons, hstep, Option.bind_some, hrun]

/-- Stores outside of the page buffer. -/
theorem InMemory.stores {stores : List (Nat × UInt8)} (h : InMemory b page_buffer bytes s m)
    (hout : ∀ w ∈ stores, w.1 < page_buffer ∨ page_buffer + bytes ≤ w.1) :
    InMemory b page_buffer bytes s (b.replay m (stores.map fun w => .store w.1 w.2)) := by
  induction stores generalizing m with
  | nil => exact h
  | cons w stores ih =>
    refine ih (m := b.applyEvent m (.store w.1 w.2)) ⟨h.flash, fun i hi => ?_⟩ fun v hv =>
      hout v (List.mem_cons_of_mem _ hv)
    have hw := hout w List.mem_cons_self
    rw [h.buffer i hi]
    exact (Function.update_of_ne (by omega) _ _).symm

end Operations

/-- The FTL thread waits for an operation, the flash array is between two calls and holds its
flash and its page buffer. After every run of the array in which the call for the operation has
returned, with all events in any order and stores of other masters outside of the page buffer,
it holds those that the thread has when it has ended the pages. -/
theorem the_flash_of_the_ftl_is_the_flash_array {b : FlashBuild} {c : Config}
    (hg : c.g = b.geometry) {toggle : Fin b.num_nand_ctrls → Bool}
    {regs : Fin b.num_nand_ctrls → Chn → Nat → Nat → UInt8} {image ram : Nat → UInt8}
    {before during : List (FlashAction b)} {t t' : FlashArray b}
    (hok : AllSteps b.step b.Promised (b.initial toggle regs image ram) (before ++ during))
    (hbefore : run b.step (b.initial toggle regs image ram) before = some t)
    (hduring : run b.step t during = some t') (hidle : t.pc = .idle) (hreturned : t'.pc = .idle)
    {page_buffer bytes : Nat} {stores : List (Nat × UInt8)} {job : FtlJob} {ops : List NandOp}
    (hlog : t'.log = t.log ++ stores.map (fun w => .store w.1 w.2) ++
      [.operation (ops.map (NandOp.page page_buffer))])
    (hout : ∀ w ∈ stores, w.1 < page_buffer ∨ page_buffer + bytes ≤ w.1)
    {s : State} (hpc : s.ftl.pc = .waiting job ops) (hfits : ∀ op ∈ ops, op.Fits b bytes)
    (hmem : InMemory b page_buffer bytes s ⟨t.image, t.ram⟩) (applet : Nat → UInt8) :
    ∃ s', run (fwStep c) s (List.replicate ops.length (.ftl 0 applet)) = some s' ∧
      s'.ftl.pc = .waiting job [] ∧ InMemory b page_buffer bytes s' ⟨t'.image, t'.ram⟩ := by
  obtain ⟨hsound, hgood⟩ := FlashArray.sound_run (allSteps_append.mp hok).1 hbefore
  have hrun : run b.step (b.initial toggle regs image ram) (before ++ during) = some t' := by
    rw [run_append, hbefore]
    exact hduring
  obtain ⟨hsound', hgood'⟩ := FlashArray.sound_run hok hrun
  have hbase : t'.base ⟨image, ram⟩ = b.executeAll (b.replay (t.base ⟨image, ram⟩)
      (stores.map fun w => .store w.1 w.2)) (ops.map (NandOp.page page_buffer)) := by
    unfold FlashArray.base FlashBuild.replay
    rw [hlog, List.foldl_append, List.foldl_append]
    rfl
  rw [hsound.idle_memory hgood hidle] at hmem
  rw [hsound'.idle_memory hgood' hreturned, hbase]
  exact InMemory.operation hg ops s _ (hmem.stores hout) hpc hfits

/-! ## A page of the write back cache -/

def twoByteConfig : Config where
  g := twoBytePages.geometry
  hostPageBits := 1
  image _ _ _ := 0
  equal := rfl

def programmedOp : NandOp := ⟨⟨1, 0, 0, 1, 2⟩, true, some 0⟩

/-- The thread waits for the program of one page, with the page buffer at the address 16. -/
def waitingFirmware : State :=
  let s := initialState twoByteConfig 0 0 0 0 fun _ _ => 0
  { s with
    buf := { s.buf with page_buffer := fun i => if i = 0 then 7 else 9 }
    ftl := { s.ftl with pc := .waiting .flush [programmedOp] } }

theorem a_page_of_the_write_back_cache_is_programmed :
    ∃ s', run (fwStep twoByteConfig) waitingFirmware [.ftl 0 fun _ => 0] = some s' ∧
      s'.ftl.pc = .waiting .flush [] ∧
      InMemory twoBytePages 16 64 s' ⟨afterProgram.image, afterProgram.ram⟩ := by
  have hfits : ∀ op ∈ [programmedOp], op.Fits twoBytePages 64 := by
    intro op hop
    obtain rfl := List.mem_singleton.mp hop
    exact ⟨by decide, 0, rfl, by decide⟩
  have hmem : InMemory twoBytePages 16 64 waitingFirmware
      ⟨beforeProgram.image, beforeProgram.ram⟩ := by
    refine ⟨fun _ _ _ _ => rfl, fun i _ => ?_⟩
    by_cases hi : i = 0
    · subst hi
      rfl
    · simp [waitingFirmware, beforeProgram, FlashBuild.initial, hi]
  have hrun : run twoBytePages.step beforeProgram programming = some afterProgram := rfl
  have hlog : afterProgram.log =
      beforeProgram.log ++ ([] : List (Nat × UInt8)).map (fun w => .store w.1 w.2) ++
        [.operation ([programmedOp].map (NandOp.page 16))] := rfl
  have hok : AllSteps twoBytePages.step twoBytePages.Promised beforeProgram
      ([] ++ programming) := promised_programming
  exact the_flash_of_the_ftl_is_the_flash_array rfl hok rfl hrun rfl rfl hlog
    (fun w hw => absurd hw List.not_mem_nil) rfl hfits hmem _

end S4Sim
