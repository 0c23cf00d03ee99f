-- The message thread of the host. A command that it copies bytes for is the
-- open one, and the thread is done with the page before the device goes on.
import S4Sim.HostInterface.DmaEvents

namespace S4Sim

open Runs

namespace HostInterface

variable {s s' : HostInterface} {a : HostIfAction} {msg page j : Nat} {i : IssuedCmd}
  {left : List Nat}

/-! ## The steps of the host -/

/-- A step of the host thread leaves the commands and the place of the device. -/
theorem PageUse.hostMoves (h : s.PageUse) (hissued : s'.issued = s.issued)
    (hcompletions : s'.completions = s.completions) (hdevice : s'.device = s.device)
    (hevents : s'.events = s.events) (hdone : ∀ j, s.PageDone j → s'.PageDone j)
    (hsource : ∀ j i, s.issued[j]? = some i → i.regs.cmd.isDma = true → s.Open j →
      s'.source i.regs = i.bytes)
    (hpage : ∀ j i, s.issued[j]? = some i → s.Open j → s'.PageOk j i)
    (hnotify : ∀ msg i, s'.host = .notify msg → s.issued[s'.handled.length]? = some i →
      s'.HostHolds i []) : s'.PageUse := by
  have hopen : ∀ j, s'.Open j ↔ s.Open j := by
    intro j
    rw [Open, Open, hissued, hdevice, hevents]
  refine ⟨?_, ?_, ?_, ?_⟩
  · intro j i hi hdma ho
    rw [hissued] at hi
    rw [hopen] at ho
    rw [hcompletions]
    obtain ⟨hd, hc⟩ := h.settled j i hi hdma ho
    exact ⟨hdone j hd, hc⟩
  · intro j i hi hdma ho
    exact hsource j i (hissued ▸ hi) hdma ((hopen j).mp ho)
  · intro j i hi ho
    exact hpage j i (hissued ▸ hi) ((hopen j).mp ho)
  · intro msg i hn hi
    exact hnotify msg i hn (hissued ▸ hi)

theorem readOk_congr (hat : s'.hostAt j = s.hostAt j) (hpages : s'.pages = s.pages) :
    s.ReadOk j i → s'.ReadOk j i := by
  unfold ReadOk PageHolds
  rw [hat, hpages]
  exact id

theorem writeOk_congr (hat : s'.hostAt j = s.hostAt j) (hpages : s'.pages = s.pages) :
    s.WriteOk j → s'.WriteOk j := by
  unfold WriteOk
  rw [hat, hpages]
  exact id

theorem sentOk_congr (hat : s'.hostAt j = s.hostAt j) (hpages : s'.pages = s.pages)
    (hmem : ∀ left, s.HostHolds i left → s'.HostHolds i left) : s.SentOk j i → s'.SentOk j i := by
  unfold SentOk PageHolds
  rw [hat, hpages]
  cases s.hostAt j with
  | before => exact id
  | copying left => exact id
  | waiting => exact id
  | writing left => exact fun h => ⟨h.1, h.2.1, hmem left h.2.2⟩
  | notifying => exact fun h => ⟨h.1, hmem [] h.2⟩
  | done => exact fun h => ⟨h.1, hmem [] h.2⟩

/-- What holds of the open command stays, when the memories keep its bytes. -/
theorem PageOk.keeps (h : s.PageOk j i) (hdevice : s'.device = s.device)
    (hevents : s'.events = s.events) (hat : s'.hostAt j = s.hostAt j) (hpages : s'.pages = s.pages)
    (hhost : ∀ left, s.HostHolds i left → s'.HostHolds i left)
    (hssd : ∀ left, s.SsdHolds i left → s'.SsdHolds i left) : s'.PageOk j i := by
  unfold PageOk at h ⊢
  rw [hdevice, hevents]
  cases hd : s.device <;> rw [hd] at h
  case idle =>
    obtain ⟨e, he, hok⟩ := h
    refine ⟨e, he, ?_⟩
    cases e with
    | read_host_complete msg => exact ⟨hok.1, hok.2.1, readOk_congr hat hpages hok.2.2⟩
    | write_ssd_complete msg left =>
      obtain ⟨hmsg, hread, hleft, hdone, hpage, hmem⟩ := hok
      refine ⟨hmsg, hread, hleft, hat.trans hdone, ?_, hssd left hmem⟩
      unfold PageHolds
      rw [hpages]
      exact hpage
    | read_ssd_complete msg left =>
      obtain ⟨hmsg, hwrite, hleft, hpage, hholds⟩ := hok
      refine ⟨hmsg, hwrite, hleft, writeOk_congr hat hpages hpage, ?_⟩
      unfold PageHolds
      rw [hpages]
      exact hholds
    | write_host_complete msg => exact ⟨hok.1, hok.2.1, sentOk_congr hat hpages hhost hok.2.2⟩
  case enQueuePageRegister => trivial
  all_goals
    exact ⟨fun hr => readOk_congr hat hpages (h.1 hr), fun hw => writeOk_congr hat hpages (h.2 hw)⟩

/-- What holds of the open command stays, when the host is at another one. -/
theorem PageOk.congr (h : s.PageOk j i) (hdevice : s'.device = s.device)
    (hevents : s'.events = s.events) (hat : s'.hostAt j = s.hostAt j) (hpages : s'.pages = s.pages)
    (hhost : s'.host_mem = s.host_mem) (hssd : s'.ssd_mem = s.ssd_mem) : s'.PageOk j i := by
  apply h.keeps hdevice hevents hat hpages
  · unfold HostHolds
    rw [hhost]
    exact fun _ => id
  · unfold SsdHolds
    rw [hssd]
    exact fun _ => id

/-- A command without a DMA has no event. -/
theorem PageOk.notDma (h : s.PageOk j i) (hdma : ¬ i.regs.cmd.isDma = true)
    (hdevice : s'.device = s.device) : s'.PageOk j i := by
  simp only [HostCmd.isDma, Bool.or_eq_true, not_or] at hdma
  unfold PageOk at h ⊢
  rw [hdevice]
  cases hd : s.device <;> rw [hd] at h
  case idle =>
    obtain ⟨e, -, hok⟩ := h
    have := hok.isDma
    simp [HostCmd.isDma, hdma] at this
  case enQueuePageRegister => trivial
  all_goals exact ⟨fun hr => absurd hr hdma.1, fun hw => absurd hw hdma.2⟩

/-- The command in hand is the open one, when the host is not done with its page. -/
theorem PageUse.current_open (h : s.PageUse) (hi : s.issued[s.handled.length]? = some i)
    (hdma : i.regs.cmd.isDma = true) (hnot : s.host.at ≠ .notifying)
    (hready : s.handled.length < s.issued.length - s.device.unready) :
    s.Open s.handled.length ∧ s.device.unready = 0 ∧ s.PageOk s.handled.length i := by
  have hopen : s.Open s.handled.length := by
    refine h.open_of hi hdma ?_
    rw [pageDone_iff]
    rintro (hlt | ⟨-, hn⟩)
    · omega
    · exact hnot hn
  have := hopen.1
  exact ⟨hopen, by omega, h.page _ i hi hopen⟩

/-! ## The end of a message -/

theorem hostAt_finish_self {m : SsdMsg} : (s.finish m).hostAt s.handled.length = .done := by
  unfold hostAt
  rw [if_pos (by simp [HostInterface.finish])]

theorem hostAt_finish_ne {m : SsdMsg} (hj : j ≠ s.handled.length) :
    (s.finish m).hostAt j = s.hostAt j := by
  unfold hostAt
  simp only [HostInterface.finish, List.length_append, List.length_singleton, HostPc.at]
  by_cases hlt : j < s.handled.length
  · rw [if_pos hlt, if_pos (by omega)]
  · rw [if_neg hlt, if_neg (by omega), if_pos (show s.handled.length < j by omega)]
    split <;> rfl

theorem PageDone.finish {m : SsdMsg} (h : s.PageDone j) : (s.finish m).PageDone j := by
  apply h.mono
  · simp [HostInterface.finish]
  · intro _ hlen
    simp [HostInterface.finish] at hlen

theorem Control.finish (hc : s.Control) {m : SsdMsg} : (s.finish m).Control := by
  refine ⟨hc.status, hc.quiet, hc.flight, hc.calm, ?_, hc.small, hc.bytes, nofun,
    fun _ _ => trivial⟩
  intro hd
  have := hc.few hd
  simp only [HostInterface.finish, List.length_append, List.length_singleton]
  omega

/-- The records of the command in hand are complete when the host is done with it. -/
theorem Records.finish (h : s.Records) (hi : s.issued[s.handled.length]? = some i)
    (new : List HostInterrupt) (hissued : s'.issued = s.issued)
    (hhandled : s'.handled.length = s.handled.length + 1)
    (hcompletions : s'.completions = s.completions) (hdevice : s'.device = s.device)
    (hevents : s'.events = s.events) (hreads : s'.page_reads = s.page_reads)
    (hvectors : s'.vectors = s.vectors ++ (msixVector i).toList)
    (hinterrupts : s'.interrupts = s.interrupts ++ new)
    (hnew : new.map (·.number) =
      if raises s.issued s.handled.length then [s.handled.length] else [])
    (hgood : ∀ e ∈ new, ∃ i, s.issued[e.number]? = some i ∧ e.vector = i.regs.cqIntVector ∧
      e.host = i.bytes) : s'.Records := by
  refine ⟨?_, ?_, ?_, ?_, ?_, ?_, ?_⟩
  · rw [hcompletions, hissued]
    exact h.completions
  · rw [hcompletions]
    rintro e he ⟨hj, ho⟩
    rw [hissued] at hj
    rw [hdevice, hevents] at ho
    exact h.closed e he ⟨hj, ho⟩
  · rw [hcompletions]
    exact h.once
  · rw [hinterrupts, hissued]
    intro e he
    rcases List.mem_append.mp he with he | he
    · exact h.interrupts e he
    · exact hgood e he
  · rw [hinterrupts, hissued, hhandled, List.map_append, h.raised, hnew, List.range_succ,
      List.filter_append, List.filter_singleton]
    by_cases hr : raises s.issued s.handled.length <;> simp [hr]
  · rw [hvectors, hissued, hhandled, h.vectors, List.take_add_one, List.filterMap_append, hi]
    simp only [Option.toList_some, List.filterMap_cons, List.filterMap_nil]
    cases msixVector i <;> rfl
  · rw [hreads]
    exact h.page_reads

theorem raises_eq (hi : s.issued[j]? = some i) :
    raises s.issued j = decide (i.regs.cmd = .PCI_DMA_CQ_WRITE ∧ i.regs.isr_notify ≠ 0) := by
  simp [raises, hi]

theorem msixVector_dma (hdma : i.regs.cmd.isDma = true) : msixVector i = none := by
  unfold msixVector
  rw [if_neg]
  intro he
  rw [he] at hdma
  exact absurd hdma (by decide)

theorem raises_read (hi : s.issued[j]? = some i) (hread : i.regs.cmd.isRead = true) :
    raises s.issued j = false := by
  rw [raises_eq hi, decide_eq_false_iff_not]
  rintro ⟨he, -⟩
  rw [he] at hread
  exact absurd hread (by decide)

/-! ## The moves of the thread -/

/-- The thread is at the next message and has not seen `msg_ready`. -/
theorem Kept.deQueueSSDMsg (h : s.Kept) (hhost : s.host = .idle)
    (hstep : s.deQueueSSDMsg = some s') : s'.Kept := by
  have horder := h.order.deQueueSSDMsg hhost hstep
  unfold HostInterface.deQueueSSDMsg at hstep
  split at hstep <;> cases hstep
  have hat : ∀ j, HostInterface.hostAt
      { s with head := (s.head + 1) % SSDMsgQueueSize, host := .wait_msg s.head } j =
        s.hostAt j := by
    intro j
    refine hostAt_congr (s := s) rfl ?_
    rw [hhost]
    rfl
  refine ⟨horder, ?_, ?_, ?_⟩
  · exact ⟨h.control.status, h.control.quiet, h.control.flight, h.control.calm, h.control.few,
      h.control.small, h.control.bytes, nofun, fun _ _ => trivial⟩
  · refine h.page.hostMoves rfl rfl rfl rfl ?_ h.page.source ?_ (by simp)
    · intro j hj
      rw [PageDone, hat]
      exact hj
    · intro j i hi ho
      exact (h.page.page j i hi ho).congr rfl rfl (hat j) rfl rfl rfl
  · exact h.records.same rfl rfl rfl rfl rfl (fun _ => id) h.records.page_reads

theorem InOrder.hostAdvances (h : s.InOrder) {pc : HostPc} (hslot : s.host.slot = pc.slot) :
    InOrder { s with host := pc } :=
  h.same (by simp only [ringView, hslot])

/-- The command in hand changes its place; the others stay where they are. -/
theorem PageUse.hostAdvances (h : s.PageUse) {pc : HostPc} (hnot : s.host.at ≠ .notifying)
    (hpage : ∀ i, s.issued[s.handled.length]? = some i → s.Open s.handled.length →
      PageOk { s with host := pc } s.handled.length i)
    (hnotify : ∀ msg i, pc = .notify msg → s.issued[s.handled.length]? = some i →
      s.HostHolds i []) : PageUse { s with host := pc } := by
  refine h.hostMoves rfl rfl rfl rfl ?_ h.source ?_ hnotify
  · intro j hj
    apply hj.mono
    · exact Nat.le_refl _
    · intro hn
      exact absurd hn hnot
  · intro j i hi ho
    by_cases hj : j = s.handled.length
    · subst hj
      exact hpage i hi ho
    · exact (h.page j i hi ho).congr rfl rfl (hostAt_of_ne rfl hj) rfl rfl rfl

theorem Control.hostAdvances (hc : s.Control) {pc : HostPc}
    (hpassed : s.handled.length < s.issued.length - s.device.unready)
    (hserves : ∀ i, s.issued[s.handled.length]? = some i → pc.Serves i.regs) :
    Control { s with host := pc } :=
  ⟨hc.status, hc.quiet, hc.flight, hc.calm, hc.few, hc.small, hc.bytes, fun _ => hpassed, hserves⟩

/-- The end of a message, in a state that has the pages and the memories of `s`. -/
theorem PageUse.finish (h : s.PageUse) {m : SsdMsg}
    (hpage : ∀ i, s.issued[s.handled.length]? = some i → s.Open s.handled.length →
      (s.finish m).PageOk s.handled.length i) : (s.finish m).PageUse := by
  refine h.hostMoves rfl rfl rfl rfl (fun _ hj => hj.finish) h.source ?_
    (by simp [HostInterface.finish])
  intro j i hi ho
  by_cases hj : j = s.handled.length
  · subst hj
    exact hpage i hi ho
  · exact (h.page j i hi ho).congr rfl rfl (hostAt_finish_ne hj) rfl rfl rfl

/-- The `switch` over the command. -/
theorem Kept.handle (h : s.Kept) (hhost : s.host = .wait_msg msg)
    (hready : (s.msgs msg).msg_ready = true) (horder : (s.handle msg).InOrder) :
    (s.handle msg).Kept := by
  have hslot : s.host.slot = some msg := by rw [hhost]; rfl
  have hat : s.hostAt s.handled.length = .before := by rw [hostAt_self, hhost]; rfl
  have hnot : s.host.at ≠ .notifying := by simp [hhost, HostPc.at]
  obtain ⟨i, hi, hnumber, hcmd⟩ := h.order.current hslot
  have hpassed := h.order.current_ready hslot hready hi
  have hread : i.regs.cmd.isRead = true →
      Kept { s with host := .pci_dma_read msg (List.range (s.msgs msg).size.toNat) } := by
    intro hcmd'
    have hof := h.order.inHand hslot hpassed hi (isDma_of_read hcmd')
    obtain ⟨-, hunready, hpage⟩ := h.page.current_open hi (isDma_of_read hcmd') hnot hpassed
    obtain ⟨hok, hbuild⟩ := hpage.read hcmd' hunready (by simp [hat])
    have hat' : HostInterface.hostAt
        { s with host := .pci_dma_read msg (List.range (s.msgs msg).size.toNat) }
        s.handled.length = .copying (List.range (s.msgs msg).size.toNat) := hostAt_self
    refine ⟨h.order.hostAdvances (hslot.trans rfl), ?_, ?_, ?_⟩
    · apply h.control.hostAdvances hpassed
      intro i' hi'
      cases hi.symm.trans hi'
      refine ⟨hcmd', ?_⟩
      intro x hx
      rw [hof.len] at hx
      exact List.mem_range.mp hx
    · refine h.page.hostAdvances hnot ?_ (by simp)
      intro i' hi' _
      cases hi.symm.trans hi'
      apply hbuild
      · rfl
      · rfl
      · unfold ReadOk at hok ⊢
        rw [hat] at hok
        rw [hat']
        refine ⟨hok, ?_⟩
        intro x hx hxl
        rw [hof.len] at hxl
        exact absurd (List.mem_range.mpr hx) hxl
    · exact h.records.same rfl rfl rfl rfl rfl (fun _ => id) h.records.page_reads
  have hwrite : i.regs.cmd.isWrite = true → Kept { s with host := .wait_data msg } := by
    intro hcmd'
    obtain ⟨-, hunready, hpage⟩ := h.page.current_open hi (isDma_of_write hcmd') hnot hpassed
    have hat' : HostInterface.hostAt { s with host := .wait_data msg } s.handled.length =
        .waiting :=
      hostAt_self
    refine ⟨h.order.hostAdvances (hslot.trans rfl), ?_, ?_, ?_⟩
    · apply h.control.hostAdvances hpassed
      intro i' hi'
      cases hi.symm.trans hi'
      exact hcmd'
    · refine h.page.hostAdvances hnot ?_ (by simp)
      intro i' hi' _
      cases hi.symm.trans hi'
      rcases hpage.write hcmd' hunready with ⟨hok, hbuild⟩ | ⟨hok, hbuild⟩
      · exact hbuild _ rfl rfl rfl ⟨hok.1, Or.inr hat'⟩
      · apply hbuild
        · rfl
        · rfl
        · unfold SentOk at hok ⊢
          rw [hat] at hok
          rw [hat']
          exact hok
    · exact h.records.same rfl rfl rfl rfl rfl (fun _ => id) h.records.page_reads
  unfold HostInterface.handle at horder ⊢
  rw [hcmd] at horder ⊢
  cases hr : i.regs.cmd with
  | PCI_DMA_READ => exact hread (by rw [hr]; rfl)
  | PCI_DMA_SQ_READ => exact hread (by rw [hr]; rfl)
  | PCI_DMA_WRITE => exact hwrite (by rw [hr]; rfl)
  | PCI_DMA_CQ_WRITE => exact hwrite (by rw [hr]; rfl)
  | PCI_ENABLE_MSIX_VECTOR =>
    rw [hr] at horder
    have hpage : PageUse { s with vectors := s.vectors ++ [(s.msgs msg).cqIntVector] } :=
      ⟨h.page.settled, h.page.source, h.page.page, h.page.notify⟩
    have hcontrol : Control { s with vectors := s.vectors ++ [(s.msgs msg).cqIntVector] } :=
      h.control.sameEvents rfl rfl rfl rfl rfl Iff.rfl
    have hnone : ¬ i.regs.cmd.isDma = true := by
      rw [hr]
      simp [HostCmd.isDma, HostCmd.isRead, HostCmd.isWrite]
    refine ⟨horder, hcontrol.finish, ?_, ?_⟩
    · refine hpage.finish ?_
      intro i' hi' ho
      cases hi.symm.trans hi'
      exact (h.page.page _ i hi ho).notDma hnone rfl
    · refine h.records.finish hi [] rfl (by simp [HostInterface.finish]) rfl rfl rfl rfl ?_ ?_ ?_
        (by simp)
      · have hfill := h.order.current_filled hslot hready hi
        have hvector : (s.msgs msg).cqIntVector = i.regs.cqIntVector := by
          rw [← hfill, fillMsg, hr]
        simp [HostInterface.finish, msixVector, hr, hvector]
      · simp [HostInterface.finish]
      · rw [raises_eq hi, hr]
        simp

theorem Open.unique {j' : Nat} (h : s.Open j) (h' : s.Open j') : j' = j := by
  have := h.1
  have := h'.1
  omega

/-- What holds while the host thread fills the page of a read. -/
theorem Kept.reading (h : s.Kept) (hhost : s.host = .pci_dma_read msg left) :
    ∃ i, s.issued[s.handled.length]? = some i ∧ i.regs.cmd.isRead = true ∧
      (∀ y ∈ left, y < i.regs.len) ∧ (s.msgs msg).Of s.handled.length i.regs ∧
      s.Open s.handled.length ∧
      ((s.pages 0).data_status = .data_status_free ∧ s.PageHolds s.handled.length i left) ∧
      ∀ t : HostInterface, t.device = s.device → t.events = s.events →
        t.ReadOk s.handled.length i → t.PageOk s.handled.length i := by
  have hslot : s.host.slot = some msg := by rw [hhost]; rfl
  have hpassed := h.control.passed (by rw [hhost]; rfl)
  have hnot : s.host.at ≠ .notifying := by simp [hhost, HostPc.at]
  have hat : s.hostAt s.handled.length = .copying left := by rw [hostAt_self, hhost]; rfl
  obtain ⟨i, hi, -, -⟩ := h.order.current hslot
  have hserves := h.control.serves i hi
  rw [hhost] at hserves
  obtain ⟨hread, hleft⟩ : i.regs.cmd.isRead = true ∧ ∀ y ∈ left, y < i.regs.len := hserves
  have hof := h.order.inHand hslot hpassed hi (isDma_of_read hread)
  obtain ⟨hopen, hunready, hpage⟩ := h.page.current_open hi (isDma_of_read hread) hnot hpassed
  obtain ⟨hok, hbuild⟩ := hpage.read hread hunready (by simp [hat])
  unfold ReadOk at hok
  rw [hat] at hok
  exact ⟨i, hi, hread, hleft, hof, hopen, hok, hbuild⟩

/-- What holds while the host thread takes the data of a write out of the page: the device
has sent them. -/
theorem Kept.writing (h : s.Kept) (hhost : s.host = .pci_dma_write msg left) :
    ∃ i, s.issued[s.handled.length]? = some i ∧ i.regs.cmd.isWrite = true ∧
      (∀ y ∈ left, y < i.regs.len) ∧ (s.msgs msg).Of s.handled.length i.regs ∧
      s.Open s.handled.length ∧
      ((s.pages 0).data_status = .data_status_ready ∧ s.PageHolds s.handled.length i [] ∧
        s.HostHolds i left) ∧
      ∀ t : HostInterface, t.device = s.device → t.events = s.events →
        t.SentOk s.handled.length i → t.PageOk s.handled.length i := by
  have hslot : s.host.slot = some msg := by rw [hhost]; rfl
  have hpassed := h.control.passed (by rw [hhost]; rfl)
  have hnot : s.host.at ≠ .notifying := by simp [hhost, HostPc.at]
  have hat : s.hostAt s.handled.length = .writing left := by rw [hostAt_self, hhost]; rfl
  obtain ⟨i, hi, -, -⟩ := h.order.current hslot
  have hserves := h.control.serves i hi
  rw [hhost] at hserves
  obtain ⟨hwrite, hleft⟩ : i.regs.cmd.isWrite = true ∧ ∀ y ∈ left, y < i.regs.len := hserves
  have hof := h.order.inHand hslot hpassed hi (isDma_of_write hwrite)
  obtain ⟨hopen, hunready, hpage⟩ := h.page.current_open hi (isDma_of_write hwrite) hnot hpassed
  rcases hpage.write hwrite hunready with ⟨hok, -⟩ | ⟨hok, hbuild⟩
  · have := hok.2
    rw [hat] at this
    rcases this with he | he <;> cases he
  · unfold SentOk at hok
    rw [hat] at hok
    exact ⟨i, hi, hwrite, hleft, hof, hopen, hok, hbuild⟩

/-- The host thread copies for the open command: it needs only that command's page again. -/
theorem PageUse.copies (h : s.PageUse) (hi : s.issued[s.handled.length]? = some i)
    (hopen : s.Open s.handled.length) (hnot : s.host.at ≠ .notifying)
    (hissued : s'.issued = s.issued) (hcompletions : s'.completions = s.completions)
    (hdevice : s'.device = s.device) (hevents : s'.events = s.events)
    (hhandled : s'.handled = s.handled) (hsource : s'.source i.regs = i.bytes)
    (hpage : s'.PageOk s.handled.length i)
    (hnotify : ∀ msg, s'.host = .notify msg → s'.HostHolds i []) : s'.PageUse := by
  refine h.hostMoves hissued hcompletions hdevice hevents ?_ ?_ ?_ ?_
  · intro j hj
    apply hj.mono
    · exact Nat.le_of_eq (by rw [hhandled])
    · intro hn
      exact absurd hn hnot
  · intro j i' hi' _ ho
    cases hopen.unique ho
    cases hi.symm.trans hi'
    exact hsource
  · intro j i' hi' ho
    cases hopen.unique ho
    cases hi.symm.trans hi'
    exact hpage
  · intro msg i' hn hi'
    rw [hhandled] at hi'
    cases hi.symm.trans hi'
    exact hnotify msg hn

/-- The host hands the page of a read to the device. -/
theorem Kept.host_data_ready (h : s.Kept) (hhost : s.host = .pci_dma_read msg [])
    (hstep : s.host_data_ready msg = some s') (horder : s'.InOrder) : s'.Kept := by
  obtain ⟨i, hi, hread, -, hof, hopen, ⟨-, hholds⟩, hbuild⟩ := h.reading hhost
  obtain ⟨page, hget, hstep⟩ := Option.bind_eq_some_iff.mp hstep
  rw [hof.page] at hget
  cases hget
  cases hstep
  have hcontrol : (s.setDataStatus 0 .data_status_ready).Control :=
    h.control.sameEvents rfl rfl rfl rfl rfl Iff.rfl
  have hat' : ((s.setDataStatus 0 .data_status_ready).finish (s.msgs msg)).hostAt
      s.handled.length = .done := hostAt_finish_self (s := s.setDataStatus 0 .data_status_ready)
  refine ⟨horder, hcontrol.finish, ?_, ?_⟩
  · refine h.page.hostMoves rfl rfl rfl rfl ?_ h.page.source ?_ (by simp [HostInterface.finish])
    · intro j hj
      exact PageDone.finish (s := s.setDataStatus 0 .data_status_ready) hj
    · intro j i' hi' ho
      cases hopen.unique ho
      cases hi.symm.trans hi'
      apply hbuild
      · rfl
      · rfl
      · unfold ReadOk
        rw [hat']
        refine ⟨by simp [HostInterface.finish, setDataStatus], ?_⟩
        intro x hx hxl
        simp only [HostInterface.finish, setDataStatus, Function.update_self]
        exact hholds x hx hxl
  · refine h.records.finish hi [] rfl (by simp [HostInterface.finish, setDataStatus]) rfl rfl rfl
      rfl ?_ ?_ ?_ (by simp)
    · rw [msixVector_dma (isDma_of_read hread)]
      simp [HostInterface.finish, setDataStatus]
    · simp [HostInterface.finish, setDataStatus]
    · rw [raises_read hi hread]
      rfl

/-- The data of a write are in the page. -/
theorem Kept.wait_data (h : s.Kept) (hhost : s.host = .wait_data msg)
    (hstep : s.wait_data msg = some s') : s'.Kept := by
  have hslot : s.host.slot = some msg := by rw [hhost]; rfl
  have hpassed := h.control.passed (by rw [hhost]; rfl)
  have hnot : s.host.at ≠ .notifying := by simp [hhost, HostPc.at]
  have hat : s.hostAt s.handled.length = .waiting := by rw [hostAt_self, hhost]; rfl
  obtain ⟨i, hi, -, -⟩ := h.order.current hslot
  have hwrite := h.control.serves i hi
  rw [hhost] at hwrite
  have hof := h.order.inHand hslot hpassed hi (isDma_of_write hwrite)
  obtain ⟨-, hunready, hpage⟩ := h.page.current_open hi (isDma_of_write hwrite) hnot hpassed
  obtain ⟨page, hget, hstep⟩ := Option.bind_eq_some_iff.mp hstep
  rw [hof.page] at hget
  cases hget
  split at hstep <;> cases hstep
  rename_i hready
  have hat' : HostInterface.hostAt
      { s with host := .pci_dma_write msg (List.range (s.msgs msg).size.toNat) }
      s.handled.length = .writing (List.range (s.msgs msg).size.toNat) := hostAt_self
  refine ⟨h.order.hostAdvances (hslot.trans rfl), ?_, ?_, ?_⟩
  · apply h.control.hostAdvances hpassed
    intro i' hi'
    cases hi.symm.trans hi'
    refine ⟨hwrite, ?_⟩
    intro x hx
    rw [hof.len] at hx
    exact List.mem_range.mp hx
  · refine h.page.hostAdvances hnot ?_ (by simp)
    intro i' hi' _
    cases hi.symm.trans hi'
    rcases hpage.write hwrite hunready with ⟨hok, -⟩ | ⟨hok, hbuild⟩
    · have := hok.1
      rw [hready] at this
      cases this
    · apply hbuild
      · rfl
      · rfl
      · unfold SentOk at hok ⊢
        rw [hat] at hok
        rw [hat']
        refine ⟨hok.1, hok.2, ?_⟩
        intro x hx hxl
        rw [hof.len] at hxl
        exact absurd (List.mem_range.mpr hx) hxl
  · exact h.records.same rfl rfl rfl rfl rfl (fun _ => id) h.records.page_reads

/-- The host gives the page of a write back. -/
theorem Kept.host_data_used (h : s.Kept) (hhost : s.host = .pci_dma_write msg [])
    (hstep : s.host_data_used msg = some s') (horder : s'.InOrder) : s'.Kept := by
  have hpassed := h.control.passed (by rw [hhost]; rfl)
  have hnot : s.host.at ≠ .notifying := by simp [hhost, HostPc.at]
  obtain ⟨i, hi, hwrite, -, hof, hopen, ⟨-, -, hmem⟩, hbuild⟩ := h.writing hhost
  obtain ⟨page, hget, hstep⟩ := Option.bind_eq_some_iff.mp hstep
  rw [hof.page] at hget
  cases hget
  cases hstep
  have hcontrol : (s.setDataStatus 0 .data_status_used).Control :=
    h.control.sameEvents rfl rfl rfl rfl rfl Iff.rfl
  refine ⟨horder, ?_, ?_, ?_⟩
  · apply hcontrol.hostAdvances hpassed
    intro i' hi'
    cases hi.symm.trans hi'
    exact hwrite
  · refine h.page.copies hi hopen hnot rfl rfl rfl rfl rfl ?_ ?_ ?_
    · exact h.page.source _ i hi (isDma_of_write hwrite) hopen
    · apply hbuild
      · rfl
      · rfl
      · have hat' : HostInterface.hostAt { s.setDataStatus 0 .data_status_used with
            host := .notify msg } s.handled.length = .notifying := hostAt_self
        unfold SentOk
        rw [hat']
        exact ⟨by simp [setDataStatus], hmem⟩
    · intro m _
      exact hmem
  · exact h.records.same rfl rfl rfl rfl rfl (fun _ => id) h.records.page_reads

/-- The interrupt of a completion comes after its data. -/
theorem Kept.notify (h : s.Kept) (hhost : s.host = .notify msg)
    (horder : ((s.notifyHost (s.msgs msg)).finish (s.msgs msg)).InOrder) :
    ((s.notifyHost (s.msgs msg)).finish (s.msgs msg)).Kept := by
  have hslot : s.host.slot = some msg := by rw [hhost]; rfl
  have hpassed := h.control.passed (by rw [hhost]; rfl)
  have hat : s.hostAt s.handled.length = .notifying := by rw [hostAt_self, hhost]; rfl
  obtain ⟨i, hi, -, hcmd⟩ := h.order.current hslot
  have hwrite := h.control.serves i hi
  rw [hhost] at hwrite
  have hdma := isDma_of_write hwrite
  have hof := h.order.inHand hslot hpassed hi hdma
  have hdata := h.page.notify msg i hhost hi
  have hbytes : bytesAt s.host_mem i.regs.hostAddr i.regs.len = i.bytes :=
    bytesAt_eq (h.control.bytes i (List.mem_of_getElem? hi)) fun x hx => hdata x hx List.not_mem_nil
  -- Whether or not it is raised, the interrupt changes only the records.
  have hsame : ∃ new, s.notifyHost (s.msgs msg) = { s with interrupts := s.interrupts ++ new } ∧
      new.map (·.number) = (if raises s.issued s.handled.length then [s.handled.length] else []) ∧
      ∀ e ∈ new, ∃ i, s.issued[e.number]? = some i ∧ e.vector = i.regs.cqIntVector ∧
        e.host = i.bytes := by
    rw [raises_eq hi]
    unfold notifyHost
    rw [hof.cmd]
    by_cases hcq : i.regs.cmd = .PCI_DMA_CQ_WRITE
    · obtain ⟨hvector, hnotify⟩ := h.order.inHand_cq hslot hpassed hi hcq
      rw [hnotify]
      by_cases hisr : i.regs.isr_notify = 0
      · refine ⟨[], ?_, ?_, by simp⟩
        · simp [hisr]
        · simp [hisr]
      · refine ⟨_, if_pos ⟨hcq, hisr⟩, ?_, ?_⟩
        · simp [hcq, hisr, hof.number]
        · intro e he
          rw [List.mem_singleton.mp he]
          refine ⟨i, ?_, hvector, ?_⟩
          · rw [hof.number]
            exact hi
          · rw [hof.addr, hof.len]
            exact hbytes
    · refine ⟨[], ?_, ?_, by simp⟩
      · simp [hcq]
      · simp [hcq]
  obtain ⟨new, hnotify, hnumbers, hgood⟩ := hsame
  rw [hnotify] at horder ⊢
  have hcontrol : Control { s with interrupts := s.interrupts ++ new } :=
    h.control.sameEvents rfl rfl rfl rfl rfl Iff.rfl
  have hat' : (HostInterface.finish { s with interrupts := s.interrupts ++ new }
      (s.msgs msg)).hostAt s.handled.length = .done :=
    hostAt_finish_self (s := { s with interrupts := s.interrupts ++ new })
  refine ⟨horder, hcontrol.finish, ?_, ?_⟩
  · refine h.page.hostMoves rfl rfl rfl rfl ?_ h.page.source ?_ (by simp [HostInterface.finish])
    · intro j hj
      exact PageDone.finish (s := { s with interrupts := s.interrupts ++ new }) hj
    · intro j i' hi' ho
      by_cases hj : j = s.handled.length
      · subst hj
        cases hi.symm.trans hi'
        have hunready : s.device.unready = 0 := by
          have := ho.1
          omega
        rcases (h.page.page _ i hi ho).write hwrite hunready with ⟨hok, -⟩ | ⟨hok, hbuild⟩
        · have := hok.2
          rw [hat] at this
          rcases this with he | he <;> cases he
        · apply hbuild
          · rfl
          · rfl
          · unfold SentOk at hok ⊢
            rw [hat] at hok
            rw [hat']
            exact hok
      · exact (h.page.page j i' hi' ho).congr rfl rfl
          (hostAt_finish_ne (s := { s with interrupts := s.interrupts ++ new }) hj) rfl rfl rfl
  · refine h.records.finish hi new rfl (by simp [HostInterface.finish]) rfl rfl rfl rfl ?_ rfl
      hnumbers hgood
    rw [msixVector_dma hdma]
    simp [HostInterface.finish]

theorem Kept.hostStep (h : s.Kept) (hstep : s.hostStep = some s') : s'.Kept := by
  have horder := h.order.hostStep hstep
  unfold HostInterface.hostStep at hstep
  cases hhost : s.host with
  | idle =>
    rw [hhost] at hstep
    exact h.deQueueSSDMsg hhost hstep
  | wait_msg msg =>
    rw [hhost] at hstep
    dsimp only at hstep
    split at hstep <;> cases hstep
    rename_i hready
    exact h.handle hhost hready horder
  | pci_dma_read msg left =>
    rw [hhost] at hstep
    cases left with
    | nil => exact h.host_data_ready hhost hstep horder
    | cons x left => cases hstep
  | wait_data msg =>
    rw [hhost] at hstep
    exact h.wait_data hhost hstep
  | pci_dma_write msg left =>
    rw [hhost] at hstep
    cases left with
    | nil => exact h.host_data_used hhost hstep horder
    | cons x left => cases hstep
  | notify msg =>
    rw [hhost] at hstep
    cases hstep
    exact h.notify hhost horder

/-! ## The bytes that the thread copies -/

theorem Kept.readHostByte (h : s.Kept) {x : Nat} (hhost : s.host = .pci_dma_read msg left)
    (hstep : s.readHostByte msg left x = some s') (horder : s'.InOrder) : s'.Kept := by
  have hpassed := h.control.passed (by rw [hhost]; rfl)
  have hnot : s.host.at ≠ .notifying := by simp [hhost, HostPc.at]
  obtain ⟨i, hi, hread, hleft, hof, hopen, hok, hbuild⟩ := h.reading hhost
  obtain ⟨page, hget, hstep⟩ := Option.bind_eq_some_iff.mp hstep
  rw [hof.page] at hget
  cases hget
  dsimp only at hstep
  split at hstep <;> cases hstep
  rename_i hx
  have hbyte : s.host_mem ((s.msgs msg).dma_addr.toNat + x) = i.byte x := by
    have hsource := h.page.source _ i hi (isDma_of_read hread) hopen
    rw [source_eq_host hread] at hsource
    rw [hof.addr]
    exact byte_of_bytesAt hsource (hleft x hx.1)
  have hpages : ∀ t : HostInterface, t.pages = (s.fillPage 0 x
      (s.host_mem ((s.msgs msg).dma_addr.toNat + x)) (s.msgs msg).number).pages →
      (t.pages 0).data_status = .data_status_free ∧
        t.PageHolds s.handled.length i (left.filter (· ≠ x)) := by
    intro t ht
    refine ⟨?_, hok.2.fill hbyte (by rw [ht, hof.number])⟩
    rw [ht]
    simp only [fillPage, Function.update_self]
    exact hok.1
  refine ⟨horder, ?_, ?_, ?_⟩
  · have hcontrol : (s.fillPage 0 x (s.host_mem ((s.msgs msg).dma_addr.toNat + x))
        (s.msgs msg).number).Control := h.control.sameEvents rfl rfl rfl rfl rfl Iff.rfl
    apply hcontrol.hostAdvances hpassed
    intro i' hi'
    cases hi.symm.trans hi'
    refine ⟨hread, ?_⟩
    intro y hy
    exact hleft y (List.mem_filter.mp hy).1
  · refine h.page.copies hi hopen hnot rfl rfl rfl rfl rfl ?_ ?_ (by simp)
    · exact h.page.source _ i hi (isDma_of_read hread) hopen
    · apply hbuild
      · rfl
      · rfl
      · have hat' : HostInterface.hostAt { s.fillPage 0 x
            (s.host_mem ((s.msgs msg).dma_addr.toNat + x)) (s.msgs msg).number with
            host := .pci_dma_read msg (left.filter (· ≠ x)) } s.handled.length =
              .copying (left.filter (· ≠ x)) := hostAt_self
        unfold ReadOk
        rw [hat']
        exact hpages _ rfl
  · exact h.records.same rfl rfl rfl rfl rfl (fun _ => id) h.records.page_reads

theorem Kept.writeHostByte (h : s.Kept) {x : Nat} (hhost : s.host = .pci_dma_write msg left)
    (hstep : s.writeHostByte msg left x = some s') (horder : s'.InOrder) : s'.Kept := by
  have hpassed := h.control.passed (by rw [hhost]; rfl)
  have hnot : s.host.at ≠ .notifying := by simp [hhost, HostPc.at]
  obtain ⟨i, hi, hwrite, hleft, hof, hopen, ⟨hready, hholds, hmem⟩, hbuild⟩ := h.writing hhost
  obtain ⟨page, hget, hstep⟩ := Option.bind_eq_some_iff.mp hstep
  rw [hof.page] at hget
  cases hget
  dsimp only at hstep
  split at hstep <;> cases hstep
  rename_i hx
  have hbyte := hholds x (hleft x hx.1) List.not_mem_nil
  refine ⟨horder, ?_, ?_, ?_⟩
  · have hcontrol : Control { s.readPage 0 x (s.msgs msg).number with
        host_mem := Function.update s.host_mem ((s.msgs msg).dma_addr.toNat + x)
          ((s.pages 0).data x) } := h.control.sameEvents rfl rfl rfl rfl rfl Iff.rfl
    apply hcontrol.hostAdvances hpassed
    intro i' hi'
    cases hi.symm.trans hi'
    refine ⟨hwrite, ?_⟩
    intro y hy
    exact hleft y (List.mem_filter.mp hy).1
  · refine h.page.copies hi hopen hnot rfl rfl rfl rfl rfl ?_ ?_ (by simp)
    · have hsource := h.page.source _ i hi (isDma_of_write hwrite) hopen
      rw [source_eq_ssd hwrite] at hsource ⊢
      exact hsource
    · apply hbuild
      · rfl
      · rfl
      · have hat' : HostInterface.hostAt { s.readPage 0 x (s.msgs msg).number with
            host_mem := Function.update s.host_mem ((s.msgs msg).dma_addr.toNat + x)
              ((s.pages 0).data x)
            host := .pci_dma_write msg (left.filter (· ≠ x)) } s.handled.length =
              .writing (left.filter (· ≠ x)) := hostAt_self
        unfold SentOk
        rw [hat']
        refine ⟨hready, hholds, ?_⟩
        unfold HostHolds
        rw [hof.addr]
        exact holds_fill hmem hbyte.1
  · refine h.records.same rfl rfl rfl rfl rfl (fun _ => id) (h.records.readPage ?_)
    rw [hof.number, hbyte.2]

theorem Kept.hostCopy (h : s.Kept) {x : Nat} (hstep : s.hostCopy x = some s') : s'.Kept := by
  have horder := h.order.same (hostCopy_view hstep)
  unfold HostInterface.hostCopy at hstep
  split at hstep
  · rename_i msg left hhost
    exact h.readHostByte hhost hstep horder
  · rename_i msg left hhost
    exact h.writeHostByte hhost hstep horder
  · cases hstep

/-! ## Stores of others -/

theorem holds_store {mem : Nat → UInt8} {b n c : Nat} {v : UInt8} (hc : ¬ (b ≤ c ∧ c < b + n))
    (h : ∀ y, y < n → y ∉ left → mem (b + y) = i.byte y) :
    ∀ y, y < n → y ∉ left → Function.update mem c v (b + y) = i.byte y := by
  intro y hy hyl
  rw [Function.update_of_ne (by omega)]
  exact h y hy hyl

theorem bytesAt_store {mem : Nat → UInt8} {b n c : Nat} {v : UInt8} (hc : ¬ (b ≤ c ∧ c < b + n)) :
    bytesAt (Function.update mem c v) b n = bytesAt mem b n := by
  unfold bytesAt
  apply List.map_congr_left
  intro y hy
  have := List.mem_range.mp hy
  rw [Function.update_of_ne (by omega)]

/-- The address is among those that the command has in host memory. -/
def TouchesHost (i : IssuedCmd) (c : Nat) : Prop :=
  i.regs.hostAddr ≤ c ∧ c < i.regs.hostAddr + i.regs.len

def TouchesSsd (i : IssuedCmd) (c : Nat) : Prop :=
  i.regs.ssdBase ≤ c ∧ c < i.regs.ssdBase + i.regs.len

theorem Kept.host_store (h : s.Kept) {c : Nat} {v : UInt8}
    (hok : ∀ j i, s.issued[j]? = some i → i.regs.cmd.isDma = true →
      s.Open j ∨ s.handled.length ≤ j → ¬ TouchesHost i c) :
    Kept { s with host_mem := Function.update s.host_mem c v } := by
  refine ⟨h.order.same rfl, h.control.sameEvents rfl rfl rfl rfl rfl Iff.rfl, ?_, ?_⟩
  · refine h.page.hostMoves rfl rfl rfl rfl (fun _ => id) ?_ ?_ ?_
    · intro j i hi hdma ho
      have hsource := h.page.source j i hi hdma ho
      by_cases hread : i.regs.cmd.isRead = true
      · rw [source_eq_host hread] at hsource ⊢
        rw [← hsource]
        exact bytesAt_store (hok j i hi hdma (Or.inl ho))
      · have hwrite : i.regs.cmd.isWrite = true := by
          simpa [HostCmd.isDma, hread] using hdma
        rw [source_eq_ssd hwrite] at hsource ⊢
        exact hsource
    · intro j i hi ho
      by_cases hdma : i.regs.cmd.isDma = true
      · exact (h.page.page j i hi ho).keeps rfl rfl rfl rfl
          (fun left => holds_store (hok j i hi hdma (Or.inl ho))) (fun _ => id)
      · exact (h.page.page j i hi ho).notDma hdma rfl
    · intro msg i hn hi
      have hwrite := h.control.serves i hi
      rw [show s.host = .notify msg from hn] at hwrite
      exact holds_store (hok _ i hi (isDma_of_write hwrite) (Or.inr (Nat.le_refl _)))
        (h.page.notify msg i hn hi)
  · exact h.records.same rfl rfl rfl rfl rfl (fun _ => id) h.records.page_reads

theorem Kept.ssd_store (h : s.Kept) {c : Nat} {v : UInt8}
    (hok : ∀ j i, s.issued[j]? = some i → i.regs.cmd.isDma = true → s.Open j → ¬ TouchesSsd i c) :
    Kept { s with ssd_mem := Function.update s.ssd_mem c v } := by
  refine ⟨h.order.same rfl, h.control.sameEvents rfl rfl rfl rfl rfl Iff.rfl, ?_, ?_⟩
  · refine h.page.hostMoves rfl rfl rfl rfl (fun _ => id) ?_ ?_ h.page.notify
    · intro j i hi hdma ho
      have hsource := h.page.source j i hi hdma ho
      by_cases hread : i.regs.cmd.isRead = true
      · rw [source_eq_host hread] at hsource ⊢
        exact hsource
      · have hwrite : i.regs.cmd.isWrite = true := by
          simpa [HostCmd.isDma, hread] using hdma
        rw [source_eq_ssd hwrite] at hsource ⊢
        rw [← hsource]
        exact bytesAt_store (hok j i hi hdma ho)
    · intro j i hi ho
      by_cases hdma : i.regs.cmd.isDma = true
      · exact (h.page.page j i hi ho).keeps rfl rfl rfl rfl (fun _ => id)
          (fun left => holds_store (hok j i hi hdma ho))
      · exact (h.page.page j i hi ho).notDma hdma rfl
  · exact h.records.same rfl rfl rfl rfl rfl (fun _ => id) h.records.page_reads

/-! ## The whole system -/

/-- A command, of whatever kind, waits until no command is `PROCESSING` and the ring has
room, and moves at most one page. Nobody else stores into the bytes of a command that is
open, or that the host still has to handle. -/
def CommandsWait (s : HostInterface) : HostIfAction → Prop
  | .issue r => s.cmdStatus ≠ .PROCESSING ∧
      s.issued.length + 1 < s.handled.length + SSDMsgQueueSize ∧ r.len ≤ INTERFACE_DMA_PAGE_SIZE
  | .host_store c _ => ∀ j i, s.issued[j]? = some i → i.regs.cmd.isDma = true →
      s.Open j ∨ s.handled.length ≤ j → ¬ TouchesHost i c
  | .ssd_store c _ => ∀ j i, s.issued[j]? = some i → i.regs.cmd.isDma = true → s.Open j →
      ¬ TouchesSsd i c
  | .device | .event _ | .dma _ _ | .host | .host_copy _ => True

theorem Kept.step (h : s.Kept) (hok : CommandsWait s a) (hstep : hostIfStep s a = some s') :
    s'.Kept := by
  cases a with
  | issue r =>
    obtain ⟨hstatus, hroom, hlen⟩ := hok
    simp only [hostIfStep] at hstep
    split at hstep <;> cases hstep
    rename_i hidle
    refine ⟨h.order.issue hidle, h.control.issue hidle hstatus hroom hlen,
      h.page.issue h.control hidle hstatus, h.records.issue ?_⟩
    have hqueued := h.order.queued
    unfold dequeued at hqueued
    omega
  | device =>
    exact ⟨h.order.deviceStep hstep, h.control.deviceStep h.order hstep,
      h.page.deviceStep h.control h.order hstep, h.records.deviceStep hstep⟩
  | event k =>
    simp only [hostIfStep] at hstep
    split at hstep
    · rename_i hidle
      exact h.eventStep hidle hstep
    · cases hstep
  | dma k x =>
    simp only [hostIfStep] at hstep
    split at hstep
    · rename_i hidle
      exact h.dmaStep hidle hstep
    · cases hstep
  | host => exact h.hostStep hstep
  | host_copy x => exact h.hostCopy hstep
  | host_store c v =>
    cases hstep
    exact h.host_store hok
  | ssd_store c v =>
    cases hstep
    exact h.ssd_store hok

theorem kept_initial (r : HostCmdReg) (msgs : Nat → SsdMsg) (pages : Nat → PageReg)
    (host_mem ssd_mem : Nat → UInt8) : (initialHostIf r msgs pages host_mem ssd_mem).Kept := by
  refine ⟨inOrder_initial r msgs pages host_mem ssd_mem, ?_, ?_, ?_⟩
  · refine ⟨?_, ?_, ?_, ?_, ?_, ?_, ?_, ?_, ?_⟩ <;> simp [initialHostIf, HostPc.passed]
  · refine ⟨?_, ?_, ?_, ?_⟩ <;> simp [initialHostIf]
  · refine ⟨?_, ?_, ?_, ?_, ?_, ?_, ?_⟩ <;> simp [initialHostIf]

end HostInterface

end S4Sim
