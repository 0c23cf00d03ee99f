-- The two sides never wait for each other for ever. `work` counts the steps that
-- the issued commands still need: every step of a side takes one or more from
-- it, and while a command is not done one of the sides can step.
import S4Sim.HostInterface.HostThread

namespace S4Sim

open Runs

/-! ## The steps that are left -/

def DevicePc.steps : DevicePc → Nat
  | .idle | .panic => 0
  | .enQueuePageRegister => 6
  | .enQueueSSDMsg => 5
  | .move_tail _ => 4
  | .fill _ => 3
  | .set_ready _ => 2
  | .set_status _ => 1

def DeviceEvent.work (len : Nat) : DeviceEvent → Nat
  | .read_host_complete _ => len + 2
  | .write_ssd_complete _ left => left.length + 1
  | .read_ssd_complete _ left => left.length + 2
  | .write_host_complete _ => 1

def HostPc.work (len : Nat) : HostPc → Nat
  | .idle => 0
  | .wait_msg _ => len + 4
  | .pci_dma_read _ left => left.length + 1
  | .wait_data _ => len + 3
  | .pci_dma_write _ left => left.length + 2
  | .notify _ => 1

/-- A step of one of the two sides, and not a new command or a store of another. -/
def HostIfAction.ofSides : HostIfAction → Bool
  | .device | .event _ | .dma _ _ | .host | .host_copy _ => true
  | .issue _ | .host_store _ _ | .ssd_store _ _ => false

namespace HostInterface

/-- The bytes of the command with the number. -/
def lenAt (s : HostInterface) (j : Nat) : Nat := (s.issued[j]?.map fun i => i.regs.len).getD 0

def deviceWork (s : HostInterface) : Nat :=
  match s.device with
  | .idle | .panic => 0
  | pc => pc.steps + s.lenAt (s.issued.length - 1) + 3

def eventWork (s : HostInterface) : Nat :=
  (s.events.map fun e => e.work (s.lenAt (s.issued.length - 1))).sum

def hostWork (s : HostInterface) : Nat := s.host.work (s.lenAt s.handled.length)

def queueWork (s : HostInterface) : Nat :=
  ((s.issued.drop s.dequeued).map fun i => i.regs.len + 5).sum

def work (s : HostInterface) : Nat := s.deviceWork + s.eventWork + s.hostWork + s.queueWork

variable {s s' : HostInterface} {a : HostIfAction} {msg page j : Nat} {i : IssuedCmd}
  {left : List Nat}

theorem lenAt_eq (hi : s.issued[j]? = some i) : s.lenAt j = i.regs.len := by
  simp [lenAt, hi]

theorem length_filter_lt {x : Nat} (hx : x ∈ left) :
    (left.filter (· ≠ x)).length < left.length := by
  apply List.length_filter_lt_length_iff_exists.mpr
  exact ⟨x, hx, by simp⟩

/-- A step of the device side alone. -/
theorem work_lt_of_device (hhost : s'.hostWork + s'.queueWork = s.hostWork + s.queueWork)
    (hlt : s'.deviceWork + s'.eventWork < s.deviceWork + s.eventWork) : s'.work < s.work := by
  unfold work
  omega

/-- A step of the host alone. -/
theorem work_lt_of_host (hdevice : s'.deviceWork + s'.eventWork = s.deviceWork + s.eventWork)
    (hlt : s'.hostWork + s'.queueWork < s.hostWork + s.queueWork) : s'.work < s.work := by
  unfold work
  omega

/-! ## Every step takes from the work -/

theorem Kept.startDma_work (h : s.Kept) (hd : s.device = .set_status msg) :
    HostInterface.work { s.startDma msg with device := .idle } < s.work := by
  have hevents := h.control.quiet (by simp [hd])
  obtain ⟨last, hlast, hregs⟩ := h.order.started (by simp [hd])
  have hpos := (List.getElem?_eq_some_iff.mp hlast).1
  have hslot := h.order.device_slot msg (by rw [hd]; rfl)
  have hmsg : s.Registers.cmd.isDma = true →
      (s.msgs msg).size.toNat = s.lenAt (s.issued.length - 1) := by
    intro hdma
    rw [← hregs] at hdma
    rw [hslot, lenAt_eq hlast]
    exact (h.order.newest (by rw [hd]; rfl) hlast (by omega) hdma).len
  have hwork : s.deviceWork + s.eventWork = s.lenAt (s.issued.length - 1) + 4 := by
    simp [deviceWork, eventWork, hd, hevents, DevicePc.steps]
    omega
  apply work_lt_of_device
  · unfold HostInterface.startDma
    split <;> rfl
  · rw [hwork]
    unfold HostInterface.startDma
    cases hcmd : s.Registers.cmd <;> rw [hcmd] at hmsg <;>
      simp only [deviceWork, eventWork, hevents, List.nil_append, List.map_cons, List.map_nil,
        List.sum_cons, List.sum_nil, DeviceEvent.work, List.length_range]
    · show 0 + (s.lenAt (s.issued.length - 1) + 2 + 0) < s.lenAt (s.issued.length - 1) + 4
      omega
    · rw [hmsg rfl]
      omega
    · show 0 + (s.lenAt (s.issued.length - 1) + 2 + 0) < s.lenAt (s.issued.length - 1) + 4
      omega
    · rw [hmsg rfl]
      omega
    · omega

theorem Kept.deviceStep_work (h : s.Kept) (hstep : s.deviceStep = some s') : s'.work < s.work := by
  have hquiet : s.device ≠ .idle → s.events = [] := h.control.quiet
  unfold HostInterface.deviceStep at hstep
  cases hd : s.device <;> rw [hd] at hstep <;> dsimp only at hstep
  case idle => cases hstep
  case panic => cases hstep
  case enQueueSSDMsg =>
    rw [if_neg (h.order.not_full h.control hd)] at hstep
    cases hstep
    apply work_lt_of_device
    · rfl
    · simp [deviceWork, eventWork, hd, DevicePc.steps, writeSlot, lenAt]
  case set_status msg =>
    cases hstep
    exact h.startDma_work hd
  all_goals
    cases hstep
    apply work_lt_of_device
    · rfl
    · simp [deviceWork, eventWork, hd, DevicePc.steps, HostInterface.enQueuePageRegister, setMsg,
        lenAt]

theorem Open.lenAt (h : s.Open j) (hi : s.issued[j]? = some i) :
    s.lenAt (s.issued.length - 1) = i.regs.len := by
  have := h.1
  rw [show s.issued.length - 1 = j by omega]
  exact lenAt_eq hi

/-- The one event gives way to the next. -/
theorem work_lt_of_event {e : DeviceEvent} (hevents : s.events = [e])
    (hhost : s'.hostWork + s'.queueWork = s.hostWork + s.queueWork)
    (hdevice : s'.deviceWork = s.deviceWork)
    (hlt : s'.eventWork < e.work (s.lenAt (s.issued.length - 1))) : s'.work < s.work := by
  apply work_lt_of_device hhost
  have he : s.eventWork = e.work (s.lenAt (s.issued.length - 1)) := by simp [eventWork, hevents]
  omega

theorem Kept.eventStep_work (h : s.Kept) (hidle : s.device = .idle) {k : Nat}
    (hstep : s.eventStep k = some s') : s'.work < s.work := by
  unfold HostInterface.eventStep at hstep
  split at hstep
  · rename_i msg he
    obtain ⟨j, i, hevents, rfl, hi, hopen, hmsg, hread, -⟩ := h.page.event h.control hidle he
    have hof := h.order.ofOpen hidle hi hopen (isDma_of_read hread) hmsg
    obtain ⟨page, -, hstep⟩ := Option.bind_eq_some_iff.mp hstep
    split at hstep <;> cases hstep
    apply work_lt_of_event hevents
    · rfl
    · rfl
    · simp [eventWork, setEvent, hevents, DeviceEvent.work, hof.len, hopen.lenAt hi]
  · rename_i msg he
    obtain ⟨j, i, hevents, rfl, -⟩ := h.page.event h.control hidle he
    obtain ⟨page, -, hstep⟩ := Option.bind_eq_some_iff.mp hstep
    cases hstep
    apply work_lt_of_event hevents
    · rfl
    · rfl
    · simp [eventWork, HostInterface.complete, setDataStatus, hevents, DeviceEvent.work]
  · rename_i msg he
    obtain ⟨j, i, hevents, rfl, -⟩ := h.page.event h.control hidle he
    obtain ⟨page, -, hstep⟩ := Option.bind_eq_some_iff.mp hstep
    cases hstep
    apply work_lt_of_event hevents
    · rfl
    · rfl
    · simp [eventWork, setEvent, setDataStatus, hevents, DeviceEvent.work]
  · rename_i msg he
    obtain ⟨j, i, hevents, rfl, -⟩ := h.page.event h.control hidle he
    obtain ⟨page, -, hstep⟩ := Option.bind_eq_some_iff.mp hstep
    split at hstep <;> cases hstep
    apply work_lt_of_event hevents
    · rfl
    · rfl
    · simp [eventWork, HostInterface.complete, hevents, DeviceEvent.work]
  · cases hstep

theorem Kept.dmaStep_work (h : s.Kept) (hidle : s.device = .idle) {k x : Nat}
    (hstep : s.dmaStep k x = some s') : s'.work < s.work := by
  unfold HostInterface.dmaStep at hstep
  split at hstep
  · rename_i msg left he
    obtain ⟨j, i, hevents, rfl, -⟩ := h.page.event h.control hidle he
    obtain ⟨page, -, hstep⟩ := Option.bind_eq_some_iff.mp hstep
    dsimp only at hstep
    split at hstep <;> cases hstep
    rename_i hx
    have hlt := length_filter_lt hx.1
    apply work_lt_of_event hevents
    · rfl
    · rfl
    · simp only [eventWork, setEvent, readPage, hevents, List.set_cons_zero, List.map_cons,
        List.map_nil, List.sum_cons, List.sum_nil, DeviceEvent.work]
      omega
  · rename_i msg left he
    obtain ⟨j, i, hevents, rfl, -⟩ := h.page.event h.control hidle he
    obtain ⟨page, -, hstep⟩ := Option.bind_eq_some_iff.mp hstep
    dsimp only at hstep
    split at hstep <;> cases hstep
    rename_i hx
    have hlt := length_filter_lt hx.1
    apply work_lt_of_event hevents
    · rfl
    · rfl
    · simp only [eventWork, setEvent, fillPage, hevents, List.set_cons_zero, List.map_cons,
        List.map_nil, List.sum_cons, List.sum_nil, DeviceEvent.work]
      omega
  · cases hstep

theorem queueWork_congr (hissued : s'.issued = s.issued) (hdeq : s'.dequeued = s.dequeued) :
    s'.queueWork = s.queueWork := by
  rw [queueWork, queueWork, hissued, hdeq]

/-- A move of the host with the message in hand. -/
theorem work_lt_of_move (hissued : s'.issued = s.issued) (hdeq : s'.dequeued = s.dequeued)
    (hdevice : s'.deviceWork + s'.eventWork = s.deviceWork + s.eventWork)
    (hlt : s'.hostWork < s.hostWork) : s'.work < s.work := by
  apply work_lt_of_host hdevice
  have := queueWork_congr hissued hdeq
  omega

theorem Kept.deQueue_work (h : s.Kept) (hhost : s.host = .idle)
    (hstep : s.deQueueSSDMsg = some s') : s'.work < s.work := by
  unfold HostInterface.deQueueSSDMsg at hstep
  split at hstep <;> cases hstep
  rename_i hne
  have hdeq : s.dequeued = s.handled.length := HostInterface.dequeued_idle hhost
  have hqueued := h.order.queued
  have hlt : s.handled.length < s.issued.length := by
    have hmoved : s.dequeued ≠ s.issued.length - s.device.unqueued := by
      intro he
      apply hne
      rw [h.order.head, h.order.tail, he]
    omega
  apply work_lt_of_host
  · rfl
  · have hbefore : s.hostWork + s.queueWork = s.lenAt s.handled.length + 5 +
        ((s.issued.drop (s.handled.length + 1)).map fun i => i.regs.len + 5).sum := by
      rw [queueWork, hdeq, List.drop_eq_getElem_cons hlt, List.map_cons, List.sum_cons,
        lenAt_eq (List.getElem?_eq_getElem hlt)]
      simp [hostWork, hhost, HostPc.work]
    rw [hbefore]
    show s.lenAt s.handled.length + 4 +
      ((s.issued.drop (s.handled.length + 1)).map fun i => i.regs.len + 5).sum < _
    omega

/-- The end of a message leaves nothing of it to do. -/
theorem finish_work {m : SsdMsg} (hslot : s.host.slot = some msg) (hpos : 0 < s.hostWork) :
    (s.finish m).work < s.work := by
  apply work_lt_of_move
  · rfl
  · rw [dequeued, dequeued, hslot]
    simp [HostInterface.finish, HostPc.slot]
  · rfl
  · exact hpos

theorem Kept.handle_work (h : s.Kept) (hhost : s.host = .wait_msg msg)
    (hready : (s.msgs msg).msg_ready = true) : (s.handle msg).work < s.work := by
  have hslot : s.host.slot = some msg := by rw [hhost]; rfl
  obtain ⟨i, hi, -, hcmd⟩ := h.order.current hslot
  have hpassed := h.order.current_ready hslot hready hi
  have hwork : s.hostWork = i.regs.len + 4 := by
    rw [hostWork, hhost, lenAt_eq hi]
    rfl
  have hread : i.regs.cmd.isRead = true → HostInterface.work
      { s with host := .pci_dma_read msg (List.range (s.msgs msg).size.toNat) } < s.work := by
    intro hcmd'
    have hof := h.order.inHand hslot hpassed hi (isDma_of_read hcmd')
    apply work_lt_of_move
    · rfl
    · rw [dequeued, dequeued, hslot]
      rfl
    · rfl
    · rw [hwork]
      simp only [hostWork, HostPc.work, List.length_range, hof.len]
      omega
  have hwrite : HostInterface.work { s with host := .wait_data msg } < s.work := by
    apply work_lt_of_move
    · rfl
    · rw [dequeued, dequeued, hslot]
      rfl
    · rfl
    · rw [hwork]
      show s.lenAt s.handled.length + 3 < _
      rw [lenAt_eq hi]
      omega
  unfold HostInterface.handle
  rw [hcmd]
  cases hr : i.regs.cmd with
  | PCI_DMA_READ => exact hread (by rw [hr]; rfl)
  | PCI_DMA_SQ_READ => exact hread (by rw [hr]; rfl)
  | PCI_DMA_WRITE => exact hwrite
  | PCI_DMA_CQ_WRITE => exact hwrite
  | PCI_ENABLE_MSIX_VECTOR =>
    have hvectors : HostInterface.work
        { s with vectors := s.vectors ++ [(s.msgs msg).cqIntVector] } = s.work := rfl
    rw [← hvectors]
    apply finish_work hslot
    show 0 < s.hostWork
    omega

theorem Kept.hostStep_work (h : s.Kept) (hstep : s.hostStep = some s') : s'.work < s.work := by
  unfold HostInterface.hostStep at hstep
  cases hhost : s.host with
  | idle =>
    rw [hhost] at hstep
    exact h.deQueue_work hhost hstep
  | wait_msg msg =>
    rw [hhost] at hstep
    dsimp only at hstep
    split at hstep <;> cases hstep
    rename_i hready
    exact h.handle_work hhost hready
  | pci_dma_read msg left =>
    rw [hhost] at hstep
    cases left with
    | nil =>
      obtain ⟨page, -, hstep⟩ := Option.bind_eq_some_iff.mp hstep
      cases hstep
      have hsame : (s.setDataStatus page .data_status_ready).work = s.work := rfl
      have hslot : (s.setDataStatus page .data_status_ready).host.slot = some msg :=
        (congrArg HostPc.slot hhost).trans rfl
      rw [← hsame]
      apply finish_work hslot
      show 0 < s.hostWork
      rw [hostWork, hhost]
      exact Nat.succ_pos _
    | cons x left => cases hstep
  | wait_data msg =>
    rw [hhost] at hstep
    have hslot : s.host.slot = some msg := by rw [hhost]; rfl
    obtain ⟨i, hi, -, -⟩ := h.order.current hslot
    have hwrite := h.control.serves i hi
    rw [hhost] at hwrite
    have hof := h.order.inHand hslot (h.control.passed (by rw [hhost]; rfl)) hi
      (isDma_of_write hwrite)
    obtain ⟨page, -, hstep⟩ := Option.bind_eq_some_iff.mp hstep
    split at hstep <;> cases hstep
    apply work_lt_of_move
    · rfl
    · rw [dequeued, dequeued, hslot]
      rfl
    · rfl
    · have hwork : s.hostWork = i.regs.len + 3 := by
        rw [hostWork, hhost, lenAt_eq hi]
        rfl
      rw [hwork]
      simp only [hostWork, HostPc.work, List.length_range, hof.len]
      omega
  | pci_dma_write msg left =>
    rw [hhost] at hstep
    cases left with
    | nil =>
      obtain ⟨page, -, hstep⟩ := Option.bind_eq_some_iff.mp hstep
      cases hstep
      apply work_lt_of_move
      · rfl
      · rw [dequeued, dequeued, hhost]
        rfl
      · rfl
      · rw [hostWork, hostWork, hhost]
        exact Nat.lt_succ_self _
    | cons x left => cases hstep
  | notify msg =>
    rw [hhost] at hstep
    cases hstep
    have hsame : (s.notifyHost (s.msgs msg)).work = s.work := by
      unfold notifyHost
      split <;> rfl
    have hnotify : (s.notifyHost (s.msgs msg)).host = s.host := by
      unfold notifyHost
      split <;> rfl
    rw [← hsame]
    apply finish_work (by rw [hnotify, hhost]; rfl)
    rw [hostWork, hnotify, hhost]
    exact Nat.succ_pos _

theorem hostCopy_work {x : Nat} (hstep : s.hostCopy x = some s') : s'.work < s.work := by
  unfold HostInterface.hostCopy at hstep
  split at hstep
  · rename_i msg left hhost
    obtain ⟨page, -, hstep⟩ := Option.bind_eq_some_iff.mp hstep
    dsimp only at hstep
    split at hstep <;> cases hstep
    rename_i hx
    apply work_lt_of_move
    · rfl
    · rw [dequeued, dequeued, hhost]
      rfl
    · rfl
    · rw [hostWork, hostWork, hhost]
      exact Nat.succ_lt_succ (length_filter_lt hx.1)
  · rename_i msg left hhost
    obtain ⟨page, -, hstep⟩ := Option.bind_eq_some_iff.mp hstep
    dsimp only at hstep
    split at hstep <;> cases hstep
    rename_i hx
    apply work_lt_of_move
    · rfl
    · rw [dequeued, dequeued, hhost]
      rfl
    · rfl
    · rw [hostWork, hostWork, hhost]
      exact Nat.add_lt_add_right (length_filter_lt hx.1) 2
  · cases hstep

/-- Each step of a side takes from the work. -/
theorem Kept.step_work (h : s.Kept) (ha : a.ofSides = true) (hstep : hostIfStep s a = some s') :
    s'.work < s.work := by
  cases a with
  | issue r => cases ha
  | device => exact h.deviceStep_work hstep
  | event k =>
    simp only [hostIfStep] at hstep
    split at hstep
    · rename_i hidle
      exact h.eventStep_work hidle hstep
    · cases hstep
  | dma k x =>
    simp only [hostIfStep] at hstep
    split at hstep
    · rename_i hidle
      exact h.dmaStep_work hidle hstep
    · cases hstep
  | host => exact h.hostStep_work hstep
  | host_copy x => exact hostCopy_work hstep
  | host_store c v => cases ha
  | ssd_store c v => cases ha

/-! ## One of the sides can step -/

/-- A step of one of the two sides is possible. -/
def CanStep (s : HostInterface) : Prop := ∃ a, a.ofSides = true ∧ ∃ u, hostIfStep s a = some u

theorem canStep_event (hidle : s.device = .idle) {k : Nat} {u : HostInterface}
    (hstep : s.eventStep k = some u) : s.CanStep :=
  ⟨.event k, rfl, u, by rw [hostIfStep, if_pos hidle, hstep]⟩

theorem canStep_dma (hidle : s.device = .idle) {k x : Nat} {u : HostInterface}
    (hstep : s.dmaStep k x = some u) : s.CanStep :=
  ⟨.dma k x, rfl, u, by rw [hostIfStep, if_pos hidle, hstep]⟩

/-- The routine of a command goes through to its end. -/
theorem Kept.device_canStep (h : s.Kept) (hd : s.device ≠ .idle) : s.CanStep := by
  refine ⟨.device, rfl, ?_⟩
  simp only [hostIfStep, HostInterface.deviceStep]
  cases hpc : s.device with
  | idle => exact absurd hpc hd
  | panic => exact absurd hpc h.control.calm
  | enQueueSSDMsg =>
    dsimp only
    split
    · exact ⟨_, rfl⟩
    · exact ⟨_, rfl⟩
  | _ => exact ⟨_, rfl⟩

/-- The host goes on, but for a write whose data are not in the page. -/
theorem Kept.host_canStep (h : s.Kept) (hidle : s.device = .idle)
    (hlt : s.handled.length < s.issued.length)
    (hwait : ∀ msg, s.host = .wait_data msg → (s.pages 0).data_status = .data_status_ready) :
    s.CanStep := by
  have hi := List.getElem?_eq_getElem hlt
  have hserves := h.control.serves _ hi
  have hsmall := h.control.small _ (List.getElem_mem hlt)
  have hready : s.device.unready = 0 := by rw [hidle]; rfl
  have hpassed : s.handled.length < s.issued.length - s.device.unready := by omega
  have hpage : ∀ msg, s.host.slot = some msg →
      (s.issued[s.handled.length]).regs.cmd.isDma = true →
      getPageRegister (s.msgs msg).page_index = some 0 := by
    intro msg hslot hdma
    exact (h.order.inHand hslot hpassed hi hdma).page
  cases hhost : s.host with
  | idle =>
    refine ⟨.host, rfl, ?_⟩
    have hdeq : s.dequeued = s.handled.length := HostInterface.dequeued_idle hhost
    have hne : s.head ≠ s.tail := by
      have hroom := h.order.room
      rw [h.order.head, h.order.tail, hdeq, hidle]
      rw [hdeq, hidle] at hroom
      simp only [DevicePc.unqueued, DevicePc.unwritten, Nat.sub_zero] at hroom ⊢
      rw [ring_size] at *
      omega
    simp only [hostIfStep, HostInterface.hostStep, hhost, HostInterface.deQueueSSDMsg, if_neg hne]
    exact ⟨_, rfl⟩
  | wait_msg msg =>
    refine ⟨.host, rfl, s.handle msg, ?_⟩
    have hslot : s.host.slot = some msg := by rw [hhost]; rfl
    have hdeq : s.dequeued = s.handled.length + 1 := HostInterface.dequeued_busy hslot
    have hroom := h.order.room
    have hw := unwritten_le s.device
    have hmsg : (s.msgs msg).msg_ready = true := by
      rw [h.order.host_slot msg hslot]
      exact (h.order.ready _ _ hi (by omega) (by omega)).mpr hpassed
    simp only [hostIfStep, HostInterface.hostStep, hhost, if_pos hmsg]
  | pci_dma_read msg left =>
    rw [hhost] at hserves
    have hget := hpage msg (by rw [hhost]; rfl) (isDma_of_read hserves.1)
    cases left with
    | nil =>
      refine ⟨.host, rfl, ?_⟩
      simp only [hostIfStep, HostInterface.hostStep, hhost, HostInterface.host_data_ready, hget]
      exact ⟨_, rfl⟩
    | cons x left =>
      refine ⟨.host_copy x, rfl, ?_⟩
      have hx : x < INTERFACE_DMA_PAGE_SIZE :=
        Nat.lt_of_lt_of_le (hserves.2 x List.mem_cons_self) hsmall
      simp only [hostIfStep, HostInterface.hostCopy, hhost, HostInterface.readHostByte, hget]
      exact ⟨_, if_pos ⟨List.mem_cons_self, hx⟩⟩
  | wait_data msg =>
    rw [hhost] at hserves
    have hget := hpage msg (by rw [hhost]; rfl) (isDma_of_write hserves)
    refine ⟨.host, rfl, ?_⟩
    simp only [hostIfStep, HostInterface.hostStep, hhost, HostInterface.wait_data, hget]
    exact ⟨_, if_pos (hwait msg hhost)⟩
  | pci_dma_write msg left =>
    rw [hhost] at hserves
    have hget := hpage msg (by rw [hhost]; rfl) (isDma_of_write hserves.1)
    cases left with
    | nil =>
      refine ⟨.host, rfl, ?_⟩
      simp only [hostIfStep, HostInterface.hostStep, hhost, HostInterface.host_data_used, hget]
      exact ⟨_, rfl⟩
    | cons x left =>
      refine ⟨.host_copy x, rfl, ?_⟩
      have hx : x < INTERFACE_DMA_PAGE_SIZE :=
        Nat.lt_of_lt_of_le (hserves.2 x List.mem_cons_self) hsmall
      simp only [hostIfStep, HostInterface.hostCopy, hhost, HostInterface.writeHostByte, hget]
      exact ⟨_, if_pos ⟨List.mem_cons_self, hx⟩⟩
  | notify msg =>
    refine ⟨.host, rfl, ?_⟩
    simp only [hostIfStep, HostInterface.hostStep, hhost]
    exact ⟨_, rfl⟩

/-- A write that the host waits for is the open command. -/
theorem Kept.waiting_open (h : s.Kept) (hhost : s.host = .wait_data msg)
    (hlt : s.handled.length < s.issued.length) :
    s.Open s.handled.length ∧ (s.issued[s.handled.length]).regs.cmd.isWrite = true := by
  have hi := List.getElem?_eq_getElem hlt
  have hserves := h.control.serves _ hi
  rw [hhost] at hserves
  refine ⟨h.page.open_of hi (isDma_of_write hserves) ?_, hserves⟩
  rw [pageDone_iff, hhost]
  rintro (hlt' | ⟨-, he⟩)
  · omega
  · cases he

/-- The event of the open command, or the host, goes on. -/
theorem Kept.event_canStep (h : s.Kept) (hidle : s.device = .idle) {e : DeviceEvent}
    (he : s.events[0]? = some e) : s.CanStep := by
  obtain ⟨j, i, hevents, -, hi, hopen, hok⟩ := h.page.event h.control hidle he
  have hpage : ∀ msg, i.regs.cmd.isDma = true → msg = j % SSDMsgQueueSize →
      getPageRegister (s.msgs msg).page_index = some 0 :=
    fun msg hdma hmsg => (h.order.ofOpen hidle hi hopen hdma hmsg).page
  have hsmall := h.control.small i (List.mem_of_getElem? hi)
  have hbehind : s.hostAt j ≠ .done → s.handled.length < s.issued.length := by
    intro hnot
    have hle : ¬ j < s.handled.length := by
      intro hlt
      apply hnot
      rw [hostAt, if_pos hlt]
    have := hopen.1
    omega
  cases e with
  | read_host_complete msg =>
    obtain ⟨hmsg, hread, hpageOk⟩ := hok
    by_cases hdone : s.hostAt j = .done
    · unfold ReadOk at hpageOk
      rw [hdone] at hpageOk
      apply canStep_event hidle (k := 0)
      simp only [HostInterface.eventStep, he, HostInterface.read_host_complete,
        hpage msg (isDma_of_read hread) hmsg, Option.bind_eq_bind, Option.bind_some]
      exact if_pos hpageOk.1
    · apply h.host_canStep hidle (hbehind hdone)
      intro m hwait
      obtain ⟨ho, hwrite⟩ := h.waiting_open hwait (hbehind hdone)
      have hj := hopen.unique ho
      have hnot := not_write_of_read hread
      rw [← hj, List.getElem?_eq_getElem (hbehind hdone)] at hi
      cases hi
      simp [hwrite] at hnot
  | write_ssd_complete msg left =>
    obtain ⟨hmsg, hread, hleft, -⟩ := hok
    have hget := hpage msg (isDma_of_read hread) hmsg
    cases left with
    | nil =>
      apply canStep_event hidle (k := 0)
      simp only [HostInterface.eventStep, he, HostInterface.write_ssd_complete, hget]
      rfl
    | cons x left =>
      have hx : x < INTERFACE_DMA_PAGE_SIZE :=
        Nat.lt_of_lt_of_le (hleft x List.mem_cons_self) hsmall
      apply canStep_dma hidle (k := 0) (x := x)
      simp only [HostInterface.dmaStep, he, HostInterface.writeSsd, hget, Option.bind_eq_bind,
        Option.bind_some]
      exact if_pos ⟨List.mem_cons_self, hx⟩
  | read_ssd_complete msg left =>
    obtain ⟨hmsg, hwrite, hleft, -⟩ := hok
    have hget := hpage msg (isDma_of_write hwrite) hmsg
    cases left with
    | nil =>
      apply canStep_event hidle (k := 0)
      simp only [HostInterface.eventStep, he, HostInterface.read_ssd_complete, hget]
      rfl
    | cons x left =>
      have hx : x < INTERFACE_DMA_PAGE_SIZE :=
        Nat.lt_of_lt_of_le (hleft x List.mem_cons_self) hsmall
      apply canStep_dma hidle (k := 0) (x := x)
      simp only [HostInterface.dmaStep, he, HostInterface.readSsd, hget, Option.bind_eq_bind,
        Option.bind_some]
      exact if_pos ⟨List.mem_cons_self, hx⟩
  | write_host_complete msg =>
    obtain ⟨hmsg, hwrite, hsent⟩ := hok
    by_cases hused : (s.pages 0).data_status = .data_status_used
    · apply canStep_event hidle (k := 0)
      simp only [HostInterface.eventStep, he, HostInterface.write_host_complete,
        hpage msg (isDma_of_write hwrite) hmsg, Option.bind_eq_bind, Option.bind_some]
      exact if_pos hused
    · have hready : s.hostAt j ≠ .done ∧ (s.pages 0).data_status = .data_status_ready := by
        unfold SentOk at hsent
        cases hat : s.hostAt j <;> rw [hat] at hsent <;> simp_all
      exact h.host_canStep hidle (hbehind hready.1) fun _ _ => hready.2

/-- While a command is not done, one of the two sides can step. -/
theorem Kept.canStep (h : s.Kept)
    (hleft : s.handled.length < s.issued.length ∨ s.cmdStatus = .PROCESSING ∨ s.device ≠ .idle) :
    s.CanStep := by
  by_cases hidle : s.device = .idle
  · cases hevents : s.events with
    | nil =>
      have hlt : s.handled.length < s.issued.length := by
        rcases hleft with hlt | hstatus | hd
        · exact hlt
        · exact absurd hevents (h.control.status.mp hstatus)
        · exact absurd hidle hd
      apply h.host_canStep hidle hlt
      intro msg hwait
      obtain ⟨-, hd | he⟩ := (h.waiting_open hwait hlt).1
      · exact absurd hidle hd
      · exact absurd hevents he
    | cons e rest => exact h.event_canStep (e := e) hidle (by rw [hevents]; rfl)
  · exact h.device_canStep hidle

end HostInterface

end S4Sim
