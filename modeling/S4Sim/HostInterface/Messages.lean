-- The ring of messages. The command with the number `j` has its message in the
-- slot `j % 1024`, which no later command takes before the host has handled it,
-- and the host thread handles the commands in the order of their numbers.
import S4Sim.HostInterface.Protocol

namespace S4Sim

open Runs

theorem ring_size : SSDMsgQueueSize = 1024 := rfl

/-! ## How far each side is -/

def DevicePc.slot : DevicePc → Option Nat
  | .move_tail msg | .fill msg | .set_ready msg | .set_status msg => some msg
  | .idle | .enQueuePageRegister | .enQueueSSDMsg | .panic => none

def HostPc.slot : HostPc → Option Nat
  | .idle => none
  | .wait_msg msg | .pci_dma_read msg _ | .wait_data msg | .pci_dma_write msg _ | .notify msg =>
    some msg

/-- The message of the command under way is not yet in the ring. -/
def DevicePc.unqueued : DevicePc → Nat
  | .enQueuePageRegister | .enQueueSSDMsg | .move_tail _ | .panic => 1
  | .idle | .fill _ | .set_ready _ | .set_status _ => 0

/-- The slot of the command under way is not yet taken. -/
def DevicePc.unwritten : DevicePc → Nat
  | .enQueuePageRegister | .enQueueSSDMsg | .panic => 1
  | .idle | .move_tail _ | .fill _ | .set_ready _ | .set_status _ => 0

/-- The fields of the message of the command under way are not yet written. -/
def DevicePc.unfilled : DevicePc → Nat
  | .enQueuePageRegister | .enQueueSSDMsg | .move_tail _ | .fill _ | .panic => 1
  | .idle | .set_ready _ | .set_status _ => 0

/-- `msg_ready` of the command under way is not yet set. -/
def DevicePc.unready : DevicePc → Nat
  | .enQueuePageRegister | .enQueueSSDMsg | .move_tail _ | .fill _ | .set_ready _ | .panic => 1
  | .idle | .set_status _ => 0

/-! ## The fields of a message -/

section fill

variable {r : HostCmdReg} {p : Nat} {m : SsdMsg}

@[simp] theorem fillMsg_cmd : (fillMsg r p m).cmd = m.cmd := by
  unfold fillMsg
  cases r.cmd <;> rfl

@[simp] theorem fillMsg_number : (fillMsg r p m).number = m.number := by
  unfold fillMsg
  cases r.cmd <;> rfl

@[simp] theorem fillMsg_msg_ready : (fillMsg r p m).msg_ready = m.msg_ready := by
  unfold fillMsg
  cases r.cmd <;> rfl

theorem fillMsg_fillMsg : fillMsg r p (fillMsg r p m) = fillMsg r p m := by
  unfold fillMsg
  cases r.cmd <;> rfl

theorem fillMsg_ready {b : Bool} :
    fillMsg r p { m with msg_ready := b } = { fillMsg r p m with msg_ready := b } := by
  unfold fillMsg
  cases r.cmd <;> rfl

/-- Only a DMA has a page. -/
theorem fillMsg_page (h : r.cmd.isDma = true → p = 1) : fillMsg r p m = fillMsg r 1 m := by
  unfold fillMsg
  cases hcmd : r.cmd <;> rw [hcmd] at h <;> first | rfl | rw [h rfl]

/-- What both sides read from the message of a DMA. -/
theorem fillMsg_dma {n : Nat} (h : fillMsg r 1 m = m) (hdma : r.cmd.isDma = true) :
    m.page_index = 1 ∧ m.dma_addr = (r.message n).dma_addr ∧ m.ssdAddr = (r.message n).ssdAddr ∧
      m.size = (r.message n).size := by
  rw [← h]
  unfold HostCmdReg.message fillMsg
  cases hcmd : r.cmd <;> rw [hcmd] at hdma
  · exact ⟨rfl, rfl, rfl, rfl⟩
  · exact ⟨rfl, rfl, rfl, rfl⟩
  · exact ⟨rfl, rfl, rfl, rfl⟩
  · exact ⟨rfl, rfl, rfl, rfl⟩
  · cases hdma

end fill

namespace HostInterface

/-- The number of messages that the host has taken from the ring. -/
def dequeued (s : HostInterface) : Nat := s.handled.length + s.host.slot.toList.length

theorem dequeued_idle {s : HostInterface} (h : s.host = .idle) :
    s.dequeued = s.handled.length := by
  simp [dequeued, h, HostPc.slot]

theorem dequeued_busy {s : HostInterface} {msg : Nat} (h : s.host.slot = some msg) :
    s.dequeued = s.handled.length + 1 := by
  simp [dequeued, h]

/-- What the ring of messages depends on. -/
def ringView (s : HostInterface) :=
  (s.Registers, s.tail, s.head, s.msgs, s.device, s.host.slot, s.issued, s.handled,
    (s.pages 0).page_index)

/-- Each message is in the slot of its number, and the host handles them in order. -/
structure InOrder (s : HostInterface) : Prop where
  handled : s.handled = List.range s.handled.length
  started : s.device ≠ .idle → ∃ i, s.issued[s.issued.length - 1]? = some i ∧ i.regs = s.Registers
  tail : s.tail = (s.issued.length - s.device.unqueued) % SSDMsgQueueSize
  head : s.head = s.dequeued % SSDMsgQueueSize
  queued : s.dequeued ≤ s.issued.length - s.device.unqueued
  room : s.issued.length - s.device.unwritten < s.dequeued + SSDMsgQueueSize
  device_slot : ∀ msg, s.device.slot = some msg → msg = (s.issued.length - 1) % SSDMsgQueueSize
  host_slot : ∀ msg, s.host.slot = some msg → msg = s.handled.length % SSDMsgQueueSize
  page_index : s.device ≠ .idle → s.device ≠ .enQueuePageRegister → s.Registers.cmd.isDma = true →
    (s.pages 0).page_index = 1
  numbered : ∀ j i, s.issued[j]? = some i → j < s.issued.length - s.device.unwritten →
    s.issued.length - s.device.unwritten ≤ j + SSDMsgQueueSize →
    (s.msgs (j % SSDMsgQueueSize)).number = j ∧ (s.msgs (j % SSDMsgQueueSize)).cmd = i.regs.cmd
  filled : ∀ j i, s.issued[j]? = some i → j < s.issued.length - s.device.unfilled →
    s.issued.length - s.device.unwritten ≤ j + SSDMsgQueueSize →
    fillMsg i.regs 1 (s.msgs (j % SSDMsgQueueSize)) = s.msgs (j % SSDMsgQueueSize)
  ready : ∀ j i, s.issued[j]? = some i → j < s.issued.length - s.device.unwritten →
    s.issued.length - s.device.unwritten ≤ j + SSDMsgQueueSize →
    ((s.msgs (j % SSDMsgQueueSize)).msg_ready = true ↔ j < s.issued.length - s.device.unready)

variable {s s' : HostInterface} {a : HostIfAction} {msg page : Nat}

theorem ringView_eq (h : s'.ringView = s.ringView) :
    s'.Registers = s.Registers ∧ s'.tail = s.tail ∧ s'.head = s.head ∧ s'.msgs = s.msgs ∧
      s'.device = s.device ∧ s'.host.slot = s.host.slot ∧ s'.issued = s.issued ∧
      s'.handled = s.handled ∧ (s'.pages 0).page_index = (s.pages 0).page_index := by
  simpa [ringView] using h

theorem InOrder.same (h : s.InOrder) (hview : s'.ringView = s.ringView) : s'.InOrder := by
  obtain ⟨hregs, htail, hhead, hmsgs, hdevice, hslot, hissued, hhandled, hpage⟩ := ringView_eq hview
  have hdeq : s'.dequeued = s.dequeued := by rw [dequeued, dequeued, hslot, hhandled]
  refine ⟨?_, ?_, ?_, ?_, ?_, ?_, ?_, ?_, ?_, ?_, ?_, ?_⟩ <;>
    simp only [hregs, htail, hhead, hmsgs, hdevice, hslot, hissued, hhandled, hpage, hdeq]
  · exact h.handled
  · exact h.started
  · exact h.tail
  · exact h.head
  · exact h.queued
  · exact h.room
  · exact h.device_slot
  · exact h.host_slot
  · exact h.page_index
  · exact h.numbered
  · exact h.filled
  · exact h.ready

/-! ## The message that a side has in hand -/

/-- The command that the host thread is at. -/
theorem InOrder.current (h : s.InOrder) (hslot : s.host.slot = some msg) :
    ∃ i, s.issued[s.handled.length]? = some i ∧ (s.msgs msg).number = s.handled.length ∧
      (s.msgs msg).cmd = i.regs.cmd := by
  have hdeq : s.dequeued = s.handled.length + 1 := HostInterface.dequeued_busy hslot
  have hqueued := h.queued
  have hroom := h.room
  have hwritten : s.device.unwritten ≤ s.device.unqueued := by
    cases s.device <;> simp [DevicePc.unwritten, DevicePc.unqueued]
  have hlt : s.handled.length < s.issued.length := by omega
  refine ⟨s.issued[s.handled.length], List.getElem?_eq_getElem hlt, ?_⟩
  rw [h.host_slot msg hslot]
  exact h.numbered _ _ (List.getElem?_eq_getElem hlt) (by omega) (by omega)

/-- The routine of a command is done with its message when `msg_ready` is set. -/
theorem InOrder.current_ready (h : s.InOrder) (hslot : s.host.slot = some msg)
    (hready : (s.msgs msg).msg_ready = true) {i : IssuedCmd}
    (hi : s.issued[s.handled.length]? = some i) :
    s.handled.length < s.issued.length - s.device.unready := by
  have hdeq : s.dequeued = s.handled.length + 1 := HostInterface.dequeued_busy hslot
  have hqueued := h.queued
  have hroom := h.room
  have hwritten : s.device.unwritten ≤ s.device.unqueued := by
    cases s.device <;> simp [DevicePc.unwritten, DevicePc.unqueued]
  rw [h.host_slot msg hslot] at hready
  exact (h.ready _ _ hi (by omega) (by omega)).mp hready

theorem InOrder.current_filled (h : s.InOrder) (hslot : s.host.slot = some msg)
    (hready : (s.msgs msg).msg_ready = true) {i : IssuedCmd}
    (hi : s.issued[s.handled.length]? = some i) : fillMsg i.regs 1 (s.msgs msg) = s.msgs msg := by
  have hlt := h.current_ready hslot hready hi
  have hdeq : s.dequeued = s.handled.length + 1 := HostInterface.dequeued_busy hslot
  have hroom := h.room
  have hunready : s.device.unfilled ≤ s.device.unready := by
    cases s.device <;> simp [DevicePc.unfilled, DevicePc.unready]
  rw [h.host_slot msg hslot]
  exact h.filled _ _ hi (by omega) (by omega)

/-! ## What a copy leaves -/

theorem update_page_index {f : Nat → PageReg} {g : PageReg}
    (h : g.page_index = (f page).page_index) :
    (Function.update f page g 0).page_index = (f 0).page_index := by
  by_cases hp : page = 0
  · rw [hp, Function.update_self, h, hp]
  · rw [Function.update_of_ne (Ne.symm hp)]

@[simp] theorem setDataStatus_view {status : DataStatus} :
    (s.setDataStatus page status).ringView = s.ringView := by
  simp only [ringView, setDataStatus, Prod.mk.injEq, true_and]
  exact update_page_index rfl

@[simp] theorem fillPage_view {i number : Nat} {v : UInt8} :
    (s.fillPage page i v number).ringView = s.ringView := by
  simp only [ringView, fillPage, Prod.mk.injEq, true_and]
  exact update_page_index rfl

@[simp] theorem readPage_view {i number : Nat} :
    (s.readPage page i number).ringView = s.ringView := rfl

@[simp] theorem setEvent_view {k : Nat} {e : DeviceEvent} :
    (s.setEvent k e).ringView = s.ringView := rfl

@[simp] theorem complete_view {k : Nat} {m : SsdMsg} : (s.complete k m).ringView = s.ringView := rfl

@[simp] theorem notifyHost_view {m : SsdMsg} : (s.notifyHost m).ringView = s.ringView := by
  unfold notifyHost
  split <;> rfl

/-- An event changes no message. -/
theorem eventStep_view {k : Nat} (hstep : s.eventStep k = some s') : s'.ringView = s.ringView := by
  unfold eventStep at hstep
  split at hstep
  · obtain ⟨page, -, hstep⟩ := Option.bind_eq_some_iff.mp hstep
    split at hstep <;> cases hstep
    rfl
  · obtain ⟨page, -, hstep⟩ := Option.bind_eq_some_iff.mp hstep
    cases hstep
    rw [complete_view, setDataStatus_view]
  · obtain ⟨page, -, hstep⟩ := Option.bind_eq_some_iff.mp hstep
    cases hstep
    rw [setEvent_view, setDataStatus_view]
  · obtain ⟨page, -, hstep⟩ := Option.bind_eq_some_iff.mp hstep
    split at hstep <;> cases hstep
    rfl
  · cases hstep

/-- A byte of a DMA changes no message. -/
theorem dmaStep_view {k i : Nat} (hstep : s.dmaStep k i = some s') : s'.ringView = s.ringView := by
  unfold dmaStep at hstep
  split at hstep
  · obtain ⟨page, -, hstep⟩ := Option.bind_eq_some_iff.mp hstep
    dsimp only at hstep
    split at hstep <;> cases hstep
    rfl
  · obtain ⟨page, -, hstep⟩ := Option.bind_eq_some_iff.mp hstep
    dsimp only at hstep
    split at hstep <;> cases hstep
    rw [setEvent_view, fillPage_view]
  · cases hstep

/-- A byte that the host copies changes no message. -/
theorem hostCopy_view {i : Nat} (hstep : s.hostCopy i = some s') : s'.ringView = s.ringView := by
  unfold hostCopy at hstep
  split at hstep
  · rename_i msg left hhost
    obtain ⟨page, -, hstep⟩ := Option.bind_eq_some_iff.mp hstep
    dsimp only at hstep
    split at hstep <;> cases hstep
    simp only [ringView, fillPage, hhost, HostPc.slot, Prod.mk.injEq, true_and]
    exact update_page_index rfl
  · rename_i msg left hhost
    obtain ⟨page, -, hstep⟩ := Option.bind_eq_some_iff.mp hstep
    dsimp only at hstep
    split at hstep <;> cases hstep
    simp only [ringView, readPage, hhost, HostPc.slot]
  · cases hstep

/-! ## What each step leaves -/

/-- A new command does not change the messages of the earlier ones. -/
theorem InOrder.issue (h : s.InOrder) (hidle : s.device = .idle) {r : HostCmdReg} :
    (s.issue r).InOrder := by
  have hdevice : (s.issue r).device = .enQueuePageRegister ∨
      (s.issue r).device = .enQueueSSDMsg := by
    simp only [HostInterface.issue]
    split <;> simp
  have hcounts : (s.issue r).device.unqueued = 1 ∧ (s.issue r).device.unwritten = 1 ∧
      (s.issue r).device.unfilled = 1 ∧ (s.issue r).device.unready = 1 ∧
      (s.issue r).device.slot = none := by
    rcases hdevice with hd | hd <;> rw [hd] <;> exact ⟨rfl, rfl, rfl, rfl, rfl⟩
  have hbefore : s.device.unqueued = 0 ∧ s.device.unwritten = 0 ∧ s.device.unfilled = 0 ∧
      s.device.unready = 0 := by
    rw [hidle]
    exact ⟨rfl, rfl, rfl, rfl⟩
  obtain ⟨hq, hw, hf, hr, hs⟩ := hcounts
  obtain ⟨hq0, hw0, hf0, hr0⟩ := hbefore
  have hlen : (s.issue r).issued.length = s.issued.length + 1 := by simp [HostInterface.issue]
  have hold : ∀ j i, (s.issue r).issued[j]? = some i → j < s.issued.length →
      s.issued[j]? = some i := by
    intro j i hi hj
    rwa [HostInterface.issue, List.getElem?_append_left hj] at hi
  have hdeq : (s.issue r).dequeued = s.dequeued := rfl
  refine ⟨h.handled, ?_, ?_, h.head, ?_, ?_, ?_, h.host_slot, ?_, ?_, ?_, ?_⟩
  · intro _
    exact ⟨⟨r, s.source r⟩, by simp [HostInterface.issue], rfl⟩
  · rw [hq, hlen]
    have := h.tail
    rwa [hq0] at this
  · have := h.queued
    omega
  · have := h.room
    omega
  · intro msg hmsg
    rw [hs] at hmsg
    cases hmsg
  · intro _ hpage hdma
    rcases hdevice with hd | hd
    · exact absurd hd hpage
    · simp only [HostInterface.issue] at hd hdma
      rw [if_pos hdma] at hd
      cases hd
  · intro j i hi hj hwindow
    exact h.numbered j i (hold j i hi (by omega)) (by omega) (by omega)
  · intro j i hi hj hwindow
    exact h.filled j i (hold j i hi (by omega)) (by omega) (by omega)
  · intro j i hi hj hwindow
    have := h.ready j i (hold j i hi (by omega)) (by omega) (by omega)
    rw [hr, hlen]
    rwa [hr0] at this

/-- The place of the routine, when the routine changes nothing else that the ring depends on. -/
theorem InOrder.move_device (h : s.InOrder) (pc : DevicePc)
    (hview : s'.ringView = { s with device := pc }.ringView) (hstart : s.device ≠ .idle)
    (hq : pc.unqueued = s.device.unqueued) (hw : pc.unwritten = s.device.unwritten)
    (hf : pc.unfilled = s.device.unfilled) (hr : pc.unready = s.device.unready)
    (hslot : ∀ msg, pc.slot = some msg → s.device.slot = some msg)
    (hpage : pc ≠ .enQueuePageRegister → s.Registers.cmd.isDma = true →
      (s.pages 0).page_index = 1) : s'.InOrder := by
  refine InOrder.same (s := { s with device := pc }) ?_ hview
  refine ⟨h.handled, fun _ => h.started hstart, ?_, h.head, ?_, ?_, ?_, h.host_slot, ?_, ?_, ?_, ?_⟩
  · have := h.tail
    rwa [← hq] at this
  · have := h.queued
    rwa [← hq] at this
  · have := h.room
    rwa [← hw] at this
  · intro msg hmsg
    exact h.device_slot msg (hslot msg hmsg)
  · intro _ hne hdma
    exact hpage hne hdma
  · have := h.numbered
    rwa [← hw] at this
  · have := h.filled
    rwa [← hw, ← hf] at this
  · have := h.ready
    rwa [← hw, ← hr] at this

theorem InOrder.enQueuePageRegister (h : s.InOrder) (hd : s.device = .enQueuePageRegister) :
    InOrder { s.enQueuePageRegister with device := .enQueueSSDMsg } := by
  have hpage : s.enQueuePageRegister.InOrder :=
    ⟨h.handled, h.started, h.tail, h.head, h.queued, h.room, h.device_slot, h.host_slot,
      fun _ _ _ => by simp [HostInterface.enQueuePageRegister], h.numbered, h.filled, h.ready⟩
  apply hpage.move_device .enQueueSSDMsg rfl
  · simp [HostInterface.enQueuePageRegister, hd]
  · simp [HostInterface.enQueuePageRegister, hd, DevicePc.unqueued]
  · simp [HostInterface.enQueuePageRegister, hd, DevicePc.unwritten]
  · simp [HostInterface.enQueuePageRegister, hd, DevicePc.unfilled]
  · simp [HostInterface.enQueuePageRegister, hd, DevicePc.unready]
  · simp [DevicePc.slot]
  · intro _ _
    simp [HostInterface.enQueuePageRegister]

/-- The slots of two messages of one turn of the ring are not the same. -/
theorem slot_ne {j n : Nat} (hj : j < n) (hne : j ≠ n - 1) (hwindow : n ≤ j + SSDMsgQueueSize) :
    j % SSDMsgQueueSize ≠ (n - 1) % SSDMsgQueueSize := by
  rw [ring_size] at *
  omega

@[simp] theorem writeSlot_issued : s.writeSlot.issued = s.issued := rfl

/-- The test for a full ring keeps the slot of each message that the host still needs. -/
theorem InOrder.writeSlot (h : s.InOrder) (hd : s.device = .enQueueSSDMsg)
    (hroom : s.head ≠ (s.tail + 1) % SSDMsgQueueSize) :
    InOrder { s.writeSlot with device := .move_tail s.tail } := by
  have hne : s.device ≠ .idle := by simp [hd]
  obtain ⟨last, hlast, hregs⟩ := h.started hne
  have hpos : s.issued.length - 1 < s.issued.length := (List.getElem?_eq_some_iff.mp hlast).1
  have htail := h.tail
  have hhead := h.head
  have hqueued := h.queued
  have hbound := h.room
  have hnumbered := h.numbered
  have hfilled := h.filled
  have hready := h.ready
  simp only [hd, DevicePc.unqueued, DevicePc.unwritten, DevicePc.unfilled,
    DevicePc.unready] at htail hqueued hbound hnumbered hfilled hready
  have hother : ∀ j, j < s.issued.length → j ≠ s.issued.length - 1 →
      s.issued.length ≤ j + SSDMsgQueueSize →
      s.writeSlot.msgs (j % SSDMsgQueueSize) = s.msgs (j % SSDMsgQueueSize) := by
    intro j hj hne hwindow
    simp only [HostInterface.writeSlot]
    rw [Function.update_of_ne]
    rw [htail]
    exact slot_ne hj hne hwindow
  have hself : s.writeSlot.msgs ((s.issued.length - 1) % SSDMsgQueueSize) =
      { s.msgs s.tail with
        cmd := s.Registers.cmd, msg_ready := false, number := s.issued.length - 1 } := by
    simp only [HostInterface.writeSlot]
    rw [← htail, Function.update_self]
  refine ⟨h.handled, fun _ => h.started hne, htail, hhead, hqueued, ?_, ?_, h.host_slot, ?_, ?_, ?_,
    ?_⟩
  · -- A ring with one more message would be full.
    rw [hhead, htail, Nat.mod_add_mod] at hroom
    have hcount : s.issued.length - 1 + 1 = s.issued.length := by omega
    rw [hcount] at hroom
    have hfull : s.issued.length ≠ s.dequeued + SSDMsgQueueSize := by
      intro he
      apply hroom
      rw [he, Nat.add_mod_right]
    have hdeq : HostInterface.dequeued { s.writeSlot with device := .move_tail s.tail } =
      s.dequeued := rfl
    rw [hdeq]
    simp only [DevicePc.unwritten, writeSlot_issued]
    omega
  · intro msg hmsg
    cases hmsg
    exact htail
  · intro _ _ hdma
    exact h.page_index hne (by simp [hd]) hdma
  · intro j i hi hj hwindow
    simp only [DevicePc.unwritten, writeSlot_issued] at hj hwindow
    by_cases hjn : j = s.issued.length - 1
    · subst hjn
      cases hlast.symm.trans hi
      exact ⟨congrArg SsdMsg.number hself, (congrArg SsdMsg.cmd hself).trans (by rw [hregs])⟩
    · have hold := hother j (by omega) hjn (by omega)
      have := hnumbered j i hi (by omega) (by omega)
      rw [← hold] at this
      exact this
  · intro j i hi hj hwindow
    simp only [DevicePc.unfilled, DevicePc.unwritten, writeSlot_issued] at hj hwindow
    have hold := hother j (by omega) (by omega) (by omega)
    have := hfilled j i hi (by omega) (by omega)
    rw [← hold] at this
    exact this
  · intro j i hi hj hwindow
    simp only [DevicePc.unwritten, DevicePc.unready, writeSlot_issued] at hj hwindow ⊢
    by_cases hjn : j = s.issued.length - 1
    · subst hjn
      have hnot := congrArg SsdMsg.msg_ready hself
      exact iff_of_false (by rw [hnot]; simp) (by omega)
    · have hold := hother j (by omega) hjn (by omega)
      have := hready j i hi (by omega) (by omega)
      rw [← hold] at this
      exact this

theorem InOrder.move_tail (h : s.InOrder) (hd : s.device = .move_tail msg) :
    InOrder { s with tail := (s.tail + 1) % SSDMsgQueueSize, device := .fill msg } := by
  have hne : s.device ≠ .idle := by simp [hd]
  obtain ⟨last, hlast, -⟩ := h.started hne
  have hpos : s.issued.length - 1 < s.issued.length := (List.getElem?_eq_some_iff.mp hlast).1
  have htail := h.tail
  have hqueued := h.queued
  have hbound := h.room
  have hnumbered := h.numbered
  have hfilled := h.filled
  have hready := h.ready
  simp only [hd, DevicePc.unqueued, DevicePc.unwritten, DevicePc.unfilled,
    DevicePc.unready] at htail hqueued hbound hnumbered hfilled hready
  refine ⟨h.handled, fun _ => h.started hne, ?_, h.head, ?_, hbound, ?_, h.host_slot, ?_, hnumbered,
    hfilled, hready⟩
  · simp only [DevicePc.unqueued]
    rw [htail, Nat.mod_add_mod]
    congr 1
    omega
  · exact Nat.le_trans hqueued (by simp [DevicePc.unqueued])
  · intro m hm
    cases hm
    exact h.device_slot msg (by rw [hd]; rfl)
  · intro _ _ hdma
    exact h.page_index hne (by simp [hd]) hdma

/-- The fields and `msg_ready` go into the slot of the newest message. -/
theorem InOrder.setMsg (h : s.InOrder) {m : SsdMsg} (pc : DevicePc)
    (hslot : s.device.slot = some msg) (hslot' : pc.slot = some msg)
    (hq : s.device.unqueued = 0) (hq' : pc.unqueued = 0) (hnumber : m.number = (s.msgs msg).number)
    (hcmd : m.cmd = (s.msgs msg).cmd) (hf : pc.unfilled = 0)
    (hfill : fillMsg s.Registers 1 m = m) (hready : m.msg_ready = true ↔ pc.unready = 0)
    (hr : pc.unready = 0 ∨ pc.unready = 1) :
    InOrder { s.setMsg msg m with device := pc } := by
  have hne : s.device ≠ .idle := by
    intro hidle
    rw [hidle] at hslot
    cases hslot
  have hne' : s.device ≠ .enQueuePageRegister := by
    intro hidle
    rw [hidle] at hslot
    cases hslot
  have hunwritten : ∀ p : DevicePc, p.unwritten ≤ p.unqueued := by
    intro p
    cases p <;> simp [DevicePc.unwritten, DevicePc.unqueued]
  have hw := hunwritten s.device
  have hw' := hunwritten pc
  have hu : s.device.unfilled ≤ 1 ∧ s.device.unready ≤ 1 := by
    cases s.device <;> simp [DevicePc.unfilled, DevicePc.unready]
  obtain ⟨last, hlast, hregs⟩ := h.started hne
  have hpos : s.issued.length - 1 < s.issued.length := (List.getElem?_eq_some_iff.mp hlast).1
  have hmsg := h.device_slot msg hslot
  have hother : ∀ j, j < s.issued.length → j ≠ s.issued.length - 1 →
      s.issued.length ≤ j + SSDMsgQueueSize →
      (s.setMsg msg m).msgs (j % SSDMsgQueueSize) = s.msgs (j % SSDMsgQueueSize) := by
    intro j hj hne hwindow
    simp only [HostInterface.setMsg]
    rw [Function.update_of_ne]
    rw [hmsg]
    exact slot_ne hj hne hwindow
  have hself : (s.setMsg msg m).msgs ((s.issued.length - 1) % SSDMsgQueueSize) = m := by
    simp only [HostInterface.setMsg]
    rw [← hmsg, Function.update_self]
  have hroom := h.room
  refine ⟨h.handled, fun _ => h.started hne, ?_, h.head, ?_, ?_, ?_, h.host_slot, ?_, ?_, ?_, ?_⟩
  · have := h.tail
    rw [hq] at this
    rw [hq']
    exact this
  · have := h.queued
    rw [hq] at this
    rw [hq']
    exact this
  · show s.issued.length - pc.unwritten < s.dequeued + SSDMsgQueueSize
    omega
  · intro m' hm'
    rw [hslot'] at hm'
    cases hm'
    exact hmsg
  · intro _ _ hdma
    exact h.page_index hne hne' hdma
  · intro j i hi hj hwindow
    simp only [HostInterface.setMsg] at hj hwindow
    by_cases hjn : j = s.issued.length - 1
    · have := h.numbered j i hi (by omega) (by omega)
      rw [hjn, ← hmsg, hnumber.symm, hcmd.symm] at this
      rw [hjn, hself]
      exact this
    · rw [hother j (by omega) hjn (by omega)]
      exact h.numbered j i hi (by omega) (by omega)
  · intro j i hi hj hwindow
    simp only [HostInterface.setMsg] at hj hwindow
    by_cases hjn : j = s.issued.length - 1
    · subst hjn
      cases hlast.symm.trans hi
      rw [hself, hregs]
      exact hfill
    · rw [hother j (by omega) hjn (by omega)]
      exact h.filled j i hi (by omega) (by omega)
  · intro j i hi hj hwindow
    simp only [HostInterface.setMsg] at hj hwindow
    show _ ↔ j < s.issued.length - pc.unready
    by_cases hjn : j = s.issued.length - 1
    · rw [hjn, hself, hready]
      omega
    · rw [hother j (by omega) hjn (by omega), h.ready j i hi (by omega) (by omega)]
      omega

/-- Each step of the routine of a command. -/
theorem InOrder.deviceStep (h : s.InOrder) (hstep : s.deviceStep = some s') : s'.InOrder := by
  unfold HostInterface.deviceStep at hstep
  cases hd : s.device with
  | idle => simp [hd] at hstep
  | panic => simp [hd] at hstep
  | enQueuePageRegister =>
    simp only [hd, Option.some.injEq] at hstep
    subst hstep
    exact h.enQueuePageRegister hd
  | enQueueSSDMsg =>
    simp only [hd] at hstep
    split at hstep <;> cases hstep
    · apply h.move_device .panic rfl <;> simp [hd, DevicePc.unqueued, DevicePc.unwritten,
        DevicePc.unfilled, DevicePc.unready, DevicePc.slot]
      intro hdma
      exact h.page_index (by simp [hd]) (by simp [hd]) hdma
    · rename_i hroom
      exact h.writeSlot hd hroom
  | move_tail msg =>
    simp only [hd, Option.some.injEq] at hstep
    subst hstep
    exact h.move_tail hd
  | fill msg =>
    simp only [hd, Option.some.injEq] at hstep
    subst hstep
    have hpage := h.page_index (by simp [hd]) (by simp [hd])
    have hnot : (s.msgs msg).msg_ready = false := by
      obtain ⟨last, hlast, -⟩ := h.started (by simp [hd])
      have hpos : s.issued.length - 1 < s.issued.length := (List.getElem?_eq_some_iff.mp hlast).1
      have hready := h.ready _ _ hlast (by simpa [hd, DevicePc.unwritten] using hpos) (by
        rw [ring_size]
        omega)
      rw [← h.device_slot msg (by rw [hd]; rfl)] at hready
      simpa [hd, DevicePc.unready] using hready
    refine h.setMsg (.set_ready msg) (by rw [hd]; rfl) rfl (by rw [hd]; rfl) rfl
      fillMsg_number fillMsg_cmd rfl ?_ ?_ (Or.inr rfl)
    · rw [fillMsg_page hpage]
      exact fillMsg_fillMsg
    · rw [fillMsg_msg_ready, hnot]
      simp [DevicePc.unready]
  | set_ready msg =>
    simp only [hd, Option.some.injEq] at hstep
    subst hstep
    have hfill : fillMsg s.Registers 1 (s.msgs msg) = s.msgs msg := by
      obtain ⟨last, hlast, hregs⟩ := h.started (by simp [hd])
      have hpos : s.issued.length - 1 < s.issued.length := (List.getElem?_eq_some_iff.mp hlast).1
      have hfilled := h.filled _ _ hlast (by simpa [hd, DevicePc.unfilled] using hpos) (by
        rw [ring_size]
        omega)
      rwa [← h.device_slot msg (by rw [hd]; rfl), hregs] at hfilled
    refine h.setMsg (.set_status msg) (by rw [hd]; rfl) rfl (by rw [hd]; rfl) rfl
      rfl rfl rfl ?_ ?_ (Or.inl rfl)
    · rw [fillMsg_ready, hfill]
    · simp [DevicePc.unready]
  | set_status msg =>
    simp only [hd, Option.some.injEq] at hstep
    subst hstep
    have hview : HostInterface.ringView { s.startDma msg with device := .idle } =
        HostInterface.ringView { s with device := .idle } := by
      unfold startDma
      split <;> rfl
    refine h.move_device .idle hview (by simp [hd]) (by rw [hd]; rfl) (by rw [hd]; rfl)
      (by rw [hd]; rfl)
      (by rw [hd]; rfl) nofun ?_
    intro _ hdma
    exact h.page_index (by simp [hd]) (by simp [hd]) hdma

/-- The host takes the next message. -/
theorem InOrder.deQueueSSDMsg (h : s.InOrder) (hhost : s.host = .idle)
    (hstep : s.deQueueSSDMsg = some s') : s'.InOrder := by
  unfold HostInterface.deQueueSSDMsg at hstep
  split at hstep <;> cases hstep
  rename_i hne
  have hdeq : s.dequeued = s.handled.length := HostInterface.dequeued_idle hhost
  have hdeq' : HostInterface.dequeued
      { s with head := (s.head + 1) % SSDMsgQueueSize, host := .wait_msg s.head } =
        s.handled.length + 1 := rfl
  have hhead := h.head
  have hqueued := h.queued
  have hroom := h.room
  refine ⟨h.handled, h.started, h.tail, ?_, ?_, ?_, h.device_slot, ?_, h.page_index, h.numbered,
    h.filled, h.ready⟩
  · rw [hdeq']
    show (s.head + 1) % SSDMsgQueueSize = _
    rw [hhead, Nat.mod_add_mod, hdeq]
  · rw [hdeq']
    have htail := h.tail
    have hne' : s.dequeued ≠ s.issued.length - s.device.unqueued := by
      intro he
      apply hne
      rw [hhead, htail, he]
    show s.handled.length + 1 ≤ s.issued.length - s.device.unqueued
    omega
  · rw [hdeq']
    show s.issued.length - s.device.unwritten < _
    omega
  · intro msg hmsg
    cases hmsg
    show s.head = s.handled.length % SSDMsgQueueSize
    rw [hhead, hdeq]

/-- The host is done with a message. -/
theorem InOrder.finish (h : s.InOrder) (hslot : s.host.slot = some msg) :
    (s.finish (s.msgs msg)).InOrder := by
  obtain ⟨i, -, hnumber, -⟩ := h.current hslot
  have hdeq : (s.finish (s.msgs msg)).dequeued = s.dequeued := by
    rw [dequeued, dequeued, hslot]
    simp [HostInterface.finish, HostPc.slot]
  refine ⟨?_, h.started, h.tail, ?_, ?_, ?_, h.device_slot, nofun, h.page_index, h.numbered,
    h.filled, h.ready⟩
  · simp only [HostInterface.finish, hnumber, List.length_append, List.length_singleton]
    rw [List.range_succ, ← h.handled]
  · rw [hdeq]
    exact h.head
  · rw [hdeq]
    exact h.queued
  · rw [hdeq]
    exact h.room

theorem InOrder.hostStep (h : s.InOrder) (hstep : s.hostStep = some s') : s'.InOrder := by
  unfold HostInterface.hostStep at hstep
  split at hstep
  · rename_i hhost
    exact h.deQueueSSDMsg hhost hstep
  · rename_i msg hhost
    split at hstep <;> cases hstep
    unfold handle
    split
    · exact h.same (by simp only [ringView, hhost, HostPc.slot])
    · exact h.same (by simp only [ringView, hhost, HostPc.slot])
    · exact h.same (by simp only [ringView, hhost, HostPc.slot])
    · exact h.same (by simp only [ringView, hhost, HostPc.slot])
    · have hvectors : InOrder { s with vectors := s.vectors ++ [(s.msgs msg).cqIntVector] } :=
        h.same rfl
      exact hvectors.finish (by simp only [hhost, HostPc.slot])
  · rename_i msg hhost
    obtain ⟨page, -, hstep⟩ := Option.bind_eq_some_iff.mp hstep
    cases hstep
    have hready : (s.setDataStatus page .data_status_ready).InOrder := h.same setDataStatus_view
    exact hready.finish (by simp only [setDataStatus, hhost, HostPc.slot])
  · rename_i msg hhost
    obtain ⟨page, -, hstep⟩ := Option.bind_eq_some_iff.mp hstep
    split at hstep <;> cases hstep
    exact h.same (by simp only [ringView, hhost, HostPc.slot])
  · rename_i msg hhost
    obtain ⟨page, -, hstep⟩ := Option.bind_eq_some_iff.mp hstep
    cases hstep
    refine h.same ?_
    simp only [ringView, setDataStatus, hhost, HostPc.slot, Prod.mk.injEq, true_and]
    exact update_page_index rfl
  · rename_i msg hhost
    cases hstep
    have hnotify : (s.notifyHost (s.msgs msg)).InOrder := h.same notifyHost_view
    have hview := ringView_eq (s := s) (notifyHost_view (m := s.msgs msg))
    have hmsgs : (s.notifyHost (s.msgs msg)).msgs = s.msgs := hview.2.2.2.1
    have hslot : (s.notifyHost (s.msgs msg)).host.slot = some msg := by
      rw [hview.2.2.2.2.2.1, hhost]
      rfl
    have := hnotify.finish hslot
    rwa [hmsgs] at this
  · cases hstep
  · cases hstep

theorem inOrder_initial (r : HostCmdReg) (msgs : Nat → SsdMsg) (pages : Nat → PageReg)
    (host_mem ssd_mem : Nat → UInt8) : (initialHostIf r msgs pages host_mem ssd_mem).InOrder := by
  refine ⟨rfl, ?_, rfl, rfl, ?_, ?_, ?_, ?_, ?_, ?_, ?_, ?_⟩ <;>
    simp [initialHostIf, dequeued, HostPc.slot, DevicePc.slot, DevicePc.unwritten, ring_size]

end HostInterface

end S4Sim
