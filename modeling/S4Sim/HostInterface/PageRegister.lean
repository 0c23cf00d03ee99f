-- The page register that all DMA commands share. At most one command is open:
-- from its issue to its completion the page belongs to it, and `PageOk` says at
-- each place of the device and of the host what the page and both memories hold.
import S4Sim.HostInterface.Messages
import Mathlib.Data.List.GetD
import Mathlib.Data.List.Nodup

namespace S4Sim

open Runs

/-! ## The ends of a transfer -/

def HostCmdReg.hostAddr (r : HostCmdReg) : Nat := (r.message 0).dma_addr.toNat

def HostCmdReg.ssdBase (r : HostCmdReg) : Nat := (r.message 0).ssdAddr.toNat

def HostCmdReg.len (r : HostCmdReg) : Nat := (r.message 0).size.toNat

/-- A byte of the command as it was at the source when the command was issued. -/
def IssuedCmd.byte (i : IssuedCmd) (x : Nat) : UInt8 := i.bytes.getD x 0

/-- The command with the number raises an interrupt. -/
def raises (issued : List IssuedCmd) (j : Nat) : Bool :=
  issued[j]?.any fun i => i.regs.cmd = .PCI_DMA_CQ_WRITE ∧ i.regs.isr_notify ≠ 0

/-- The vector that a command hands to the host. -/
def msixVector (i : IssuedCmd) : Option UInt32 :=
  if i.regs.cmd = .PCI_ENABLE_MSIX_VECTOR then some i.regs.cqIntVector else none

/-- The message is the one of the DMA command with the number. -/
structure SsdMsg.Of (m : SsdMsg) (j : Nat) (r : HostCmdReg) : Prop where
  number : m.number = j
  cmd : m.cmd = r.cmd
  page : getPageRegister m.page_index = some 0
  addr : m.dma_addr.toNat = r.hostAddr
  ssd : m.ssdAddr.toNat = r.ssdBase
  len : m.size.toNat = r.len

/-! ## Where the host is with a command -/

inductive HostAt
  | before
  | copying (left : List Nat)
  | waiting
  | writing (left : List Nat)
  | notifying
  | done

def HostPc.at : HostPc → HostAt
  | .idle | .wait_msg _ => .before
  | .pci_dma_read _ left => .copying left
  | .wait_data _ => .waiting
  | .pci_dma_write _ left => .writing left
  | .notify _ => .notifying

/-- The host has seen `msg_ready` of the message in hand. -/
def HostPc.passed : HostPc → Bool
  | .idle | .wait_msg _ => false
  | .pci_dma_read .. | .wait_data _ | .pci_dma_write .. | .notify _ => true

/-- The host does with the message what its command asks for. -/
def HostPc.Serves (r : HostCmdReg) : HostPc → Prop
  | .idle | .wait_msg _ => True
  | .pci_dma_read _ left => r.cmd.isRead = true ∧ ∀ x ∈ left, x < r.len
  | .wait_data _ | .notify _ => r.cmd.isWrite = true
  | .pci_dma_write _ left => r.cmd.isWrite = true ∧ ∀ x ∈ left, x < r.len

namespace HostInterface

def hostAt (s : HostInterface) (j : Nat) : HostAt :=
  if j < s.handled.length then .done
  else if s.handled.length < j then .before
  else s.host.at

/-- The command is issued and not yet complete. -/
def Open (s : HostInterface) (j : Nat) : Prop :=
  j + 1 = s.issued.length ∧ (s.device ≠ .idle ∨ s.events ≠ [])

/-- The host is done with the page of the command. -/
def PageDone (s : HostInterface) (j : Nat) : Prop :=
  s.hostAt j = .notifying ∨ s.hostAt j = .done

/-- The bytes of the page that are not left to move are those of the command. -/
def PageHolds (s : HostInterface) (j : Nat) (i : IssuedCmd) (left : List Nat) : Prop :=
  ∀ x, x < i.regs.len → x ∉ left →
    (s.pages 0).data x = i.byte x ∧ (s.pages 0).writer x = j

def HostHolds (s : HostInterface) (i : IssuedCmd) (left : List Nat) : Prop :=
  ∀ x, x < i.regs.len → x ∉ left → s.host_mem (i.regs.hostAddr + x) = i.byte x

def SsdHolds (s : HostInterface) (i : IssuedCmd) (left : List Nat) : Prop :=
  ∀ x, x < i.regs.len → x ∉ left → s.ssd_mem (i.regs.ssdBase + x) = i.byte x

/-- A read, until the device sees the page. -/
def ReadOk (s : HostInterface) (j : Nat) (i : IssuedCmd) : Prop :=
  match s.hostAt j with
  | .before => (s.pages 0).data_status = .data_status_free
  | .copying left => (s.pages 0).data_status = .data_status_free ∧ s.PageHolds j i left
  | .done => (s.pages 0).data_status = .data_status_ready ∧ s.PageHolds j i []
  | _ => False

/-- A write, until the device has the data in the page. -/
def WriteOk (s : HostInterface) (j : Nat) : Prop :=
  (s.pages 0).data_status = .data_status_free ∧ (s.hostAt j = .before ∨ s.hostAt j = .waiting)

/-- A write, from then on. -/
def SentOk (s : HostInterface) (j : Nat) (i : IssuedCmd) : Prop :=
  match s.hostAt j with
  | .before | .waiting => (s.pages 0).data_status = .data_status_ready ∧ s.PageHolds j i []
  | .writing left =>
    (s.pages 0).data_status = .data_status_ready ∧ s.PageHolds j i [] ∧ s.HostHolds i left
  | .notifying | .done => (s.pages 0).data_status = .data_status_used ∧ s.HostHolds i []
  | .copying _ => False

/-- What holds of the open command at the event that it waits for. -/
def EventOk (s : HostInterface) (j : Nat) (i : IssuedCmd) : DeviceEvent → Prop
  | .read_host_complete msg =>
    msg = j % SSDMsgQueueSize ∧ i.regs.cmd.isRead = true ∧ s.ReadOk j i
  | .write_ssd_complete msg left =>
    msg = j % SSDMsgQueueSize ∧ i.regs.cmd.isRead = true ∧ (∀ x ∈ left, x < i.regs.len) ∧
      s.hostAt j = .done ∧ s.PageHolds j i [] ∧ s.SsdHolds i left
  | .read_ssd_complete msg left =>
    msg = j % SSDMsgQueueSize ∧ i.regs.cmd.isWrite = true ∧ (∀ x ∈ left, x < i.regs.len) ∧
      s.WriteOk j ∧ s.PageHolds j i left
  | .write_host_complete msg =>
    msg = j % SSDMsgQueueSize ∧ i.regs.cmd.isWrite = true ∧ s.SentOk j i

/-- What holds of the open command at each place of the device. -/
def PageOk (s : HostInterface) (j : Nat) (i : IssuedCmd) : Prop :=
  match s.device with
  | .enQueuePageRegister => True
  | .idle => ∃ e, s.events = [e] ∧ s.EventOk j i e
  | _ => (i.regs.cmd.isRead = true → s.ReadOk j i) ∧ (i.regs.cmd.isWrite = true → s.WriteOk j)

/-- The firmware has one command at a time, and both sides follow it. -/
structure Control (s : HostInterface) : Prop where
  status : s.cmdStatus = .PROCESSING ↔ s.events ≠ []
  quiet : s.device ≠ .idle → s.events = []
  flight : s.events ≠ [] → s.issued ≠ []
  calm : s.device ≠ .panic
  few : s.device = .enQueuePageRegister ∨ s.device = .enQueueSSDMsg →
    s.issued.length < s.handled.length + SSDMsgQueueSize
  small : ∀ i ∈ s.issued, i.regs.len ≤ INTERFACE_DMA_PAGE_SIZE
  bytes : ∀ i ∈ s.issued, i.bytes.length = i.regs.len
  passed : s.host.passed = true → s.handled.length < s.issued.length - s.device.unready
  serves : ∀ i, s.issued[s.handled.length]? = some i → s.host.Serves i.regs

/-- The page and both memories follow the open command. -/
structure PageUse (s : HostInterface) : Prop where
  settled : ∀ j i, s.issued[j]? = some i → i.regs.cmd.isDma = true → ¬ s.Open j →
    s.PageDone j ∧ ∃ e ∈ s.completions, e.number = j
  source : ∀ j i, s.issued[j]? = some i → i.regs.cmd.isDma = true → s.Open j →
    s.source i.regs = i.bytes
  page : ∀ j i, s.issued[j]? = some i → s.Open j → s.PageOk j i
  notify : ∀ msg i, s.host = .notify msg → s.issued[s.handled.length]? = some i → s.HostHolds i []

/-- The records of the run: each completion has the bytes of its command at both ends, each
interrupt comes with the bytes of its command, and no byte of the page is that of another
command. -/
structure Records (s : HostInterface) : Prop where
  completions : ∀ e ∈ s.completions, ∃ i, s.issued[e.number]? = some i ∧ i.regs.cmd.isDma = true ∧
    e.ssd = i.bytes ∧ e.host = i.bytes
  closed : ∀ e ∈ s.completions, ¬ s.Open e.number
  once : (s.completions.map (·.number)).Nodup
  interrupts : ∀ e ∈ s.interrupts, ∃ i, s.issued[e.number]? = some i ∧
    e.vector = i.regs.cqIntVector ∧ e.host = i.bytes
  raised : s.interrupts.map (·.number) = (List.range s.handled.length).filter (raises s.issued)
  vectors : s.vectors = (s.issued.take s.handled.length).filterMap msixVector
  page_reads : ∀ p ∈ s.page_reads, p.1 = p.2

variable {s s' : HostInterface} {a : HostIfAction} {msg page j : Nat} {i : IssuedCmd}
  {left : List Nat}

/-! ## The messages of the commands -/

theorem of_filled (hnumber : (s.msgs msg).number = j) (hcmd : (s.msgs msg).cmd = i.regs.cmd)
    (hfill : fillMsg i.regs 1 (s.msgs msg) = s.msgs msg) (hdma : i.regs.cmd.isDma = true) :
    (s.msgs msg).Of j i.regs := by
  obtain ⟨hpage, haddr, hssd, hlen⟩ := fillMsg_dma (n := 0) hfill hdma
  refine ⟨hnumber, hcmd, ?_, ?_, ?_, ?_⟩
  · rw [hpage]
    rfl
  · rw [haddr]
    rfl
  · rw [hssd]
    rfl
  · rw [hlen]
    rfl

theorem unwritten_le (pc : DevicePc) : pc.unwritten ≤ pc.unfilled ∧ pc.unfilled ≤ pc.unready := by
  cases pc <;> simp [DevicePc.unwritten, DevicePc.unfilled, DevicePc.unready]

/-- The message of the newest command, once its fields are written. -/
theorem InOrder.newest (h : s.InOrder) (hd : s.device.unfilled = 0)
    (hi : s.issued[j]? = some i) (hj : j + 1 = s.issued.length) (hdma : i.regs.cmd.isDma = true) :
    (s.msgs (j % SSDMsgQueueSize)).Of j i.regs := by
  have hw := unwritten_le s.device
  have hwindow : s.issued.length - s.device.unwritten ≤ j + SSDMsgQueueSize := by
    rw [ring_size]
    omega
  obtain ⟨hnumber, hcmd⟩ := h.numbered j i hi (by omega) hwindow
  exact of_filled hnumber hcmd (h.filled j i hi (by omega) hwindow) hdma

/-- The message that the host has in hand, once it has seen `msg_ready`. -/
theorem InOrder.inHand (h : s.InOrder) (hslot : s.host.slot = some msg)
    (hpassed : s.handled.length < s.issued.length - s.device.unready)
    (hi : s.issued[s.handled.length]? = some i) (hdma : i.regs.cmd.isDma = true) :
    (s.msgs msg).Of s.handled.length i.regs := by
  obtain ⟨i', hi', hnumber, hcmd⟩ := h.current hslot
  cases hi.symm.trans hi'
  have hw := unwritten_le s.device
  have hdeq : s.dequeued = s.handled.length + 1 := HostInterface.dequeued_busy hslot
  have hroom := h.room
  have hfill := h.filled _ _ hi (by omega) (by omega)
  rw [← h.host_slot msg hslot] at hfill
  exact of_filled hnumber hcmd hfill hdma

/-- The interrupt of a completion that the host has in hand. -/
theorem InOrder.inHand_cq (h : s.InOrder) (hslot : s.host.slot = some msg)
    (hpassed : s.handled.length < s.issued.length - s.device.unready)
    (hi : s.issued[s.handled.length]? = some i) (hcq : i.regs.cmd = .PCI_DMA_CQ_WRITE) :
    (s.msgs msg).cqIntVector = i.regs.cqIntVector ∧
      (s.msgs msg).isr_notify = i.regs.isr_notify := by
  have hw := unwritten_le s.device
  have hdeq : s.dequeued = s.handled.length + 1 := HostInterface.dequeued_busy hslot
  have hroom := h.room
  have hfill := h.filled _ _ hi (by omega) (by omega)
  rw [← h.host_slot msg hslot] at hfill
  rw [← hfill, fillMsg, hcq]
  exact ⟨rfl, rfl⟩

/-! ## The place of the host -/

theorem hostAt_self : s.hostAt s.handled.length = s.host.at := by simp [hostAt]

theorem hostAt_congr (hhandled : s'.handled = s.handled) (hhost : s'.host.at = s.host.at) :
    s'.hostAt j = s.hostAt j := by
  rw [hostAt, hostAt, hhandled, hhost]

theorem hostAt_of_ne (hhandled : s'.handled = s.handled) (hj : j ≠ s.handled.length) :
    s'.hostAt j = s.hostAt j := by
  rw [hostAt, hostAt, hhandled]
  by_cases hlt : j < s.handled.length
  · rw [if_pos hlt, if_pos hlt]
  · rw [if_neg hlt, if_neg hlt, if_pos (by omega), if_pos (by omega)]

theorem pageDone_iff :
    s.PageDone j ↔ j < s.handled.length ∨ j = s.handled.length ∧ s.host.at = .notifying := by
  unfold PageDone hostAt
  by_cases hlt : j < s.handled.length
  · simp [hlt]
  · by_cases hgt : s.handled.length < j
    · simp [hlt, hgt]
      omega
    · have he : j = s.handled.length := by omega
      subst he
      cases s.host <;> simp [HostPc.at]

theorem PageDone.mono (h : s.PageDone j) (hlen : s.handled.length ≤ s'.handled.length)
    (hhost : s.host.at = .notifying → s'.handled.length = s.handled.length →
      s'.host.at = .notifying) : s'.PageDone j := by
  rw [pageDone_iff] at h ⊢
  rcases h with hlt | ⟨he, hn⟩
  · exact Or.inl (by omega)
  · by_cases hgt : s.handled.length < s'.handled.length
    · exact Or.inl (by omega)
    · exact Or.inr ⟨by omega, hhost hn (by omega)⟩

/-- A DMA command that the host still has to serve is the open one. -/
theorem PageUse.open_of (h : s.PageUse) (hi : s.issued[j]? = some i)
    (hdma : i.regs.cmd.isDma = true) (hnot : ¬ s.PageDone j) : s.Open j := by
  by_contra hopen
  exact hnot (h.settled j i hi hdma hopen).1

theorem isDma_of_read (h : i.regs.cmd.isRead = true) : i.regs.cmd.isDma = true := by
  simp [HostCmd.isDma, h]

theorem isDma_of_write (h : i.regs.cmd.isWrite = true) : i.regs.cmd.isDma = true := by
  simp [HostCmd.isDma, h]

theorem not_write_of_read {cmd : HostCmd} (h : cmd.isRead = true) : cmd.isWrite = false := by
  cases cmd <;> simp_all [HostCmd.isRead, HostCmd.isWrite]

/-! ## What the page holds while the host serves the open command -/

/-- A read that the host is not done with: the place of the device stays as it is. -/
theorem PageOk.read (h : s.PageOk j i) (hread : i.regs.cmd.isRead = true)
    (hready : s.device.unready = 0) (hnot : s.hostAt j ≠ .done) :
    s.ReadOk j i ∧ ∀ t : HostInterface, t.device = s.device → t.events = s.events →
      t.ReadOk j i → t.PageOk j i := by
  have hwrite := not_write_of_read hread
  unfold PageOk at h
  cases hd : s.device <;> rw [hd] at h hready <;> try cases hready
  · obtain ⟨e, he, hok⟩ := h
    cases e with
    | read_host_complete msg =>
      obtain ⟨hmsg, -, hpage⟩ := hok
      refine ⟨hpage, ?_⟩
      intro t htd hte ht
      unfold PageOk
      rw [htd]
      exact ⟨_, hte.trans he, hmsg, hread, ht⟩
    | write_ssd_complete msg left => exact absurd hok.2.2.2.1 hnot
    | read_ssd_complete msg left => exact absurd hok.2.1 (by simp [hwrite])
    | write_host_complete msg => exact absurd hok.2.1 (by simp [hwrite])
  · refine ⟨h.1 hread, ?_⟩
    intro t htd _ ht
    unfold PageOk
    rw [htd]
    exact ⟨fun _ => ht, fun hw => absurd hw (by simp [hwrite])⟩

/-- A write has its data in the page, or the host waits for them. -/
theorem PageOk.write (h : s.PageOk j i) (hwrite : i.regs.cmd.isWrite = true)
    (hready : s.device.unready = 0) :
    (s.WriteOk j ∧ ∀ t : HostInterface, t.device = s.device → t.events = s.events →
      t.pages = s.pages → t.WriteOk j → t.PageOk j i) ∨
    (s.SentOk j i ∧ ∀ t : HostInterface, t.device = s.device → t.events = s.events →
      t.SentOk j i → t.PageOk j i) := by
  have hread : i.regs.cmd.isRead = false := by
    by_contra hread
    have := not_write_of_read (by simpa using hread)
    simp [hwrite] at this
  unfold PageOk at h
  cases hd : s.device <;> rw [hd] at h hready <;> try cases hready
  · obtain ⟨e, he, hok⟩ := h
    cases e with
    | read_host_complete msg => exact absurd hok.2.1 (by simp [hread])
    | write_ssd_complete msg left => exact absurd hok.2.1 (by simp [hread])
    | read_ssd_complete msg left =>
      obtain ⟨hmsg, -, hleft, hpage, hholds⟩ := hok
      refine Or.inl ⟨hpage, ?_⟩
      intro t htd hte htp ht
      unfold PageOk
      rw [htd]
      refine ⟨_, hte.trans he, hmsg, hwrite, hleft, ht, ?_⟩
      intro x hx hxl
      rw [htp]
      exact hholds x hx hxl
    | write_host_complete msg =>
      obtain ⟨hmsg, -, hpage⟩ := hok
      refine Or.inr ⟨hpage, ?_⟩
      intro t htd hte ht
      unfold PageOk
      rw [htd]
      exact ⟨_, hte.trans he, hmsg, hwrite, ht⟩
  · refine Or.inl ⟨h.2 hwrite, ?_⟩
    intro t htd _ _ ht
    unfold PageOk
    rw [htd]
    exact ⟨fun hr => absurd hr (by simp [hread]), fun _ => ht⟩

theorem pageOk_issuing (hidle : s.device ≠ .idle) (hpage : s.device ≠ .enQueuePageRegister) :
    s.PageOk j i ↔
      (i.regs.cmd.isRead = true → s.ReadOk j i) ∧ (i.regs.cmd.isWrite = true → s.WriteOk j) := by
  unfold PageOk
  cases hd : s.device with
  | idle => exact absurd hd hidle
  | enQueuePageRegister => exact absurd hd hpage
  | _ => rfl

/-! ## The bytes at both ends -/

theorem bytesAt_eq {mem : Nat → UInt8} {a n : Nat} {l : List UInt8} (hlen : l.length = n)
    (h : ∀ x, x < n → mem (a + x) = l.getD x 0) : bytesAt mem a n = l := by
  apply List.ext_getElem
  · simp [bytesAt, hlen]
  · intro x hx hx'
    simp only [bytesAt, List.getElem_map, List.getElem_range]
    rw [h x (hlen ▸ hx'), List.getD_eq_getElem _ _ hx']

theorem source_eq_host (hread : i.regs.cmd.isRead = true) :
    s.source i.regs = bytesAt s.host_mem i.regs.hostAddr i.regs.len := by
  unfold HostInterface.source
  rw [if_pos hread]
  rfl

theorem source_eq_ssd (hwrite : i.regs.cmd.isWrite = true) :
    s.source i.regs = bytesAt s.ssd_mem i.regs.ssdBase i.regs.len := by
  have hread : ¬ i.regs.cmd.isRead = true := by
    intro hread
    have := not_write_of_read hread
    simp [hwrite] at this
  unfold HostInterface.source
  rw [if_neg hread]
  rfl

theorem source_length {r : HostCmdReg} : (s.source r).length = r.len := by
  unfold HostInterface.source
  dsimp only
  split <;> simp [bytesAt] <;> rfl

/-- A byte at the source of the open command. -/
theorem byte_of_bytesAt {mem : Nat → UInt8} {b n x : Nat} (h : bytesAt mem b n = i.bytes)
    (hx : x < n) : mem (b + x) = i.byte x := by
  unfold IssuedCmd.byte
  rw [← h, List.getD_eq_getElem _ _ (by simpa [bytesAt] using hx)]
  simp [bytesAt]

/-- The bytes of an end that holds all bytes of the command. -/
theorem bytesAt_of_holds {mem : Nat → UInt8} {b : Nat} (hsource : s.source i.regs = i.bytes)
    (h : ∀ x, x < i.regs.len → x ∉ ([] : List Nat) → mem (b + x) = i.byte x) :
    bytesAt mem b i.regs.len = i.bytes :=
  bytesAt_eq (by rw [← hsource, source_length]) fun x hx => h x hx List.not_mem_nil

/-! ## A new command -/

theorem Control.not_open (hc : s.Control) (hidle : s.device = .idle)
    (hstatus : s.cmdStatus ≠ .PROCESSING) : s.events = [] ∧ ∀ j, ¬ s.Open j := by
  have hevents : s.events = [] := by
    by_contra he
    exact hstatus (hc.status.mpr he)
  refine ⟨hevents, ?_⟩
  rintro j ⟨-, hd | he⟩
  · exact hd hidle
  · exact he hevents

theorem Control.issue (hc : s.Control) {r : HostCmdReg} (hidle : s.device = .idle)
    (hstatus : s.cmdStatus ≠ .PROCESSING)
    (hroom : s.issued.length + 1 < s.handled.length + SSDMsgQueueSize)
    (hlen : r.len ≤ INTERFACE_DMA_PAGE_SIZE) : (s.issue r).Control := by
  have hevents := (hc.not_open hidle hstatus).1
  have hdevice : (s.issue r).device ≠ .panic ∧ (s.issue r).device.unready = 1 := by
    simp only [HostInterface.issue]
    split <;> exact ⟨by simp, rfl⟩
  have hcount : (s.issue r).issued.length = s.issued.length + 1 := by simp [HostInterface.issue]
  refine ⟨hc.status, fun _ => hevents, ?_, hdevice.1, ?_, ?_, ?_, ?_, ?_⟩
  · intro he
    exact absurd hevents he
  · intro _
    rw [hcount]
    exact hroom
  · intro i hi
    simp only [HostInterface.issue, List.mem_append, List.mem_singleton] at hi
    rcases hi with hi | rfl
    · exact hc.small i hi
    · exact hlen
  · intro i hi
    simp only [HostInterface.issue, List.mem_append, List.mem_singleton] at hi
    rcases hi with hi | rfl
    · exact hc.bytes i hi
    · exact source_length
  · intro hp
    have := hc.passed hp
    rw [hidle] at this
    rw [hcount, hdevice.2]
    exact this
  · intro i hi
    by_cases hp : s.host.passed = true
    · have hlt := hc.passed hp
      rw [hidle] at hlt
      have hold : s.issued[s.handled.length]? = some i := by
        simp only [HostInterface.issue] at hi
        rwa [List.getElem?_append_left (by simpa [DevicePc.unready] using hlt)] at hi
      exact hc.serves i hold
    · show s.host.Serves i.regs
      cases hh : s.host <;> rw [hh] at hp <;> trivial

theorem PageUse.issue (h : s.PageUse) (hc : s.Control) {r : HostCmdReg} (hidle : s.device = .idle)
    (hstatus : s.cmdStatus ≠ .PROCESSING) : (s.issue r).PageUse := by
  obtain ⟨hevents, hclosed⟩ := hc.not_open hidle hstatus
  have hne : (s.issue r).device ≠ .idle := by
    simp only [HostInterface.issue]
    split <;> simp
  have hnew : ∀ j i, (s.issue r).issued[j]? = some i → j ≠ s.issued.length →
      s.issued[j]? = some i := by
    intro j i hi hj
    have hlt := (List.getElem?_eq_some_iff.mp hi).1
    simp only [HostInterface.issue, List.length_append, List.length_singleton] at hlt
    rwa [HostInterface.issue, List.getElem?_append_left (by omega)] at hi
  have hlast : ∀ j i, (s.issue r).issued[j]? = some i → (s.issue r).Open j →
      i = ⟨r, s.source r⟩ := by
    rintro j i hi ⟨hj, -⟩
    simp only [HostInterface.issue, List.length_append, List.length_singleton] at hj hi
    rw [show j = s.issued.length by omega, List.getElem?_concat_length] at hi
    exact (Option.some.inj hi).symm
  refine ⟨?_, ?_, ?_, ?_⟩
  · intro j i hi hdma hopen
    have hj : j ≠ s.issued.length := by
      rintro rfl
      exact hopen ⟨by simp [HostInterface.issue], Or.inl hne⟩
    exact h.settled j i (hnew j i hi hj) hdma (hclosed j)
  · intro j i hi _ hopen
    rw [hlast j i hi hopen]
    rfl
  · intro j i hi hopen
    rw [hlast j i hi hopen]
    unfold PageOk
    by_cases hdma : r.cmd.isDma = true
    · simp [HostInterface.issue, hdma]
    · simp only [HostInterface.issue, hdma]
      simp only [HostCmd.isDma, Bool.or_eq_true, not_or] at hdma
      exact ⟨fun hr => absurd hr hdma.1, fun hw => absurd hw hdma.2⟩
  · intro msg i hhost hi
    have hlt := hc.passed (by rw [show s.host = _ from hhost]; rfl)
    exact h.notify msg i hhost (hnew _ i hi (by
      show s.handled.length ≠ s.issued.length
      omega))

/-! ## The routine of a command -/

theorem PageUse.moveDevice (h : s.PageUse) {tail : Nat} {msgs : Nat → SsdMsg} {pc : DevicePc}
    (hd : s.device ≠ .idle) (hd' : s.device ≠ .enQueuePageRegister) (hpc : pc ≠ .idle)
    (hpc' : pc ≠ .enQueuePageRegister) :
    PageUse { s with tail := tail, msgs := msgs, device := pc } := by
  have hopen : ∀ j, Open { s with tail := tail, msgs := msgs, device := pc } j → s.Open j :=
    fun j ho => ⟨ho.1, Or.inl hd⟩
  refine ⟨?_, ?_, ?_, h.notify⟩
  · intro j i hi hdma ho
    exact h.settled j i hi hdma fun ho' => ho ⟨ho'.1, Or.inl hpc⟩
  · intro j i hi hdma ho
    exact h.source j i hi hdma (hopen j ho)
  · intro j i hi ho
    rw [pageOk_issuing hpc hpc']
    exact (pageOk_issuing hd hd').mp (h.page j i hi (hopen j ho))

/-- The page becomes free when nobody uses it. -/
theorem PageUse.enQueuePageRegister (h : s.PageUse) (hr : s.InOrder)
    (hd : s.device = .enQueuePageRegister) :
    PageUse { s.enQueuePageRegister with device := .enQueueSSDMsg } := by
  have hopen : ∀ j, Open { s.enQueuePageRegister with device := .enQueueSSDMsg } j → s.Open j :=
    fun j ho => ⟨ho.1, Or.inl (by simp [hd])⟩
  refine ⟨?_, ?_, ?_, h.notify⟩
  · intro j i hi hdma ho
    exact h.settled j i hi hdma fun ho' => ho ⟨ho'.1, Or.inl nofun⟩
  · intro j i hi hdma ho
    exact h.source j i hi hdma (hopen j ho)
  · intro j i hi ho
    have hfree : ((s.enQueuePageRegister).pages 0).data_status = .data_status_free := by
      simp [HostInterface.enQueuePageRegister]
    have hbefore : s.hostAt j = .before := by
      have hqueued := hr.queued
      have hj := ho.1
      simp only [hd, DevicePc.unqueued, dequeued] at hqueued
      unfold hostAt
      cases hh : s.host <;> simp only [hh, HostPc.slot, Option.toList, List.length_singleton,
        List.length_nil] at hqueued
      all_goals simp only [HostInterface.enQueuePageRegister] at hj
      · rw [if_neg (by omega)]
        split <;> rfl
      all_goals rw [if_neg (by omega), if_pos (by omega)]
    refine (pageOk_issuing (by simp) (by simp)).mpr ⟨?_, ?_⟩
    · intro _
      have hat : HostInterface.hostAt { s.enQueuePageRegister with device := .enQueueSSDMsg } j =
        .before := hbefore
      unfold ReadOk
      rw [hat]
      exact hfree
    · intro _
      exact ⟨hfree, Or.inl hbefore⟩

theorem Control.moveDevice (hc : s.Control) {tail : Nat} {msgs : Nat → SsdMsg}
    {pages : Nat → PageReg} {pc : DevicePc} (hd : s.device ≠ .idle) (hpanic : pc ≠ .panic)
    (hfew : pc ≠ .enQueuePageRegister)
    (hfew' : pc = .enQueueSSDMsg → s.device = .enQueuePageRegister)
    (hready : pc.unready ≤ s.device.unready) :
    Control { s with tail := tail, msgs := msgs, pages := pages, device := pc } := by
  refine ⟨hc.status, fun _ => hc.quiet hd, hc.flight, hpanic, ?_, hc.small, hc.bytes, ?_, hc.serves⟩
  · rintro (he | he)
    · exact absurd he hfew
    · exact hc.few (Or.inl (hfew' he))
  · intro hp
    have := hc.passed hp
    show s.handled.length < s.issued.length - pc.unready
    omega

/-- The ring has a place for the message of each command. -/
theorem InOrder.not_full (hr : s.InOrder) (hc : s.Control) (hd : s.device = .enQueueSSDMsg) :
    s.head ≠ (s.tail + 1) % SSDMsgQueueSize := by
  have hfew := hc.few (Or.inr hd)
  have htail := hr.tail
  have hqueued := hr.queued
  obtain ⟨last, hlast, -⟩ := hr.started (by simp [hd])
  have hpos := (List.getElem?_eq_some_iff.mp hlast).1
  simp only [hd, DevicePc.unqueued, dequeued] at htail hqueued
  rw [hr.head, htail, Nat.mod_add_mod]
  rw [dequeued]
  rw [ring_size] at *
  omega

/-- The last step of the routine starts the event of the command. -/
theorem Control.startDma (hc : s.Control) (hr : s.InOrder) (hd : s.device = .set_status msg) :
    Control { s.startDma msg with device := .idle } := by
  have hquiet := hc.quiet (by simp [hd])
  obtain ⟨last, hlast, -⟩ := hr.started (by simp [hd])
  have hissued : s.issued ≠ [] := by
    intro he
    simp [he] at hlast
  have hpassed : s.host.passed = true → s.handled.length < s.issued.length - 0 := by
    intro hp
    have := hc.passed hp
    rwa [hd] at this
  unfold HostInterface.startDma
  cases s.Registers.cmd with
  | PCI_ENABLE_MSIX_VECTOR =>
    refine ⟨?_, fun hn => absurd rfl hn, hc.flight, nofun, nofun, hc.small, hc.bytes,
      hpassed, hc.serves⟩
    simp [hquiet]
  | _ =>
    refine ⟨?_, fun hn => absurd rfl hn, fun _ => hissued, nofun, nofun, hc.small, hc.bytes,
      hpassed, hc.serves⟩
    simp

theorem PageUse.startDma (h : s.PageUse) (hc : s.Control) (hr : s.InOrder)
    (hd : s.device = .set_status msg) : PageUse { s.startDma msg with device := .idle } := by
  have hquiet := hc.quiet (by simp [hd])
  obtain ⟨last, hlast, hregs⟩ := hr.started (by simp [hd])
  have hpos := (List.getElem?_eq_some_iff.mp hlast).1
  have hslot := hr.device_slot msg (by rw [hd]; rfl)
  have hlast' : ∀ j i, s.issued[j]? = some i → j + 1 = s.issued.length → i = last := by
    intro j i hi hj
    rw [show j = s.issued.length - 1 by omega, hlast] at hi
    exact (Option.some.inj hi).symm
  have hslot' : ∀ j, j + 1 = s.issued.length → msg = j % SSDMsgQueueSize := by
    intro j hj
    rw [hslot, show s.issued.length - 1 = j by omega]
  have hopen : ∀ j, j + 1 = s.issued.length → s.Open j := fun j hj => ⟨hj, Or.inl (by simp [hd])⟩
  have hok : ∀ j i, s.issued[j]? = some i → j + 1 = s.issued.length →
      (i.regs.cmd.isRead = true → s.ReadOk j i) ∧ (i.regs.cmd.isWrite = true → s.WriteOk j) := by
    intro j i hi hj
    exact (pageOk_issuing (by simp [hd]) (by simp [hd])).mp (h.page j i hi (hopen j hj))
  have hread : s.Registers.cmd.isRead = true → PageUse
      { s with
        cmdStatus := .PROCESSING
        events := s.events ++ [.read_host_complete msg]
        device := .idle } := by
    intro hcmd
    refine ⟨?_, ?_, ?_, h.notify⟩
    · intro j i hi hdma ho
      exact h.settled j i hi hdma fun ho' => ho ⟨ho'.1, Or.inr (by simp)⟩
    · intro j i hi hdma ho
      exact h.source j i hi hdma (hopen j ho.1)
    · intro j i hi ho
      have hcmd' : i.regs.cmd.isRead = true := by rw [hlast' j i hi ho.1, hregs, hcmd]
      refine ⟨.read_host_complete msg, by simp [hquiet], hslot' j ho.1, hcmd', ?_⟩
      exact (hok j i hi ho.1).1 hcmd'
  have hwrite : s.Registers.cmd.isWrite = true → PageUse
      { s with
        cmdStatus := .PROCESSING
        events := s.events ++ [.read_ssd_complete msg (List.range (s.msgs msg).size.toNat)]
        device := .idle } := by
    intro hcmd
    refine ⟨?_, ?_, ?_, h.notify⟩
    · intro j i hi hdma ho
      exact h.settled j i hi hdma fun ho' => ho ⟨ho'.1, Or.inr (by simp)⟩
    · intro j i hi hdma ho
      exact h.source j i hi hdma (hopen j ho.1)
    · intro j i hi ho
      have hcmd' : i.regs.cmd.isWrite = true := by rw [hlast' j i hi ho.1, hregs, hcmd]
      have hof := hr.newest (by rw [hd]; rfl) hi ho.1 (isDma_of_write hcmd')
      rw [← hslot' j ho.1] at hof
      refine ⟨.read_ssd_complete msg (List.range (s.msgs msg).size.toNat), by simp [hquiet],
        hslot' j ho.1, hcmd', ?_, (hok j i hi ho.1).2 hcmd', ?_⟩
      · intro x hx
        rw [hof.len] at hx
        exact List.mem_range.mp hx
      · intro x hx hxl
        rw [hof.len] at hxl
        exact absurd (List.mem_range.mpr hx) hxl
  unfold HostInterface.startDma
  cases hcmd : s.Registers.cmd with
  | PCI_DMA_READ => exact hread (by rw [hcmd]; rfl)
  | PCI_DMA_SQ_READ => exact hread (by rw [hcmd]; rfl)
  | PCI_DMA_WRITE => exact hwrite (by rw [hcmd]; rfl)
  | PCI_DMA_CQ_WRITE => exact hwrite (by rw [hcmd]; rfl)
  | PCI_ENABLE_MSIX_VECTOR =>
    have hclosed : ∀ j, ¬ Open { s with cmdStatus := .COMPLETE, device := .idle } j := by
      rintro j ⟨-, hn | hn⟩
      · exact hn rfl
      · exact hn hquiet
    refine ⟨?_, ?_, ?_, h.notify⟩
    · intro j i hi hdma _
      refine h.settled j i hi hdma ?_
      rintro ⟨hj, -⟩
      rw [hlast' j i hi hj, hregs, hcmd] at hdma
      exact absurd hdma (by decide)
    · intro j i _ _ ho
      exact absurd ho (hclosed j)
    · intro j i _ ho
      exact absurd ho (hclosed j)

/-- Each step of the routine of a command. -/
theorem Control.deviceStep (hc : s.Control) (hr : s.InOrder) (hstep : s.deviceStep = some s') :
    s'.Control := by
  unfold HostInterface.deviceStep at hstep
  cases hd : s.device <;> rw [hd] at hstep <;> dsimp only at hstep
  case idle => cases hstep
  case panic => cases hstep
  case enQueueSSDMsg =>
    rw [if_neg (hr.not_full hc hd)] at hstep
    cases hstep
    apply hc.moveDevice <;> simp [hd, DevicePc.unready]
  case set_status msg =>
    cases hstep
    exact hc.startDma hr hd
  all_goals
    cases hstep
    apply hc.moveDevice <;> simp [hd, DevicePc.unready]

theorem PageUse.deviceStep (h : s.PageUse) (hc : s.Control) (hr : s.InOrder)
    (hstep : s.deviceStep = some s') : s'.PageUse := by
  unfold HostInterface.deviceStep at hstep
  cases hd : s.device <;> rw [hd] at hstep <;> dsimp only at hstep
  case idle => cases hstep
  case panic => cases hstep
  case enQueuePageRegister =>
    cases hstep
    exact h.enQueuePageRegister hr hd
  case enQueueSSDMsg =>
    rw [if_neg (hr.not_full hc hd)] at hstep
    cases hstep
    apply h.moveDevice <;> simp [hd]
  case set_status msg =>
    cases hstep
    exact h.startDma hc hr hd
  all_goals
    cases hstep
    apply h.moveDevice <;> simp [hd]

end HostInterface

end S4Sim
