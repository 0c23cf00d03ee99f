-- The law of the protocol. The host handles each command once and in order, a
-- completion comes when the bytes are at both ends, and an interrupt comes after
-- its data. The vector command answers `COMPLETE` at once, so a run that issues
-- it while a DMA is under way breaks the law.
import S4Sim.HostInterface.HostProgress

namespace S4Sim

open Runs

/-! ## The law -/

namespace HostInterface

/-- `cmdStatus` is `COMPLETE` only when each DMA command is complete with its bytes at both
ends, the host has handled the first commands, each once, and an interrupt finds its data. -/
structure ProtocolKept (s : HostInterface) : Prop where
  in_order : s.handled = List.range s.handled.length ∧ s.handled.length ≤ s.issued.length
  vectors : s.vectors = (s.issued.take s.handled.length).filterMap msixVector
  complete : s.cmdStatus = .COMPLETE → s.device = .idle →
    ∀ j i, s.issued[j]? = some i → i.regs.cmd.isDma = true → ∃ e ∈ s.completions, e.number = j
  completions : ∀ e ∈ s.completions, ∃ i, s.issued[e.number]? = some i ∧ i.regs.cmd.isDma = true ∧
    e.ssd = i.bytes ∧ e.host = i.bytes
  once : (s.completions.map (·.number)).Nodup
  interrupts : ∀ e ∈ s.interrupts, ∃ i, s.issued[e.number]? = some i ∧
    e.vector = i.regs.cqIntVector ∧ e.host = i.bytes
  raised : s.interrupts.map (·.number) = (List.range s.handled.length).filter (raises s.issued)
  page_reads : ∀ p ∈ s.page_reads, p.1 = p.2

/-- The two sides come to an end with the commands that are issued: they can take only so
many steps, and they can take one as long as a command is not handled or not complete. -/
def EachServed (s : HostInterface) : Prop :=
  ∀ acts t, (∀ a ∈ acts, a.ofSides = true) → run hostIfStep s acts = some t →
    acts.length ≤ s.work ∧
      (t.handled.length < t.issued.length ∨ t.cmdStatus = .PROCESSING ∨ t.device ≠ .idle →
        t.CanStep)

variable {s s' : HostInterface} {a : HostIfAction}

theorem Kept.protocolKept (h : s.Kept) : s.ProtocolKept := by
  have hqueued := h.order.queued
  unfold dequeued at hqueued
  refine ⟨⟨h.order.handled, by omega⟩, h.records.vectors, ?_, h.records.completions, h.records.once,
    h.records.interrupts, h.records.raised, h.records.page_reads⟩
  intro hstatus hidle j i hi hdma
  have hclosed := (h.control.not_open hidle (by rw [hstatus]; nofun)).2
  exact (h.page.settled j i hi hdma (hclosed j)).2

theorem commandsWait_of_sides (h : a.ofSides = true) : CommandsWait s a := by
  cases a with
  | issue r => cases h
  | host_store c v => cases h
  | ssd_store c v => cases h
  | _ => trivial

theorem Kept.eachServed (h : s.Kept) : s.EachServed := by
  intro acts
  induction acts generalizing s with
  | nil =>
    intro t _ ht
    cases ht
    exact ⟨Nat.zero_le _, h.canStep⟩
  | cons a rest ih =>
    intro t hsides ht
    obtain ⟨u, hu, hrest⟩ := Option.bind_eq_some_iff.mp ht
    have ha := hsides a List.mem_cons_self
    have hwork := h.step_work ha hu
    obtain ⟨hlen, hgo⟩ := ih (h.step (commandsWait_of_sides ha) hu) t
      (fun b hb => hsides b (List.mem_cons_of_mem _ hb)) hrest
    refine ⟨?_, hgo⟩
    rw [List.length_cons]
    omega

/-! ## The conditions can be evaluated -/

theorem forall_issued_iff {P : Nat → IssuedCmd → Prop} :
    (∀ p ∈ s.issued.zipIdx, P p.2 p.1) ↔ ∀ j i, s.issued[j]? = some i → P j i := by
  constructor
  · intro h j i hi
    exact h (i, j) (List.mem_zipIdx_iff_getElem?.mpr hi)
  · intro h p hp
    exact h p.2 p.1 (List.mem_zipIdx_iff_getElem?.mp hp)

instance (j : Nat) : Decidable (s.Open j) := inferInstanceAs (Decidable (_ ∧ _))

instance (i : IssuedCmd) (c : Nat) : Decidable (TouchesHost i c) :=
  inferInstanceAs (Decidable (_ ∧ _))

instance (i : IssuedCmd) (c : Nat) : Decidable (TouchesSsd i c) :=
  inferInstanceAs (Decidable (_ ∧ _))

instance (s : HostInterface) : (a : HostIfAction) → Decidable (CommandsWait s a)
  | .issue _ => inferInstanceAs (Decidable (_ ∧ _ ∧ _))
  | .host_store _ _ => decidable_of_iff _ forall_issued_iff
  | .ssd_store _ _ => decidable_of_iff _ forall_issued_iff
  | .device | .event _ | .dma _ _ | .host | .host_copy _ => inferInstanceAs (Decidable True)

/-- Only a DMA command waits for the end of the one before. -/
def DmaWaits (s : HostInterface) : HostIfAction → Prop
  | .issue r => (r.cmd.isDma = true → s.cmdStatus ≠ .PROCESSING) ∧ r.len ≤ INTERFACE_DMA_PAGE_SIZE
  | .host_store .. | .ssd_store .. => False
  | .device | .event _ | .dma _ _ | .host | .host_copy _ => True

instance (s : HostInterface) : (a : HostIfAction) → Decidable (DmaWaits s a)
  | .issue _ => inferInstanceAs (Decidable (_ ∧ _))
  | .host_store .. | .ssd_store .. => inferInstanceAs (Decidable False)
  | .device | .event _ | .dma _ _ | .host | .host_copy _ => inferInstanceAs (Decidable True)

end HostInterface

open HostInterface

/-- When every command waits for the end of the one before, the protocol keeps its law in
every interleaving, and each command is served. -/
theorem the_host_serves_each_command_when_all_commands_wait {r : HostCmdReg}
    {msgs : Nat → SsdMsg} {pages : Nat → PageReg} {host_mem ssd_mem : Nat → UInt8}
    {acts : List HostIfAction} {s : HostInterface}
    (hok : AllSteps hostIfStep CommandsWait (initialHostIf r msgs pages host_mem ssd_mem) acts)
    (hrun : run hostIfStep (initialHostIf r msgs pages host_mem ssd_mem) acts = some s) :
    s.ProtocolKept ∧ s.EachServed := by
  have hkept : s.Kept := run_invariant_of_ok (I := fun _ t => t.Kept)
    (kept_initial r msgs pages host_mem ssd_mem)
    (fun _ _ _ _ _ ht hok hstep => ht.step hok hstep) hok hrun
  exact ⟨hkept.protocolKept, hkept.eachServed⟩

/-! ## Small runs -/

/-- A command over one byte, with an interrupt. -/
def smallCommand (cmd : HostCmd) : HostCmdReg := ⟨cmd, 0, 1, 0, 0, 0, 0, 0, 0, 0, 3, 1⟩

/-- Host memory is full of ones, the memory of the SSD and the shared memory are zero. -/
def smallHostIf : HostInterface :=
  initialHostIf (smallCommand .PCI_DMA_READ)
    (fun _ => ⟨.PCI_DMA_READ, 0, 0, 0, 0, 0, false, 0, 0⟩)
    (fun _ => ⟨.data_status_free, 0, fun _ => 0, fun _ => 0⟩) (fun _ => 1) (fun _ => 0)

/-- A command with its routine. -/
def issueCommand (cmd : HostCmd) : List HostIfAction :=
  .issue (smallCommand cmd) :: List.replicate (if cmd.isDma then 6 else 5) .device

/-- The host copies a byte in, and the device moves it into the SSD. -/
def serveRead : List HostIfAction :=
  [.host, .host, .host_copy 0, .host, .event 0, .dma 0 0, .event 0]

theorem the_host_serves_a_read_and_a_vector :
    ∃ s, run hostIfStep smallHostIf
        (issueCommand .PCI_DMA_READ ++ serveRead ++ issueCommand .PCI_ENABLE_MSIX_VECTOR ++
          [.host, .host]) = some s ∧
      s.handled = [0, 1] ∧ s.ssd_mem 0 = 1 ∧ s.ProtocolKept ∧ s.EachServed := by
  have hrun : (run hostIfStep smallHostIf
      (issueCommand .PCI_DMA_READ ++ serveRead ++ issueCommand .PCI_ENABLE_MSIX_VECTOR ++
        [.host, .host])).map (fun s => (s.handled, s.ssd_mem 0)) = some ([0, 1], 1) := by
    decide +kernel
  obtain ⟨s, hs, hview⟩ := Option.map_eq_some_iff.mp hrun
  rw [Prod.mk.injEq] at hview
  exact ⟨s, hs, hview.1, hview.2,
    the_host_serves_each_command_when_all_commands_wait (by decide +kernel) hs⟩

/-- The vector command sets `COMPLETE` while the read is still under way. -/
theorem a_vector_command_hides_that_a_read_is_under_way :
    ∃ acts s, AllSteps hostIfStep DmaWaits smallHostIf acts ∧
      run hostIfStep smallHostIf acts = some s ∧ s.cmdStatus = .COMPLETE ∧
      s.ssd_mem 0 ≠ s.host_mem 0 ∧ ¬ s.ProtocolKept := by
  have hrun : (run hostIfStep smallHostIf
      (issueCommand .PCI_DMA_READ ++ issueCommand .PCI_ENABLE_MSIX_VECTOR)).map
        (fun s => (s.cmdStatus, s.device, s.completions.length)) = some (.COMPLETE, .idle, 0) := by
    decide +kernel
  have hrun' : (run hostIfStep smallHostIf
      (issueCommand .PCI_DMA_READ ++ issueCommand .PCI_ENABLE_MSIX_VECTOR)).map
        (fun s => (s.ssd_mem 0, s.host_mem 0, s.issued.map fun i => i.regs.cmd)) =
      some (0, 1, [.PCI_DMA_READ, .PCI_ENABLE_MSIX_VECTOR]) := by
    decide +kernel
  obtain ⟨s, hs, hview⟩ := Option.map_eq_some_iff.mp hrun
  rw [hs] at hrun'
  simp only [Option.map_some, Option.some.injEq, Prod.mk.injEq] at hview hrun'
  obtain ⟨hstatus, hidle, hcompletions⟩ := hview
  obtain ⟨hssd, hhost, hissued⟩ := hrun'
  refine ⟨_, s, by decide +kernel, hs, hstatus, by rw [hssd, hhost]; decide, ?_⟩
  intro h
  have hfirst : (s.issued.map fun i => i.regs.cmd)[0]? = some HostCmd.PCI_DMA_READ := by
    rw [hissued]
    rfl
  rw [List.getElem?_map] at hfirst
  obtain ⟨i, hi, hcmd⟩ := Option.map_eq_some_iff.mp hfirst
  obtain ⟨e, he, -⟩ := h.complete hstatus hidle 0 i hi (by rw [hcmd]; rfl)
  rw [List.length_eq_zero_iff.mp hcompletions] at he
  cases he

end S4Sim
