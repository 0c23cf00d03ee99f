-- The events of the simulator and the bytes that its DMA moves. An event is
-- always the one of the open command, and the last event of a command records
-- what both memories hold when `cmdStatus` becomes `COMPLETE`.
import S4Sim.HostInterface.PageRegister

namespace S4Sim

open Runs

namespace HostInterface

variable {s s' : HostInterface} {a : HostIfAction} {msg page j : Nat} {i : IssuedCmd}
  {left : List Nat}

/-! ## The events -/

/-- An event is the one of the open command. -/
theorem PageUse.event (h : s.PageUse) (hc : s.Control) (hidle : s.device = .idle) {k : Nat}
    {e : DeviceEvent} (he : s.events[k]? = some e) :
    ∃ j i, s.events = [e] ∧ k = 0 ∧ s.issued[j]? = some i ∧ s.Open j ∧ s.EventOk j i e := by
  have hne : s.events ≠ [] := by
    intro hnil
    simp [hnil] at he
  have hissued := List.length_pos_iff.mpr (hc.flight hne)
  have hlt : s.issued.length - 1 < s.issued.length := by omega
  have hopen : s.Open (s.issued.length - 1) := ⟨by omega, Or.inr hne⟩
  have hpage := h.page _ _ (List.getElem?_eq_getElem hlt) hopen
  unfold PageOk at hpage
  rw [hidle] at hpage
  obtain ⟨e', he', hok⟩ := hpage
  rw [he'] at he
  have hk : k = 0 := by
    have := (List.getElem?_eq_some_iff.mp he).1
    simpa using this
  subst hk
  cases he
  exact ⟨_, _, he', rfl, List.getElem?_eq_getElem hlt, hopen, hok⟩

theorem EventOk.isDma {e : DeviceEvent} (h : s.EventOk j i e) : i.regs.cmd.isDma = true := by
  cases e with
  | read_host_complete msg => exact isDma_of_read h.2.1
  | write_ssd_complete msg left => exact isDma_of_read h.2.1
  | read_ssd_complete msg left => exact isDma_of_write h.2.1
  | write_host_complete msg => exact isDma_of_write h.2.1

/-- The open command waits for its next event. -/
theorem PageUse.nextEvent (h : s.PageUse) {e : DeviceEvent} (hi : s.issued[j]? = some i)
    (hopen : s.Open j) (hissued : s'.issued = s.issued) (hhandled : s'.handled = s.handled)
    (hhost : s'.host = s.host) (hcompletions : s'.completions = s.completions)
    (hmem : s'.host_mem = s.host_mem) (hidle : s'.device = .idle) (hevents : s'.events = [e])
    (hsource : s'.source i.regs = i.bytes) (hok : s'.EventOk j i e) : s'.PageUse := by
  have hopen' : s'.Open j := ⟨hissued ▸ hopen.1, Or.inr (by simp [hevents])⟩
  have hj : ∀ j' i', s.issued[j']? = some i' → s'.Open j' → j' = j ∧ i' = i := by
    intro j' i' hi' ho
    have hjj : j' = j := by
      have := ho.1
      have := hopen'.1
      omega
    subst hjj
    exact ⟨rfl, Option.some.inj (hi'.symm.trans hi)⟩
  refine ⟨?_, ?_, ?_, ?_⟩
  · intro j' i' hi' hdma ho
    rw [hissued] at hi'
    rw [hcompletions]
    have hclosed : ¬ s.Open j' := fun ho' => ho ⟨hissued ▸ ho'.1, Or.inr (by simp [hevents])⟩
    obtain ⟨hdone, hcomplete⟩ := h.settled j' i' hi' hdma hclosed
    refine ⟨hdone.mono (Nat.le_of_eq (by rw [hhandled])) ?_, hcomplete⟩
    intro hn _
    rw [hhost, hn]
  · intro j' i' hi' _ ho
    rw [hissued] at hi'
    obtain ⟨rfl, rfl⟩ := hj j' i' hi' ho
    exact hsource
  · intro j' i' hi' ho
    rw [hissued] at hi'
    obtain ⟨rfl, rfl⟩ := hj j' i' hi' ho
    unfold PageOk
    rw [hidle]
    exact ⟨e, hevents, hok⟩
  · intro msg i' hn hi'
    rw [hissued, hhandled] at hi'
    rw [hhost] at hn
    unfold HostHolds
    rw [hmem]
    exact h.notify msg i' hn hi'

/-- The open command is complete when the host is done with its page. -/
theorem PageUse.complete (h : s.PageUse) {k : Nat} (hopen : s.Open j) (hidle : s.device = .idle)
    (hevents : s.events.eraseIdx k = []) (hdone : s.PageDone j)
    (hnumber : (s.msgs msg).number = j) : (s.complete k (s.msgs msg)).PageUse := by
  have hclosed : ∀ j', ¬ (s.complete k (s.msgs msg)).Open j' := by
    rintro j' ⟨-, hn | hn⟩
    · exact hn hidle
    · exact hn hevents
  refine ⟨?_, ?_, ?_, h.notify⟩
  · intro j' i' hi' hdma _
    by_cases hj : s.Open j'
    · have hjj : j' = j := by
        have := hj.1
        have := hopen.1
        omega
      subst hjj
      exact ⟨hdone, _, List.mem_append_right _ (List.mem_singleton.mpr rfl), hnumber⟩
    · obtain ⟨hdone', e, he, hnumber'⟩ := h.settled j' i' hi' hdma hj
      exact ⟨hdone', e, List.mem_append_left _ he, hnumber'⟩
  · intro j' i' _ _ ho
    exact absurd ho (hclosed j')
  · intro j' i' _ ho
    exact absurd ho (hclosed j')

theorem Control.sameEvents (hc : s.Control) (hregs : s'.cmdStatus = s.cmdStatus)
    (hissued : s'.issued = s.issued) (hhandled : s'.handled = s.handled) (hhost : s'.host = s.host)
    (hdevice : s'.device = s.device) (hevents : s'.events = [] ↔ s.events = []) : s'.Control := by
  have hevents' : s'.events ≠ [] ↔ s.events ≠ [] := not_congr hevents
  refine ⟨?_, ?_, ?_, ?_, ?_, ?_, ?_, ?_, ?_⟩
  · rw [hregs, hevents']
    exact hc.status
  · rw [hdevice, hevents]
    exact hc.quiet
  · rw [hevents', hissued]
    exact hc.flight
  · rw [hdevice]
    exact hc.calm
  · rw [hdevice, hissued, hhandled]
    exact hc.few
  · rw [hissued]
    exact hc.small
  · rw [hissued]
    exact hc.bytes
  · rw [hhost, hissued, hdevice, hhandled]
    exact hc.passed
  · rw [hhost, hissued, hhandled]
    exact hc.serves

theorem Control.complete (hc : s.Control) {k : Nat} (hidle : s.device = .idle) {m : SsdMsg}
    (hevents : s.events.eraseIdx k = []) : (s.complete k m).Control := by
  refine ⟨?_, ?_, ?_, hc.calm, hc.few, hc.small, hc.bytes, hc.passed, hc.serves⟩
  · simp [HostInterface.complete, hevents]
  · intro hn
    exact absurd hidle hn
  · intro hn
    exact absurd hevents hn

/-- The message of the open command, when the routine has ended. -/
theorem InOrder.ofOpen (hr : s.InOrder) (hidle : s.device = .idle) (hi : s.issued[j]? = some i)
    (hopen : s.Open j) (hdma : i.regs.cmd.isDma = true) (hmsg : msg = j % SSDMsgQueueSize) :
    (s.msgs msg).Of j i.regs := by
  rw [hmsg]
  exact hr.newest (by rw [hidle]; rfl) hi hopen.1 hdma

/-! ## The records -/

/-- The completion of the open command is recorded. -/
theorem Records.complete (h : s.Records) {k : Nat} (hi : s.issued[j]? = some i)
    (hdma : i.regs.cmd.isDma = true) (hopen : s.Open j) (hidle : s.device = .idle)
    (hevents : s.events.eraseIdx k = []) (hof : (s.msgs msg).Of j i.regs)
    (hssd : bytesAt s.ssd_mem i.regs.ssdBase i.regs.len = i.bytes)
    (hhost : bytesAt s.host_mem i.regs.hostAddr i.regs.len = i.bytes) :
    (s.complete k (s.msgs msg)).Records := by
  have hmem : ∀ e ∈ (s.complete k (s.msgs msg)).completions, e ∈ s.completions ∨
      e = ⟨j, i.bytes, i.bytes⟩ := by
    intro e he
    simp only [HostInterface.complete, List.mem_append, List.mem_singleton] at he
    rcases he with he | he
    · exact Or.inl he
    · rw [hof.number, hof.ssd, hof.len, hof.addr, hssd, hhost] at he
      exact Or.inr he
  refine ⟨?_, ?_, ?_, h.interrupts, h.raised, h.vectors, h.page_reads⟩
  · intro e he
    rcases hmem e he with he | rfl
    · exact h.completions e he
    · exact ⟨i, hi, hdma, rfl, rfl⟩
  · rintro e - ⟨-, hn | hn⟩
    · exact hn hidle
    · exact hn hevents
  · simp only [HostInterface.complete, List.map_append, List.map_cons, List.map_nil]
    rw [List.nodup_append]
    refine ⟨h.once, List.nodup_singleton _, ?_⟩
    intro n hn n' hn'
    obtain ⟨e, he, rfl⟩ := List.mem_map.mp hn
    rw [List.mem_singleton.mp hn', hof.number]
    rintro rfl
    exact h.closed e he hopen

/-- A step that adds nothing to the records but page reads of the open command. -/
theorem Records.same (h : s.Records) (hissued : s'.issued = s.issued)
    (hhandled : s'.handled = s.handled) (hcompletions : s'.completions = s.completions)
    (hinterrupts : s'.interrupts = s.interrupts) (hvectors : s'.vectors = s.vectors)
    (hopen : ∀ j, s'.Open j → s.Open j) (hreads : ∀ p ∈ s'.page_reads, p.1 = p.2) :
    s'.Records := by
  refine ⟨?_, ?_, ?_, ?_, ?_, ?_, hreads⟩ <;>
    simp only [hissued, hhandled, hcompletions, hinterrupts, hvectors]
  · exact h.completions
  · intro e he ho
    exact h.closed e he (hopen _ ho)
  · exact h.once
  · exact h.interrupts
  · exact h.raised
  · exact h.vectors

/-- A new command leaves the records of the earlier ones. -/
theorem Records.issue (h : s.Records) {r : HostCmdReg}
    (hlen : s.handled.length ≤ s.issued.length) : (s.issue r).Records := by
  have hold : ∀ (j : Nat) (i : IssuedCmd), s.issued[j]? = some i →
      (s.issue r).issued[j]? = some i := by
    intro j i hi
    simp only [HostInterface.issue]
    rw [List.getElem?_append_left (List.getElem?_eq_some_iff.mp hi).1, hi]
  refine ⟨?_, ?_, h.once, ?_, ?_, ?_, h.page_reads⟩
  · intro e he
    obtain ⟨i, hi, hrest⟩ := h.completions e he
    exact ⟨i, hold _ i hi, hrest⟩
  · rintro e he ⟨hj, -⟩
    obtain ⟨i, hi, -⟩ := h.completions e he
    have hlt := (List.getElem?_eq_some_iff.mp hi).1
    simp only [HostInterface.issue, List.length_append, List.length_singleton] at hj
    omega
  · intro e he
    obtain ⟨i, hi, hrest⟩ := h.interrupts e he
    exact ⟨i, hold _ i hi, hrest⟩
  · have hraises : ∀ j ∈ List.range s.handled.length,
        raises (s.issue r).issued j = raises s.issued j := by
      intro j hj
      have hlt : j < s.issued.length := Nat.lt_of_lt_of_le (List.mem_range.mp hj) hlen
      unfold raises
      rw [hold j _ (List.getElem?_eq_getElem hlt), List.getElem?_eq_getElem hlt]
    exact h.raised.trans (List.filter_congr hraises).symm
  · simp only [HostInterface.issue]
    rw [List.take_append_of_le_length hlen]
    exact h.vectors

/-- The routine of a command records nothing. -/
theorem Records.deviceStep (h : s.Records) (hstep : s.deviceStep = some s') : s'.Records := by
  have hopen : ∀ j, j + 1 = s.issued.length → s.Open j := by
    intro j hj
    refine ⟨hj, Or.inl ?_⟩
    intro hidle
    rw [HostInterface.deviceStep, hidle] at hstep
    cases hstep
  unfold HostInterface.deviceStep at hstep
  cases hd : s.device <;> rw [hd] at hstep <;> dsimp only at hstep
  case idle => cases hstep
  case panic => cases hstep
  case enQueueSSDMsg =>
    split at hstep <;> cases hstep
    · exact h.same rfl rfl rfl rfl rfl (fun j ho => hopen j ho.1) h.page_reads
    · exact h.same rfl rfl rfl rfl rfl (fun j ho => hopen j ho.1) h.page_reads
  case set_status msg =>
    cases hstep
    unfold startDma
    split
    all_goals exact h.same rfl rfl rfl rfl rfl (fun j ho => hopen j ho.1) h.page_reads
  all_goals
    cases hstep
    exact h.same rfl rfl rfl rfl rfl (fun j ho => hopen j ho.1) h.page_reads

/-! ## The steps of the device -/

/-- What the whole system keeps. -/
structure Kept (s : HostInterface) : Prop where
  order : s.InOrder
  control : s.Control
  page : s.PageUse
  records : s.Records

/-- The page is full, and the DMA to the SSD begins. -/
theorem Kept.read_host_complete (h : s.Kept) (hidle : s.device = .idle) {k : Nat}
    (he : s.events[k]? = some (.read_host_complete msg)) (horder : s'.InOrder)
    (hstep : s.read_host_complete k msg = some s') : s'.Kept := by
  obtain ⟨j, i, hevents, rfl, hi, hopen, hok⟩ := h.page.event h.control hidle he
  obtain ⟨hmsg, hread, hpage⟩ := hok
  have hof := h.order.ofOpen hidle hi hopen (isDma_of_read hread) hmsg
  obtain ⟨page, hget, hstep⟩ := Option.bind_eq_some_iff.mp hstep
  rw [hof.page] at hget
  cases hget
  split at hstep <;> cases hstep
  rename_i hready
  have hevents' : s.events.set 0 (.write_ssd_complete msg (List.range (s.msgs msg).size.toNat)) =
      [.write_ssd_complete msg (List.range (s.msgs msg).size.toNat)] := by simp [hevents]
  have hdone : s.hostAt j = .done ∧ s.PageHolds j i [] := by
    unfold ReadOk at hpage
    cases hat : s.hostAt j <;> rw [hat] at hpage <;> simp_all
  refine ⟨horder, ?_, ?_, ?_⟩
  · exact h.control.sameEvents rfl rfl rfl rfl rfl (by simp [setEvent, hevents])
  · refine h.page.nextEvent hi hopen rfl rfl rfl rfl rfl hidle hevents'
      (h.page.source j i hi (isDma_of_read hread) hopen) ⟨hmsg, hread, ?_, hdone.1, hdone.2, ?_⟩
    · intro x hx
      rw [hof.len] at hx
      exact List.mem_range.mp hx
    · intro x hx hxl
      rw [hof.len] at hxl
      exact absurd (List.mem_range.mpr hx) hxl
  · refine h.records.same rfl rfl rfl rfl rfl ?_ h.records.page_reads
    rintro j' ⟨hj', -⟩
    exact ⟨hj', hopen.2⟩

/-- The page is in the SSD, and the command of the host is complete. -/
theorem Kept.write_ssd_complete (h : s.Kept) (hidle : s.device = .idle) {k : Nat}
    (he : s.events[k]? = some (.write_ssd_complete msg [])) (horder : s'.InOrder)
    (hstep : s.write_ssd_complete k msg = some s') : s'.Kept := by
  obtain ⟨j, i, hevents, rfl, hi, hopen, hok⟩ := h.page.event h.control hidle he
  obtain ⟨hmsg, hread, -, hdone, hpage, hssd⟩ := hok
  have hof := h.order.ofOpen hidle hi hopen (isDma_of_read hread) hmsg
  have hsource := h.page.source j i hi (isDma_of_read hread) hopen
  obtain ⟨page, hget, hstep⟩ := Option.bind_eq_some_iff.mp hstep
  cases hstep
  rw [hof.page] at hget
  cases hget
  have hevents' : s.events.eraseIdx 0 = [] := by simp [hevents]
  have hused : (s.setDataStatus 0 .data_status_used).PageUse := by
    refine h.page.nextEvent hi hopen rfl rfl rfl rfl rfl hidle hevents hsource
      ⟨hmsg, hread, nofun, hdone, ?_, hssd⟩
    intro x hx hxl
    simp only [setDataStatus, Function.update_self]
    exact hpage x hx hxl
  refine ⟨horder, ?_, ?_, ?_⟩
  · have hcontrol : (s.setDataStatus 0 .data_status_used).Control :=
      h.control.sameEvents rfl rfl rfl rfl rfl Iff.rfl
    exact hcontrol.complete hidle hevents'
  · exact hused.complete hopen hidle hevents' (Or.inr hdone) hof.number
  · have hrec : (s.setDataStatus 0 .data_status_used).Records :=
      h.records.same rfl rfl rfl rfl rfl (fun _ => id) h.records.page_reads
    refine hrec.complete hi (isDma_of_read hread) hopen hidle hevents' hof ?_ ?_
    · exact bytesAt_of_holds hsource hssd
    · rw [← source_eq_host hread]
      exact hsource

/-- The page has the bytes of the SSD, and the host may copy them. -/
theorem Kept.read_ssd_complete (h : s.Kept) (hidle : s.device = .idle) {k : Nat}
    (he : s.events[k]? = some (.read_ssd_complete msg [])) (horder : s'.InOrder)
    (hstep : s.read_ssd_complete k msg = some s') : s'.Kept := by
  obtain ⟨j, i, hevents, rfl, hi, hopen, hok⟩ := h.page.event h.control hidle he
  obtain ⟨hmsg, hwrite, -, hpage, hholds⟩ := hok
  have hof := h.order.ofOpen hidle hi hopen (isDma_of_write hwrite) hmsg
  have hsource := h.page.source j i hi (isDma_of_write hwrite) hopen
  obtain ⟨page, hget, hstep⟩ := Option.bind_eq_some_iff.mp hstep
  cases hstep
  rw [hof.page] at hget
  cases hget
  have hevents' : s.events.set 0 (.write_host_complete msg) = [.write_host_complete msg] := by
    simp [hevents]
  refine ⟨horder, ?_, ?_, ?_⟩
  · exact h.control.sameEvents rfl rfl rfl rfl rfl (by simp [setEvent, setDataStatus, hevents])
  · refine h.page.nextEvent hi hopen rfl rfl rfl rfl rfl hidle hevents' hsource
      ⟨hmsg, hwrite, ?_⟩
    have hready : ∀ t : HostInterface, t.pages = (s.setDataStatus 0 .data_status_ready).pages →
        (t.pages 0).data_status = .data_status_ready ∧ t.PageHolds j i [] := by
      intro t ht
      unfold PageHolds
      rw [ht]
      simp only [setDataStatus, Function.update_self]
      exact ⟨trivial, hholds⟩
    have hat : HostInterface.hostAt ((s.setDataStatus 0 .data_status_ready).setEvent 0
        (.write_host_complete msg)) j = s.hostAt j := rfl
    unfold SentOk
    rw [hat]
    rcases hpage.2 with hb | hw
    · rw [hb]
      exact hready _ rfl
    · rw [hw]
      exact hready _ rfl
  · refine h.records.same rfl rfl rfl rfl rfl ?_ h.records.page_reads
    rintro j' ⟨hj', -⟩
    exact ⟨hj', hopen.2⟩

/-- The host has copied the page, and its command is complete. -/
theorem Kept.write_host_complete (h : s.Kept) (hidle : s.device = .idle) {k : Nat}
    (he : s.events[k]? = some (.write_host_complete msg)) (horder : s'.InOrder)
    (hstep : s.write_host_complete k msg = some s') : s'.Kept := by
  obtain ⟨j, i, hevents, rfl, hi, hopen, hok⟩ := h.page.event h.control hidle he
  obtain ⟨hmsg, hwrite, hpage⟩ := hok
  have hof := h.order.ofOpen hidle hi hopen (isDma_of_write hwrite) hmsg
  have hsource := h.page.source j i hi (isDma_of_write hwrite) hopen
  obtain ⟨page, hget, hstep⟩ := Option.bind_eq_some_iff.mp hstep
  rw [hof.page] at hget
  cases hget
  split at hstep <;> cases hstep
  rename_i hused
  have hevents' : s.events.eraseIdx 0 = [] := by simp [hevents]
  have hsent : s.PageDone j ∧ s.HostHolds i [] := by
    unfold SentOk at hpage
    unfold PageDone
    cases hat : s.hostAt j <;> rw [hat] at hpage <;> simp_all
  refine ⟨horder, h.control.complete hidle hevents', ?_, ?_⟩
  · exact h.page.complete hopen hidle hevents' hsent.1 hof.number
  · refine h.records.complete hi (isDma_of_write hwrite) hopen hidle hevents' hof ?_ ?_
    · rw [← source_eq_ssd hwrite]
      exact hsource
    · exact bytesAt_of_holds hsource hsent.2

theorem Kept.eventStep (h : s.Kept) (hidle : s.device = .idle) {k : Nat}
    (hstep : s.eventStep k = some s') : s'.Kept := by
  have horder : s'.InOrder := h.order.same (eventStep_view hstep)
  unfold HostInterface.eventStep at hstep
  split at hstep
  · exact h.read_host_complete hidle ‹_› horder hstep
  · exact h.write_ssd_complete hidle ‹_› horder hstep
  · exact h.read_ssd_complete hidle ‹_› horder hstep
  · exact h.write_host_complete hidle ‹_› horder hstep
  · cases hstep

theorem not_mem_of_filter {x y : Nat} (h : y ∉ left.filter (· ≠ x)) (hne : y ≠ x) : y ∉ left := by
  intro hy
  exact h (List.mem_filter.mpr ⟨hy, by simpa using hne⟩)

/-- A byte comes into the page. -/
theorem PageHolds.fill (h : s.PageHolds j i left) {x : Nat} {v : UInt8} (hv : v = i.byte x)
    (hpages : s'.pages = (s.fillPage 0 x v j).pages) :
    s'.PageHolds j i (left.filter (· ≠ x)) := by
  intro y hy hyl
  rw [hpages]
  simp only [fillPage, Function.update_self]
  by_cases hyx : y = x
  · rw [hyx, Function.update_self, Function.update_self]
    exact ⟨hv, rfl⟩
  · rw [Function.update_of_ne hyx, Function.update_of_ne hyx]
    exact h y hy (not_mem_of_filter hyl hyx)

/-- A byte comes into a memory. -/
theorem holds_fill {mem : Nat → UInt8} {b n x : Nat} {v : UInt8}
    (h : ∀ y, y < n → y ∉ left → mem (b + y) = i.byte y) (hv : v = i.byte x) :
    ∀ y, y < n → y ∉ left.filter (· ≠ x) → Function.update mem (b + x) v (b + y) = i.byte y := by
  intro y hy hyl
  by_cases hyx : y = x
  · rw [hyx, Function.update_self, hv]
  · rw [Function.update_of_ne (by omega)]
    exact h y hy (not_mem_of_filter hyl hyx)

theorem Records.readPage (h : s.Records) {x number : Nat}
    (hwriter : number = (s.pages page).writer x) :
    ∀ p ∈ (s.readPage page x number).page_reads, p.1 = p.2 := by
  intro p hp
  simp only [HostInterface.readPage, List.mem_append, List.mem_singleton] at hp
  rcases hp with hp | rfl
  · exact h.page_reads p hp
  · exact hwriter

theorem Kept.dmaStep (h : s.Kept) (hidle : s.device = .idle) {k x : Nat}
    (hstep : s.dmaStep k x = some s') : s'.Kept := by
  have horder : s'.InOrder := h.order.same (dmaStep_view hstep)
  unfold HostInterface.dmaStep at hstep
  split at hstep
  · rename_i msg left he
    obtain ⟨j, i, hevents, rfl, hi, hopen, hok⟩ := h.page.event h.control hidle he
    obtain ⟨hmsg, hread, hleft, hdone, hpage, hssd⟩ := hok
    have hof := h.order.ofOpen hidle hi hopen (isDma_of_read hread) hmsg
    have hsource := h.page.source j i hi (isDma_of_read hread) hopen
    obtain ⟨page, hget, hstep⟩ := Option.bind_eq_some_iff.mp hstep
    rw [hof.page] at hget
    cases hget
    dsimp only at hstep
    split at hstep <;> cases hstep
    rename_i hx
    have hbyte := hpage x (hleft x hx.1) List.not_mem_nil
    have hevents' : s.events.set 0 (.write_ssd_complete msg (left.filter (· ≠ x))) =
        [.write_ssd_complete msg (left.filter (· ≠ x))] := by simp [hevents]
    refine ⟨horder, ?_, ?_, ?_⟩
    · exact h.control.sameEvents rfl rfl rfl rfl rfl (by simp [setEvent, readPage, hevents])
    · refine h.page.nextEvent hi hopen rfl rfl rfl rfl rfl hidle hevents' ?_
        ⟨hmsg, hread, ?_, hdone, hpage, ?_⟩
      · rw [source_eq_host hread] at hsource ⊢
        exact hsource
      · intro y hy
        exact hleft y (List.mem_filter.mp hy).1
      · unfold SsdHolds
        rw [hof.ssd]
        exact holds_fill hssd hbyte.1
    · refine h.records.same rfl rfl rfl rfl rfl ?_ (h.records.readPage ?_)
      · rintro j' ⟨hj', -⟩
        exact ⟨hj', hopen.2⟩
      · rw [hof.number, hbyte.2]
  · rename_i msg left he
    obtain ⟨j, i, hevents, rfl, hi, hopen, hok⟩ := h.page.event h.control hidle he
    obtain ⟨hmsg, hwrite, hleft, hpage, hholds⟩ := hok
    have hof := h.order.ofOpen hidle hi hopen (isDma_of_write hwrite) hmsg
    have hsource := h.page.source j i hi (isDma_of_write hwrite) hopen
    obtain ⟨page, hget, hstep⟩ := Option.bind_eq_some_iff.mp hstep
    rw [hof.page] at hget
    cases hget
    dsimp only at hstep
    split at hstep <;> cases hstep
    rename_i hx
    have hbyte : s.ssd_mem (i.regs.ssdBase + x) = i.byte x := by
      rw [source_eq_ssd hwrite] at hsource
      exact byte_of_bytesAt hsource (hleft x hx.1)
    have hevents' : s.events.set 0 (.read_ssd_complete msg (left.filter (· ≠ x))) =
        [.read_ssd_complete msg (left.filter (· ≠ x))] := by simp [hevents]
    refine ⟨horder, ?_, ?_, ?_⟩
    · exact h.control.sameEvents rfl rfl rfl rfl rfl (by simp [setEvent, fillPage, hevents])
    · refine h.page.nextEvent hi hopen rfl rfl rfl rfl rfl hidle hevents' hsource
        ⟨hmsg, hwrite, ?_, ?_, ?_⟩
      · intro y hy
        exact hleft y (List.mem_filter.mp hy).1
      · refine ⟨?_, hpage.2⟩
        simp only [setEvent, fillPage, Function.update_self]
        exact hpage.1
      · rw [hof.number, hof.ssd]
        exact hholds.fill hbyte rfl
    · refine h.records.same rfl rfl rfl rfl rfl ?_ h.records.page_reads
      rintro j' ⟨hj', -⟩
      exact ⟨hj', hopen.2⟩
  · cases hstep

end HostInterface

end S4Sim
