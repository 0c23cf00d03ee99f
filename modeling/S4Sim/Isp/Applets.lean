-- The addresses that the firmware calls. The comparison of the magic string looks at its
-- first byte only, a header that does not match stays installed, and neither `header` nor
-- the function id is checked before a call. Every call is good as long as the host sends
-- matching headers, functions of the header, and no download before the call.
import S4Sim.Isp.Calls

open Runs Windows

namespace S4Sim

/-- The whole magic string matches. -/
def FullMatch (image : Nat → UInt8) : Prop := window image 0 16 = magic_string

instance (image : Nat → UInt8) : Decidable (FullMatch image) := inferInstanceAs (Decidable (_ = _))

/-- `1 <= ftn_id <= header->num_ftn <= ISP_MAX_APPLET_FUNCTIONS` -/
def FtnInTable (image : Nat → UInt8) (ftn_id : Nat) : Prop :=
  1 ≤ ftn_id ∧ ftn_id ≤ numFtn image ∧ numFtn image ≤ ISP_MAX_APPLET_FUNCTIONS

instance (image : Nat → UInt8) (ftn_id : Nat) : Decidable (FtnInTable image ftn_id) :=
  inferInstanceAs (Decidable (_ ∧ _))

namespace IspState

/-- The address comes from a downloaded header that `add_applet` accepted and that matches
in full, and a function that a command names is in its table. -/
def GoodCall (s : IspState) (call : AppletCall) : Prop :=
  call.downloaded = true ∧ call.image ∈ s.accepted ∧ FullMatch call.image ∧
    match call.ftn_id with
    | none => call.address = initializeFtn call.image
    | some ftn_id => call.address = entryAddress call.image ftn_id ∧ FtnInTable call.image ftn_id

/-- Every call that the firmware made is good. -/
def CallsChecked (s : IspState) : Prop := ∀ call ∈ s.calls, s.GoodCall call

/-- The headers that the host activates match in full, or differ in the first byte. An
execute command names a function of the header that was accepted last, and nothing is
downloaded after that until the function is called. -/
def HeaderOk (s : IspState) : IspAction → Prop
  | .nvme task =>
    match s.nvme with
    | .free =>
      match task with
      | .fw_activate => s.external_code_buffer 0 ≠ 115 ∨ FullMatch s.external_code_buffer
      | .isp_io 0x80 cmd _ =>
        s.checked = true ∧ FtnInTable s.external_code_buffer cmd.scmd.ftn_id.toNat
      | .fw_download _ _ _ => s.msg_in_q = 0 ∧ s.applet ≠ .starting
      | _ => True
    | _ => True
  | _ => True

variable {s s' : IspState} {c : Config} {a : IspAction}

/-! ## The comparison -/

theorem mis_match_eq (image : Nat → UInt8) :
    mis_match image = if image 0 = 115 then 0 else 8 := by
  unfold mis_match magic_string
  by_cases h : image 0 = 115
  · simp [h]
  · have hne : ¬ (115 : UInt8) = image 0 := fun he => h he.symm
    simp [h, hne, List.range_succ]

theorem FullMatch.first {image : Nat → UInt8} (h : FullMatch image) : image 0 = 115 := by
  have hhead := congrArg List.head? h
  simpa [window, magic_string, List.range_succ_eq_map] using hhead

/-! ## What a step does to the header -/

/-- A function is in the queue, or its call begins, or its command is in the driver. -/
def Waiting (s : IspState) : Prop :=
  s.msg_in_q ≠ 0 ∨ s.applet = .starting ∨ s.nvme.command ≠ none

structure Checked (s : IspState) : Prop where
  full : ∀ image ∈ s.accepted, FullMatch image
  checked : s.checked = true → s.header = true ∧ s.external_code_buffer ∈ s.accepted
  waiting : s.Waiting → s.checked = true ∧ FtnInTable s.external_code_buffer s.ftn_id
  good : s.CallsChecked

/-- A step that leaves the header and the function of the slot. -/
theorem Checked.same (h : s.Checked) (hview : s'.imageView = s.imageView)
    (hftn : s'.ftn_id = s.ftn_id) (hwaiting : s'.Waiting → s.Waiting) : s'.Checked := by
  simp only [imageView, Prod.mk.injEq] at hview
  obtain ⟨hheader, hbuffer, hchecked, haccepted, hcalls⟩ := hview
  refine ⟨?_, ?_, ?_, ?_⟩
  · rw [haccepted]
    exact h.full
  · rw [hchecked, hheader, hbuffer, haccepted]
    exact h.checked
  · intro hw
    rw [hchecked, hbuffer, hftn]
    exact h.waiting (hwaiting hw)
  · intro call hcall
    rw [hcalls] at hcall
    unfold GoodCall
    rw [haccepted]
    exact h.good call hcall

theorem nvmeContinue_image (h : s.nvmeContinue c = some s') : s'.imageView = s.imageView := by
  unfold nvmeContinue at h
  split at h
  · cases h
    rfl
  · obtain ⟨t, hmove, rfl⟩ := execute_objects_move h
    have hview : t.imageView = s.imageView := by
      rw [hmove.rest]
      rfl
    exact hview
  · unfold execute_arguments at h
    split at h
    · obtain ⟨ws, -, rfl⟩ := Option.map_eq_some_iff.mp h
      rfl
    · cases h
      rfl
  · unfold execute_transfer at h
    split at h <;> cases h
    rfl
  · cases h
    rfl
  · cases h
    rfl
  · cases h
    unfold control_pending
    split <;> rfl
  · obtain ⟨req, -, rfl⟩ := Option.map_eq_some_iff.mp h
    rfl
  · cases h
    rfl
  · cases h
    rfl

/-! ## Each step keeps the calls good -/

theorem Checked.download {image : Nat → UInt8} (h : s.Checked) (hn : s.nvme.command = none)
    (hmsg : s.msg_in_q = 0) (hstart : s.applet ≠ .starting) :
    Checked { s with external_code_buffer := image, checked := false } := by
  refine ⟨h.full, nofun, ?_, h.good⟩
  rintro (hw | hw | hw)
  · exact absurd hmsg hw
  · exact absurd hw hstart
  · exact absurd hn hw

theorem Checked.activate (h : s.Checked)
    (hok : s.external_code_buffer 0 ≠ 115 ∨ FullMatch s.external_code_buffer) :
    s.add_applet.Checked := by
  have hwaiting : s.add_applet.Waiting → s.Waiting := by
    unfold add_applet
    simp only
    split <;> exact id
  unfold add_applet at hwaiting ⊢
  simp only at hwaiting ⊢
  rw [mis_match_eq] at hwaiting ⊢
  by_cases hfirst : s.external_code_buffer 0 = 115
  · have hfull : FullMatch s.external_code_buffer := hok.resolve_left (not_not.mpr hfirst)
    simp only [hfirst, if_true, ne_eq, not_true_eq_false, if_false] at hwaiting ⊢
    refine ⟨?_, fun _ => ⟨rfl, by simp⟩, fun hw => ⟨rfl, (h.waiting (hwaiting hw)).2⟩, ?_⟩
    · intro image himage
      rcases List.mem_append.mp himage with himage | himage
      · exact h.full image himage
      · rw [List.mem_singleton.mp himage]
        exact hfull
    · intro call hcall
      rcases List.mem_append.mp hcall with hcall | hcall
      · obtain ⟨hdown, himage, hrest⟩ := h.good call hcall
        exact ⟨hdown, List.mem_append_left _ himage, hrest⟩
      · rw [List.mem_singleton.mp hcall]
        exact ⟨rfl, by simp, hfull, rfl⟩
  · simp only [hfirst, if_false, ne_eq, OfNat.ofNat_ne_zero, not_false_eq_true, if_true]
      at hwaiting ⊢
    refine ⟨h.full, nofun, ?_, h.good⟩
    -- A header that a waiting function has checked is not rejected.
    intro hw
    obtain ⟨hchecked, -⟩ := h.waiting (hwaiting hw)
    exact absurd (FullMatch.first (h.full _ (h.checked hchecked).2)) hfirst

theorem Checked.execute {cmd : IspCommand} (h : s.Checked)
    (hview : s'.slotView = (s.named cmd).slotView) (hchecked : s.checked = true)
    (hftn : FtnInTable s.external_code_buffer cmd.scmd.ftn_id.toNat) : s'.Checked := by
  simp only [slotView, callView, imageView, named, Prod.mk.injEq] at hview
  obtain ⟨⟨hftn', -⟩, ⟨hheader, hbuffer, hchecked', haccepted, hcalls⟩, -⟩ := hview
  refine ⟨?_, ?_, ?_, ?_⟩
  · rw [haccepted]
    exact h.full
  · rw [hchecked', hheader, hbuffer, haccepted]
    exact h.checked
  · intro _
    rw [hchecked', hbuffer, hftn']
    exact ⟨hchecked, hftn⟩
  · intro call hcall
    rw [hcalls] at hcall
    unfold GoodCall
    rw [haccepted]
    exact h.good call hcall

theorem Checked.call {low : Nat → UInt8} (h : s.Checked) (hpc : s.applet = .starting) :
    (s.call_function low).Checked := by
  obtain ⟨hchecked, hftn⟩ := h.waiting (Or.inr (Or.inl hpc))
  obtain ⟨hheader, himage⟩ := h.checked hchecked
  refine ⟨h.full, h.checked, fun _ => ⟨hchecked, hftn⟩, ?_⟩
  intro call hcall
  rcases List.mem_append.mp hcall with hcall | hcall
  · exact h.good call hcall
  · rw [List.mem_singleton.mp hcall, if_pos hheader]
    exact ⟨hheader, himage, h.full _ himage, rfl, hftn⟩

theorem Checked.nvmeContinue (h : s.Checked) (hstep : s.nvmeContinue c = some s') :
    s'.Checked := by
  have hview := nvmeContinue_image hstep
  unfold IspState.nvmeContinue at hstep
  split at hstep <;> rename_i hn
  · cases hstep
    exact h
  · obtain ⟨t, hmove, rfl⟩ := execute_objects_move hstep
    have hftn : t.ftn_id = s.ftn_id := by rw [hmove.rest]
    exact h.same hview hftn fun _ => Or.inr (Or.inr (by rw [hn]; exact nofun))
  · unfold execute_arguments at hstep
    split at hstep
    · obtain ⟨ws, -, rfl⟩ := Option.map_eq_some_iff.mp hstep
      exact h.same hview rfl fun _ => Or.inr (Or.inr (by rw [hn]; exact nofun))
    · cases hstep
      exact h.same hview rfl fun _ => Or.inr (Or.inr (by rw [hn]; exact nofun))
  · unfold execute_transfer at hstep
    split at hstep <;> cases hstep
    exact h.same hview rfl fun _ => Or.inr (Or.inr (by rw [hn]; exact nofun))
  · cases hstep
    exact h.same hview rfl fun _ => Or.inr (Or.inr (by rw [hn]; exact nofun))
  · cases hstep
    exact h.same hview rfl fun _ => Or.inr (Or.inr (by rw [hn]; exact nofun))
  · cases hstep
    unfold control_pending at hview ⊢
    split <;> exact h.same rfl rfl (Or.imp_right (Or.imp_right fun hw => absurd rfl hw))
  · obtain ⟨req, -, rfl⟩ := Option.map_eq_some_iff.mp hstep
    exact h.same hview rfl (Or.imp_right (Or.imp_right fun hw => absurd rfl hw))
  · cases hstep
    exact h.same hview rfl (Or.imp_right (Or.imp_right fun hw => absurd rfl hw))
  · cases hstep
    exact h.same hview rfl (Or.imp_right (Or.imp_right fun hw => absurd rfl hw))

/-- A step of the applet thread at which no call begins. -/
theorem Checked.applet (h : s.Checked) (hview : s'.imageView = s.imageView)
    (hftn : s'.ftn_id = s.ftn_id) (hmsg : s'.msg_in_q = s.msg_in_q) (hn : s'.nvme = s.nvme)
    (hstart : s'.applet ≠ .starting) : s'.Checked := by
  apply h.same hview hftn
  rintro (hw | hw | hw)
  · exact Or.inl (hmsg ▸ hw)
  · exact absurd hw hstart
  · exact Or.inr (Or.inr (hn ▸ hw))

theorem Checked.appletStep (h : s.Checked) (hstep : s.appletStep = some s') : s'.Checked := by
  unfold IspState.appletStep at hstep
  split at hstep
  · split at hstep <;> cases hstep
    · exact h
    · rename_i hmsg
      exact h.same rfl rfl fun _ => Or.inl hmsg
  · cases hstep
    exact h
  · cases hstep
    exact h
  · unfold dequeue_dma_req at hstep
    split at hstep <;> cases hstep
    exact h.applet rfl rfl rfl rfl nofun
  · cases hstep
    exact h.applet rfl rfl rfl rfl nofun
  · cases hstep
    exact h.applet rfl rfl rfl rfl nofun
  · cases hstep
    exact h.applet rfl rfl rfl rfl nofun
  · cases hstep
    unfold wait_dma_req
    split
    · exact h.applet rfl rfl rfl rfl nofun
    · exact h
  · cases hstep
    exact h.applet rfl rfl rfl rfl nofun
  · obtain ⟨x, -, rfl⟩ := Option.map_eq_some_iff.mp hstep
    exact h.applet rfl rfl rfl rfl nofun
  · obtain ⟨x, -, rfl⟩ := Option.map_eq_some_iff.mp hstep
    split
    · exact h.applet rfl rfl rfl rfl nofun
    · exact h
  · cases hstep
    exact h.applet rfl rfl rfl rfl nofun

theorem Checked.step (h : s.Checked) (hok : s.HeaderOk a) (hstep : ispStep c s a = some s') :
    s'.Checked := by
  cases a with
  | nvme task =>
    simp only [ispStep] at hstep
    split at hstep
    · rename_i hn
      have hfree : s.nvme.command = none := by rw [hn]; rfl
      simp only [HeaderOk, hn] at hok
      have hsame : s'.slotView = s.slotView → s'.nvme.command = none → s'.Checked := by
        intro hview hn'
        obtain ⟨hcall, himage, -⟩ := slotView_eq hview
        simp only [callView, Prod.mk.injEq] at hcall
        obtain ⟨hftn, -, -, hmsg, happlet, -⟩ := hcall
        apply h.same himage hftn
        rintro (hw | hw | hw)
        · exact Or.inl (hmsg ▸ hw)
        · exact Or.inr (Or.inl (happlet ▸ hw))
        · exact absurd hn' hw
      cases take_move hn hstep with
      | same _ hview hn' => exact hsame hview hn'
      | transfer _ _ hview hn' => exact hsame hview hn'
      | execute hn' hview => exact h.execute hview hok.1 hok.2
      | download => exact h.download hfree hok.1 hok.2
      | activate => exact h.activate hok
    · cases hstep
      exact h
  | nvme_continue => exact h.nvmeContinue hstep
  | applet => exact h.appletStep hstep
  | call low =>
    simp only [ispStep] at hstep
    split at hstep <;> cases hstep
    · rename_i hpc
      exact h.call hpc
    · exact h
  | host_dma start_mem_page ssd_addr size write =>
    simp only [ispStep] at hstep
    split at hstep <;> cases hstep
    · exact h.applet rfl rfl rfl rfl (by simp [do_sync_host_dma])
    · exact h
  | nand_op op =>
    simp only [ispStep] at hstep
    split at hstep
    · obtain ⟨x, -, rfl⟩ := Option.map_eq_some_iff.mp hstep
      exact h.applet rfl rfl rfl rfl (by simp)
    · cases hstep
      exact h
  | return_function =>
    simp only [ispStep] at hstep
    split at hstep <;> cases hstep
    · exact h.applet rfl rfl rfl rfl (by simp)
    · exact h
  | ftl =>
    simp only [ispStep] at hstep
    split at hstep <;> cases hstep
    · exact h
    · exact h.same rfl rfl id

theorem headerOk_iff {task : NvmeTask} {P : Prop}
    (hP : s.nvme = .free → (P ↔ s.HeaderOk (.nvme task))) :
    (s.nvme.isFree = true → P) ↔ s.HeaderOk (.nvme task) := by
  by_cases hn : s.nvme = .free
  · simp [hP hn, hn, NvmePc.isFree]
  · unfold HeaderOk
    cases hpc : s.nvme <;> simp_all [NvmePc.isFree]

instance (s : IspState) : (a : IspAction) → Decidable (s.HeaderOk a)
  | .nvme .fw_activate =>
    decidable_of_iff _ (headerOk_iff (P := s.external_code_buffer 0 ≠ 115 ∨
      FullMatch s.external_code_buffer) fun hn => by simp [HeaderOk, hn])
  | .nvme (.isp_io opcode cmd _) =>
    decidable_of_iff _ (headerOk_iff (P := opcode = 0x80 → s.checked = true ∧
      FtnInTable s.external_code_buffer cmd.scmd.ftn_id.toNat) fun hn => by
        by_cases hopcode : opcode = 0x80 <;> simp [HeaderOk, hn, hopcode])
  | .nvme (.fw_download ..) =>
    decidable_of_iff _ (headerOk_iff (P := s.msg_in_q = 0 ∧ s.applet ≠ .starting) fun hn => by
      simp [HeaderOk, hn])
  | .nvme .msg_out | .nvme .recycle | .nvme (.other_malloc _) | .nvme (.other_write ..)
  | .nvme (.other_free _) =>
    decidable_of_iff _ (headerOk_iff (P := True) fun hn => by simp [HeaderOk, hn])
  | .nvme_continue | .applet | .call _ | .host_dma .. | .nand_op _ | .return_function | .ftl =>
    inferInstanceAs (Decidable True)

end IspState

open IspState

/-- Every call goes to an address of a header that was compared and matches, and to a
function of its table, in every run in which the host sends such headers, names such
functions, and downloads nothing before the call. -/
theorem applet_addresses_are_checked_while_the_host_sends_matching_headers {c : Config}
    {objs : Nat → HostDma} {arg_buffer code : Nat → UInt8} {acts : List IspAction} {s : IspState}
    (hok : AllSteps (ispStep c) HeaderOk (initialIsp objs arg_buffer code) acts)
    (hrun : run (ispStep c) (initialIsp objs arg_buffer code) acts = some s) : s.CallsChecked := by
  have hinit : (initialIsp objs arg_buffer code).Checked := by
    refine ⟨nofun, nofun, ?_, nofun⟩
    rintro (hw | hw | hw)
    · exact absurd rfl hw
    · cases hw
    · exact absurd rfl hw
  have hinv := run_invariant_of_ok (I := fun _ s => s.Checked) hinit
    (fun _ t a u _ ht ha hstep => ht.step ha hstep) hok hrun
  exact hinv.good

/-- A host page with a header: the magic string, one function, and its address 7. -/
def headerPage (magic : List UInt8) (i : Nat) : UInt8 :=
  (magic ++ List.replicate 80 0 ++ [1, 0, 0, 0] ++ [7, 0, 0, 0]).getD (i - 4096) 0

/-- Download and activation of a header of 108 bytes. -/
def installHeader (magic : List UInt8) : List IspAction :=
  [.nvme (.fw_download 26 0 { ispCommand 0 0 ⟨0, 0, 0, 0, 0, 0⟩ with mem := headerPage magic }),
    .nvme .fw_activate]

theorem a_matching_header_gives_checked_addresses :
    ∃ s, run (ispStep smallDevice) zeroIsp (installHeader magic_string ++
        runExecute 1 0 ⟨0, 0, 0, 0, 0, 0⟩ ++ startFunction) = some s ∧
      s.calls.map AppletCall.address = [0, 7] ∧ s.CallsChecked := by
  have hrun : (run (ispStep smallDevice) zeroIsp (installHeader magic_string ++
      runExecute 1 0 ⟨0, 0, 0, 0, 0, 0⟩ ++ startFunction)).map
        (fun s => s.calls.map AppletCall.address) = some [0, 7] := by
    decide +kernel
  obtain ⟨s, hs, haddress⟩ := Option.map_eq_some_iff.mp hrun
  exact ⟨s, hs, haddress,
    applet_addresses_are_checked_while_the_host_sends_matching_headers (by decide +kernel) hs⟩

/-- A header that shares the first letter is accepted, and its initialization is called. -/
theorem one_letter_of_the_magic_string_is_enough :
    ∃ s, run (ispStep smallDevice) zeroIsp (installHeader [115]) = some s ∧ ¬ s.CallsChecked := by
  have hrun : (run (ispStep smallDevice) zeroIsp (installHeader [115])).map
      (fun s => s.calls.map fun call => window call.image 0 2) = some [[115, 0]] := by
    decide +kernel
  obtain ⟨s, hs, hcalls⟩ := Option.map_eq_some_iff.mp hrun
  refine ⟨s, hs, ?_⟩
  intro hchecked
  obtain ⟨call, hcall, himage⟩ : ∃ call ∈ s.calls, window call.image 0 2 = [115, 0] := by
    apply List.mem_map.mp
    rw [hcalls]
    exact List.mem_singleton_self _
  have hfull := (hchecked call hcall).2.2.1
  have hmagic : window call.image 0 2 = magic_string.take 2 := by
    rw [← show window call.image 0 16 = magic_string from hfull, window_take (by decide)]
  rw [himage] at hmagic
  exact absurd hmagic (by decide)

end S4Sim
