-- Every call of a flash operation returns: the firmware issues its pages in a
-- number of steps, the controllers run out of events, and then the next loop
-- over the channels finds all counts at 0.
import S4Sim.Lib.Fairness
import S4Sim.NandCtrl.ArrayOperations
import S4Sim.NandCtrl.EventsLeft
import Mathlib.Algebra.BigOperators.Fin
import Mathlib.Algebra.Order.BigOperators.Group.Finset

open Fairness Runs

namespace S4Sim

open NandCtrl

/-! ## Turns -/

/-- The firmware, and the controllers together. -/
inductive FlashThread
  | firmware
  | nand
  deriving DecidableEq

/-- An action, or a turn without one: of the firmware outside of the call, or of the controllers
when no chip operation and no DMA is under way. -/
inductive FlashTurn (b : FlashBuild)
  | act (a : FlashAction b)
  | outside
  | rest

def FlashTurn.thread {b : FlashBuild} : FlashTurn b → Option FlashThread
  | .act .firmware | .outside => some .firmware
  | .act (.event ..) | .rest => some .nand
  | .act (.start ..) | .act (.store ..) => none

namespace FlashBuild

variable (b : FlashBuild)

def turnStep (s : FlashArray b) : FlashTurn b → Option (FlashArray b)
  | .act a => b.step s a
  | .outside =>
    match s.pc with
    | .idle => some s
    | _ => none
  | .rest =>
    if ∀ k, (s.ctrl k).chip_events = [] ∧ (s.ctrl k).dmas = [] then some s else none

def PromisedTurn (s : FlashArray b) : FlashTurn b → Prop
  | .act a => b.Promised s a
  | .outside | .rest => True

/-! ## The work of a call -/

/-- The rest of a loop over the channels, and one more loop. -/
def loopWork : Nat := 2 * (b.geometry.nand_num_chn + 1)

/-- The events of an operation, at most. -/
def eventWork : Nat := b.num_nand_ctrls * (256 * (b.geometry.nandPageBytes + 3))

/-- The steps of the firmware for the pages to issue: a page takes nine. -/
def issueWork (rest : List FlashPage) : Nat := 9 * rest.length + 1

/-- The steps to the end of the last loop, when all counts are 0. -/
def pollWork (ichn cmdStatus : Nat) : Nat :=
  b.geometry.nand_num_chn - ichn + 1 + if cmdStatus = 0 then 0 else b.geometry.nand_num_chn + 1

end FlashBuild

namespace FlashArray

variable {b : FlashBuild} {s s' u : FlashArray b} {m₀ : FlashMemory} {k j : Fin b.num_nand_ctrls}
  {c : Chn} {x : FlashPage} {rest : List FlashPage} {a : NandAction} {act : FlashAction b}
  {turn : FlashTurn b} {ichn cmdStatus e n : Nat} {th : FlashThread}

/-- A controller has `e` events to take. -/
def Pending (s : FlashArray b) (k : Fin b.num_nand_ctrls) (e : Nat) : Prop :=
  ∃ (f : FlashStream (b.ctrl k)) (m : FlashMemory) (tr : Chn → Track),
    NandCtrl.Good (b.ctrl k) f m False (s.ctrl k) tr ∧ EventsLeft (b.ctrl k) (s.ctrl k) tr e

/-- The work of a call, and whose turn it is. While it polls, the firmware waits for the
controllers. -/
def Work (s : FlashArray b) (n : Nat) (th : FlashThread) : Prop :=
  match s.pc with
  | .idle => False
  | .issuing rest => th = .firmware ∧ n = FlashBuild.issueWork rest + (b.loopWork + b.eventWork)
  | .writing k c rest => th = .firmware ∧
      n = ((s.ctrl k).writes c).length + 1 + FlashBuild.issueWork rest + (b.loopWork + b.eventWork)
  | .polling ichn cmdStatus => ∃ e : Fin b.num_nand_ctrls → Nat, (∀ k, s.Pending k (e k)) ∧
      if ∑ k, e k = 0 then th = .firmware ∧ n = b.pollWork ichn cmdStatus
      else th = .nand ∧ n = b.loopWork + ∑ k, e k

structure Waits (m₀ : FlashMemory) (s : FlashArray b) (n : Nat) (th : FlashThread) : Prop where
  sound : s.Sound m₀
  pc : s.PcGood
  work : s.Work n th

/-- The turn ends the call, or leaves less work, or leaves the work to a thread that has not
moved. -/
def Helped (m₀ : FlashMemory) (n : Nat) (th : FlashThread) (turn : FlashTurn b)
    (t : FlashArray b) : Prop :=
  StepHelps FlashTurn.thread (Waits m₀) (fun t => t.pc = .idle) n th turn t

/-! ## The events of the controllers -/

theorem Sound.pending (h : s.Sound m₀) (k : Fin b.num_nand_ctrls) :
    ∃ e, s.Pending k e ∧ e ≤ 256 * (b.geometry.nandPageBytes + 3) := by
  obtain ⟨f, m, tr, hf, -, -, hgood⟩ := h.ctrls k
  obtain ⟨e, he⟩ := hgood.working.engine.exists_eventsLeft
  refine ⟨e, ⟨f, m, tr, hgood.any_memory _ _, he⟩, hgood.left_le he fun c => ?_⟩
  rw [hf]
  exact Nat.le_trans (List.length_filter_le _ _) h.takes.length

theorem Pending.event (h : s.Pending k e) (ha : isEvent a = true)
    (hs : s.ctrlStep k a = some s') : ∃ e', s'.Pending k e' ∧ e' < e := by
  obtain ⟨f, m, tr, hgood, he⟩ := h
  obtain ⟨t, ht, rfl⟩ := Option.map_eq_some_iff.mp hs
  have hseen : NandCtrl.Good (b.ctrl k) f m False (s.seen k) tr := hgood.any_memory _ _
  obtain ⟨tr', e', hgood', he', hlt⟩ := hseen.event_left ha ht he
  refine ⟨e', ⟨f, m, tr', ?_⟩, hlt⟩
  rw [put_ctrl_self]
  exact ⟨hgood', he'⟩

theorem Pending.other (h : s.Pending j e) (hj : j ≠ k) (hs : s.ctrlStep k a = some s') :
    s'.Pending j e := by
  obtain ⟨t, ht, rfl⟩ := Option.map_eq_some_iff.mp hs
  unfold Pending
  rw [put_ctrl_other hj]
  exact h

/-- The work of the loop over the channels. -/
theorem work_of_pending {e : Fin b.num_nand_ctrls → Nat} (he : ∀ k, s.Pending k (e k))
    (hpolling : s.pc = .polling ichn cmdStatus) :
    ∃ n th, s.Work n th ∧ n ≤ b.loopWork + ∑ k, e k ∧
      (∑ k, e k = 0 → n = b.pollWork ichn cmdStatus) := by
  have hpoll : b.pollWork ichn cmdStatus ≤ b.loopWork := by
    unfold FlashBuild.pollWork FlashBuild.loopWork
    split <;> omega
  unfold Work
  rw [hpolling]
  by_cases hzero : ∑ k, e k = 0
  · exact ⟨_, _, ⟨e, he, by rw [if_pos hzero]; exact ⟨rfl, rfl⟩⟩, by omega, fun _ => rfl⟩
  · exact ⟨_, _, ⟨e, he, by rw [if_neg hzero]; exact ⟨rfl, rfl⟩⟩, by omega,
      fun h => absurd h hzero⟩

theorem Sound.eventWork (h : s.Sound m₀) :
    ∃ e : Fin b.num_nand_ctrls → Nat, (∀ k, s.Pending k (e k)) ∧ ∑ k, e k ≤ b.eventWork := by
  choose e he hle using h.pending
  refine ⟨e, he, ?_⟩
  calc ∑ k, e k ≤ ∑ _k : Fin b.num_nand_ctrls, 256 * (b.geometry.nandPageBytes + 3) :=
        Finset.sum_le_sum fun k _ => hle k
    _ = b.eventWork := by simp [FlashBuild.eventWork]

/-! ## One turn -/

/-- A turn that is not of the firmware, within the issue of the pages. -/
theorem Waits.issuing_other {t : FlashArray b} (h : s.Waits m₀ n th) (ht : t.Sound m₀)
    (hgood : t.PcGood) (hpc : t.pc = s.pc)
    (hpoll : ∀ ichn cmdStatus, s.pc ≠ .polling ichn cmdStatus)
    (hwrites : ∀ k, (t.ctrl k).writes = (s.ctrl k).writes)
    (hthread : turn.thread ≠ some .firmware) :
    Helped m₀ n th turn t := by
  have hwork := h.work
  unfold Work at hwork
  cases hcase : s.pc with
  | idle =>
    rw [hcase] at hwork
    exact hwork.elim
  | polling ichn cmdStatus => exact absurd hcase (hpoll ichn cmdStatus)
  | issuing rest | writing k c rest =>
    rw [hcase] at hwork
    obtain ⟨rfl, hn⟩ := hwork
    refine Or.inr ⟨n, .firmware, ⟨ht, hgood, ?_⟩, Or.inr ⟨rfl, rfl, hthread⟩⟩
    unfold Work
    rw [hpc, hcase]
    simp only [hwrites]
    exact ⟨trivial, hn⟩

/-- An event of a controller. -/
theorem Waits.event (h : s.Waits m₀ n th) (ha : isEvent a = true)
    (hs : s.ctrlStep k a = some s') :
    Helped m₀ n th (.act (.event k a)) s' := by
  obtain ⟨hsound, hgood⟩ := h.sound.event h.pc ha hs
  have hpc : s'.pc = s.pc := by
    obtain ⟨t, -, rfl⟩ := Option.map_eq_some_iff.mp hs
    rfl
  cases hcase : s.pc with
  | polling ichn cmdStatus =>
    have hwork := h.work
    unfold Work at hwork
    rw [hcase] at hwork
    obtain ⟨e, he, hn⟩ := hwork
    obtain ⟨e', he', hlt⟩ := (he k).event ha hs
    have hpending : ∀ j, s'.Pending j (Function.update e k e' j) := by
      intro j
      by_cases hj : j = k
      · subst hj
        rwa [Function.update_self]
      · rw [Function.update_of_ne hj]
        exact (he j).other hj hs
    have hless : ∑ j, Function.update e k e' j < ∑ j, e j := by
      refine Finset.sum_lt_sum (fun j _ => ?_) ⟨k, Finset.mem_univ k, by rwa [Function.update_self]⟩
      by_cases hj : j = k
      · subst hj
        rw [Function.update_self]
        exact Nat.le_of_lt hlt
      · rw [Function.update_of_ne hj]
    rw [if_neg (by omega)] at hn
    obtain ⟨n', th', hwork', hle, -⟩ := work_of_pending hpending (hpc.trans hcase)
    exact Or.inr ⟨n', th', ⟨hsound, hgood, hwork'⟩, Or.inl (by omega)⟩
  | idle | issuing rest | writing k' c rest =>
    refine h.issuing_other hsound hgood hpc (fun _ _ hp => ?_) (fun j => ?_)
      (by simp [FlashTurn.thread])
    · rw [hcase] at hp
      cases hp
    · obtain ⟨f, m, tr, hf, -, -, hctrl⟩ := h.sound.ctrls k
      obtain ⟨t, ht, rfl⟩ := Option.map_eq_some_iff.mp hs
      have hframe := hctrl.event_frame trivial (h.sound.takes.stream_inImage hf) ha ht
      exact put_cases (p := fun j u => u.writes = (s.ctrl j).writes) hframe.lists.writes
        (fun _ _ => rfl) j

/-- A turn that leaves the controllers as they are. -/
theorem Waits.still {t : FlashArray b} (h : s.Waits m₀ n th) (ht : t.Sound m₀) (hgood : t.PcGood)
    (hpc : t.pc = s.pc) (hctrl : t.ctrl = s.ctrl) (hthread : turn.thread ≠ some th) :
    Helped m₀ n th turn t := by
  refine Or.inr ⟨n, th, ⟨ht, hgood, ?_⟩, Or.inr ⟨rfl, rfl, hthread⟩⟩
  have hwork := h.work
  unfold Work Pending at hwork ⊢
  rw [hpc]
  simp only [hctrl]
  exact hwork

/-- The controllers rest only when they have no event to take. -/
theorem Waits.turn_of_rest (h : s.Waits m₀ n th)
    (hrest : ∀ k, (s.ctrl k).chip_events = [] ∧ (s.ctrl k).dmas = []) : th = .firmware := by
  have hwork := h.work
  have hpc := h.pc
  unfold Work at hwork
  unfold PcGood at hpc
  cases hcase : s.pc with
  | idle =>
    rw [hcase] at hwork
    exact hwork.elim
  | issuing rest | writing k c rest =>
    rw [hcase] at hwork
    exact hwork.1
  | polling ichn cmdStatus =>
    rw [hcase] at hwork hpc
    obtain ⟨e, he, hn⟩ := hwork
    by_cases hzero : ∑ k, e k = 0
    · rw [if_pos hzero] at hn
      exact hn.1
    · exfalso
      apply hzero
      apply Finset.sum_eq_zero
      intro k _
      by_contra hpos
      obtain ⟨f, m, tr, hgood, hleft⟩ := he k
      rcases hgood.some_left (hpc.2.1 k) hleft hpos with hevents | hdmas
      · exact hevents (hrest k).1
      · exact hdmas (hrest k).2

/-- The firmware begins with the register writes of a page. -/
theorem firmwareStep_issuing (hissuing : s.pc = .issuing (x :: rest))
    (hs : s.firmwareStep = some u) :
    ∃ k c, u.pc = .writing k c rest ∧ ((u.ctrl k).writes c).length = 7 := by
  unfold firmwareStep at hs
  simp only [hissuing] at hs
  obtain ⟨⟨k, c⟩, -, hmap⟩ := Option.bind_eq_some_iff.mp hs
  obtain ⟨t, ht, rfl⟩ := Option.map_eq_some_iff.mp hmap
  obtain ⟨r, hr, rfl⟩ := Option.map_eq_some_iff.mp ht
  refine ⟨k, c, rfl, ?_⟩
  unfold nandStep at hr
  split at hr
  · cases hr
  · simp only [nextPage] at hr
    split at hr
    · cases hr
      simp [put, pageWrites]
    · cases hr

/-- It makes one register write after another. -/
theorem Sound.firmwareStep_writing (h : s.Sound m₀) (hwriting : s.pc = .writing k c rest)
    (hs : s.firmwareStep = some u) : u.pc = .issuing rest ∨
      u.pc = .writing k c rest ∧ ((u.ctrl k).writes c).length < ((s.ctrl k).writes c).length := by
  unfold firmwareStep at hs
  simp only [hwriting] at hs
  split at hs
  · cases hs
    exact Or.inl rfl
  · rename_i hnonempty
    obtain ⟨t, ht, rfl⟩ := Option.map_eq_some_iff.mp hs
    obtain ⟨f, m, tr, -, -, -, hgood⟩ := h.ctrls k
    unfold nandStep at ht
    rw [if_neg (by rw [h.sane]; decide)] at ht
    obtain ⟨-, hwrites, -⟩ := hgood.register_frame ht
    refine Or.inr ⟨hwriting, ?_⟩
    have hpos := List.length_pos_of_ne_nil hnonempty
    have hlist : (s.seen k).writes c = (s.ctrl k).writes c := rfl
    rw [put_ctrl_self, hwrites, Function.update_self, hlist, List.length_tail]
    omega

/-- It reads one count after another. When the controllers have no event left, the loop that it
begins then is the last. -/
theorem Waits.firmware_polling (h : s.Waits m₀ n th) (hpolling : s.pc = .polling ichn cmdStatus)
    (hs : s.firmwareStep = some u) (hsound : u.Sound m₀) (hgood : u.PcGood) :
    Helped m₀ n th (.act .firmware) u := by
  have hwork := h.work
  unfold Work at hwork
  rw [hpolling] at hwork
  obtain ⟨e, he, hn⟩ := hwork
  have hpc := h.pc
  unfold PcGood at hpc
  rw [hpolling] at hpc
  obtain ⟨-, hwrites, hle, -, hzero⟩ := hpc
  unfold firmwareStep at hs
  simp only [hpolling] at hs
  have hnext : ∀ ichn' cmdStatus', u = { s with pc := .polling ichn' cmdStatus' } →
      (∑ k, e k = 0 → b.pollWork ichn' cmdStatus' < b.pollWork ichn cmdStatus) →
      Helped m₀ n th (.act .firmware) u := by
    intro ichn' cmdStatus' hu hless
    have hpending : ∀ k, u.Pending k (e k) := by
      rw [hu]
      exact he
    obtain ⟨n', th', hwork', hle', hpoll⟩ := work_of_pending hpending (by rw [hu])
    by_cases hsum : ∑ k, e k = 0
    · rw [if_pos hsum] at hn
      refine Or.inr ⟨n', th', ⟨hsound, hgood, hwork'⟩, Or.inl ?_⟩
      rw [hpoll hsum, hn.2]
      exact hless hsum
    · rw [if_neg hsum] at hn
      obtain ⟨rfl, hn⟩ := hn
      refine Or.inr ⟨n, .nand, ⟨hsound, hgood, ?_⟩, Or.inr ⟨rfl, rfl, by simp [FlashTurn.thread]⟩⟩
      unfold Work
      rw [hu]
      exact ⟨e, he, by rw [if_neg hsum]; exact ⟨rfl, hn⟩⟩
  split at hs
  · rename_i hlt
    obtain ⟨⟨k, c⟩, -, hu⟩ := Option.map_eq_some_iff.mp hs
    refine hnext _ _ hu.symm fun hsum => ?_
    have hcount : (s.ctrl k).activeOperationCount c = 0 := by
      obtain ⟨f, m, tr, hctrl, hleft⟩ := he k
      rw [Finset.sum_eq_zero_iff.mp hsum k (Finset.mem_univ k)] at hleft
      exact hctrl.none_left hleft c
    have hstatus : (cmdStatus + (s.ctrl k).activeOperationCount c) % 2 ^ 32 = cmdStatus := by
      have hpc := h.pc
      unfold PcGood at hpc
      rw [hpolling] at hpc
      have hchannels := b.geometry.chn_le
      rw [hcount]
      exact Nat.mod_eq_of_lt (by have := hpc.2.2.2.1; omega)
    rw [hstatus]
    unfold FlashBuild.pollWork
    omega
  · split at hs
    · cases hs
      exact Or.inl rfl
    · rename_i hnonzero
      cases hs
      refine hnext 0 0 rfl fun _ => ?_
      unfold FlashBuild.pollWork
      rw [if_pos rfl, if_neg hnonzero]
      omega

theorem Waits.firmware (h : s.Waits m₀ n th) (hs : s.firmwareStep = some u) :
    Helped m₀ n th (.act .firmware) u := by
  have hwork := h.work
  have hcall : s.pc ≠ .idle := by
    intro hidle
    unfold Work at hwork
    rw [hidle] at hwork
    exact hwork
  obtain ⟨hsound, hgood⟩ : u.Sound m₀ ∧ u.PcGood := by
    obtain ⟨t, ht, hgood⟩ := h.sound.firmware h.pc hcall
    obtain rfl := Option.some.inj (ht.symm.trans hs)
    exact hgood
  unfold Work at hwork
  cases hcase : s.pc with
  | idle => exact absurd hcase hcall
  | polling ichn cmdStatus => exact h.firmware_polling hcase hs hsound hgood
  | issuing rest =>
    rw [hcase] at hwork
    obtain ⟨rfl, rfl⟩ := hwork
    cases rest with
    | nil =>
      unfold firmwareStep at hs
      simp only [hcase] at hs
      cases hs
      obtain ⟨e, he, hle⟩ := hsound.eventWork
      obtain ⟨n', th', hwork', hle', -⟩ := work_of_pending he rfl
      refine Or.inr ⟨n', th', ⟨hsound, hgood, hwork'⟩, Or.inl ?_⟩
      unfold FlashBuild.issueWork
      omega
    | cons x rest =>
      obtain ⟨k, c, hpc, hlength⟩ := firmwareStep_issuing hcase hs
      have hwork' : u.Work (7 + 1 + FlashBuild.issueWork rest + (b.loopWork + b.eventWork))
          .firmware := by
        unfold Work
        rw [hpc]
        exact ⟨rfl, by rw [hlength]⟩
      refine Or.inr ⟨_, _, ⟨hsound, hgood, hwork'⟩, Or.inl ?_⟩
      unfold FlashBuild.issueWork
      rw [List.length_cons]
      omega
  | writing k c rest =>
    rw [hcase] at hwork
    obtain ⟨rfl, rfl⟩ := hwork
    rcases h.sound.firmwareStep_writing hcase hs with hpc | ⟨hpc, hless⟩
    · have hwork' : u.Work (FlashBuild.issueWork rest + (b.loopWork + b.eventWork)) .firmware := by
        unfold Work
        rw [hpc]
        exact ⟨rfl, rfl⟩
      exact Or.inr ⟨_, _, ⟨hsound, hgood, hwork'⟩, Or.inl (by omega)⟩
    · have hwork' : u.Work (((u.ctrl k).writes c).length + 1 + FlashBuild.issueWork rest +
          (b.loopWork + b.eventWork)) .firmware := by
        unfold Work
        rw [hpc]
        exact ⟨rfl, rfl⟩
      exact Or.inr ⟨_, _, ⟨hsound, hgood, hwork'⟩, Or.inl (by omega)⟩

/-! ## A call -/

theorem Waits.turnStep (h : s.Waits m₀ n th) (hok : b.PromisedTurn s turn)
    (hs : b.turnStep s turn = some u) : Helped m₀ n th turn u := by
  unfold FlashBuild.turnStep at hs
  cases turn with
  | outside =>
    have hwork := h.work
    unfold Work at hwork
    simp only at hs
    split at hs
    · rename_i hidle
      rw [hidle] at hwork
      exact hwork.elim
    · cases hs
  | rest =>
    simp only at hs
    split at hs
    · rename_i hrest
      cases hs
      obtain rfl := h.turn_of_rest hrest
      exact h.still h.sound h.pc rfl rfl (by simp [FlashTurn.thread])
    · cases hs
  | act a =>
    cases a with
    | firmware => exact h.firmware hs
    | event k a =>
      simp only [FlashBuild.step] at hs
      split at hs
      · exact h.event ‹_› hs
      · cases hs
    | store addr value =>
      have hout : b.Promised s (.store addr value) := hok
      obtain ⟨hsound, hgood⟩ := h.sound.step h.pc hout hs
      simp only [FlashBuild.step] at hs
      cases hs
      exact h.still hsound hgood rfl rfl (by simp [FlashTurn.thread])
    | start op pages =>
      have hwork := h.work
      unfold Work at hwork
      simp only [FlashBuild.step] at hs
      split at hs
      · rename_i hidle
        rw [hidle] at hwork
        exact hwork.elim
      · cases hs

/-- The work that is left of a call, at most. -/
def workLeft (s : FlashArray b) : Nat :=
  match s.pc with
  | .idle => 0
  | .issuing rest => FlashBuild.issueWork rest + (b.loopWork + b.eventWork)
  | .writing k c rest => ((s.ctrl k).writes c).length + 1 + FlashBuild.issueWork rest +
      (b.loopWork + b.eventWork)
  | .polling .. => b.loopWork + b.eventWork

theorem Sound.waits (h : s.Sound m₀) (hgood : s.PcGood) (hcall : s.pc ≠ .idle) :
    ∃ n th, s.Waits m₀ n th ∧ n ≤ s.workLeft := by
  suffices hwork : ∃ n th, s.Work n th ∧ n ≤ s.workLeft by
    obtain ⟨n, th, hwork, hle⟩ := hwork
    exact ⟨n, th, ⟨h, hgood, hwork⟩, hle⟩
  cases hcase : s.pc with
  | idle => exact absurd hcase hcall
  | issuing rest | writing k c rest =>
    unfold Work workLeft
    rw [hcase]
    exact ⟨_, _, ⟨rfl, rfl⟩, Nat.le_refl _⟩
  | polling ichn cmdStatus =>
    obtain ⟨e, he, hle⟩ := h.eventWork
    obtain ⟨n, th, hwork, hn, -⟩ := work_of_pending he hcase
    refine ⟨n, th, hwork, Nat.le_trans hn ?_⟩
    unfold workLeft
    rw [hcase]
    exact Nat.add_le_add_left hle _

end FlashArray

/-- From every reachable state, every run in which the firmware and the controllers keep taking
turns comes to the return of the call: within as many rounds as there is work left. The
controllers may pass a turn only when no chip operation and no DMA is under way. -/
theorem every_call_of_a_flash_operation_returns (b : FlashBuild)
    {toggle : Fin b.num_nand_ctrls → Bool} {regs : Fin b.num_nand_ctrls → Chn → Nat → Nat → UInt8}
    {image ram : Nat → UInt8} {acts : List (FlashAction b)} {s u : FlashArray b}
    (hok : AllSteps b.step b.Promised (b.initial toggle regs image ram) acts)
    (hrun : run b.step (b.initial toggle regs image ram) acts = some s)
    {rounds : List (List (FlashTurn b))} (hfair : ∀ r ∈ rounds, FairRound FlashTurn.thread r)
    (hlen : s.workLeft < rounds.length)
    (hkept : AllSteps b.turnStep b.PromisedTurn s rounds.flatten)
    (hturns : run b.turnStep s rounds.flatten = some u) :
    Passes b.turnStep s rounds.flatten fun t => t.pc = .idle := by
  obtain ⟨hsound, hgood⟩ := FlashArray.sound_run hok hrun
  by_cases hidle : s.pc = .idle
  · exact .start hidle
  · obtain ⟨n, th, hwaits, hle⟩ := hsound.waits hgood hidle
    exact fair_run_passes (fun _ _ _ _ _ hw hok hs => hw.turnStep hok hs) hfair hwaits (by omega)
      hkept hturns

/-! ## The call of a program -/

/-- The rounds of the call: both threads take a turn, and the controller passes it before the
DMA and after the end of its chip. -/
def programRounds : List (List (FlashTurn twoBytePages)) :=
  List.replicate 7 [.act .firmware, .rest] ++
    [[.act .firmware, .act (.event firstCtrl (.moveByte 0 1))],
      [.act .firmware, .act (.event firstCtrl (.moveByte 0 0))],
      [.act .firmware, .act (.event firstCtrl (.dmaComplete 0))],
      [.act .firmware, .act (.event firstCtrl (.chipComplete .channel_1 0))],
      [.act .firmware, .rest], [.act .firmware, .rest]]

/-- Rounds between two calls. -/
def idleRounds (n : Nat) : List (List (FlashTurn twoBytePages)) :=
  List.replicate n [.outside, .rest]

theorem run_idleRounds {s : FlashArray twoBytePages} (hidle : s.pc = .idle)
    (hrest : ∀ k, (s.ctrl k).chip_events = [] ∧ (s.ctrl k).dmas = []) (n : Nat) :
    run twoBytePages.turnStep s (idleRounds n).flatten = some s := by
  have houtside : twoBytePages.turnStep s .outside = some s := by
    unfold FlashBuild.turnStep
    rw [hidle]
  have hpass : twoBytePages.turnStep s .rest = some s := if_pos hrest
  induction n with
  | zero => rfl
  | succ n ih =>
    have hflatten : (idleRounds (n + 1)).flatten = .outside :: .rest :: (idleRounds n).flatten :=
      rfl
    rw [hflatten, run_cons, houtside, Option.bind_some, run_cons, hpass, Option.bind_some, ih]

/-- A round is a turn of the firmware and one of the controller. -/
theorem mem_rounds {n : Nat} {r : List (FlashTurn twoBytePages)}
    (hr : r ∈ programRounds ++ idleRounds n) :
    ∃ t u, r = [t, u] ∧ t.thread = some .firmware ∧ u.thread = some .nand := by
  simp only [programRounds, idleRounds, List.mem_append, List.mem_replicate, List.mem_cons,
    List.not_mem_nil, or_false] at hr
  rcases hr with ((⟨-, rfl⟩ | rfl | rfl | rfl | rfl | rfl | rfl) | ⟨-, rfl⟩) <;>
    exact ⟨_, _, rfl, rfl, rfl⟩

theorem fair_programRounds (n : Nat) :
    ∀ r ∈ programRounds ++ idleRounds n, FairRound FlashTurn.thread r := by
  intro r hr th
  obtain ⟨t, u, rfl, ht, hu⟩ := mem_rounds hr
  cases th with
  | firmware => exact ⟨t, by simp, ht⟩
  | nand => exact ⟨u, by simp, hu⟩

/-- No other master stores, and no other call begins. -/
theorem promised_programRounds (n : Nat) {s : FlashArray twoBytePages} :
    AllSteps twoBytePages.turnStep twoBytePages.PromisedTurn s
      (programRounds ++ idleRounds n).flatten := by
  have hpromised : ∀ (turn : FlashTurn twoBytePages) th, turn.thread = some th →
      ∀ t, twoBytePages.PromisedTurn t turn := by
    intro turn th hth t
    cases turn with
    | act a =>
      cases a with
      | firmware | event => trivial
      | start | store => cases hth
    | outside | rest => trivial
  refine allSteps_of_forall fun turn hturn t => ?_
  obtain ⟨r, hr, hmem⟩ := List.mem_flatten.mp hturn
  obtain ⟨v, w, rfl, hv, hw⟩ := mem_rounds hr
  rcases List.mem_pair.mp hmem with rfl | rfl
  · exact hpromised _ _ hv t
  · exact hpromised _ _ hw t

/-- The state after the call has begun. -/
def calling : FlashArray twoBytePages :=
  beforeProgram.start .FLASH_PROGRAM [(programmedPage.ppa, programmedPage.ssd_addr)]

/-- The state after its rounds. -/
def called : FlashArray twoBytePages :=
  (run twoBytePages.turnStep calling programRounds.flatten).getD calling

theorem the_call_of_a_program_returns :
    ∃ u, run twoBytePages.turnStep calling (programRounds ++ idleRounds 1300).flatten = some u ∧
      Passes twoBytePages.turnStep calling (programRounds ++ idleRounds 1300).flatten
        fun t => t.pc = .idle := by
  have hstart : run twoBytePages.step beforeProgram
      [.start .FLASH_PROGRAM [(programmedPage.ppa, programmedPage.ssd_addr)]] = some calling := rfl
  have hok : AllSteps twoBytePages.step twoBytePages.Promised beforeProgram
      [.start .FLASH_PROGRAM [(programmedPage.ppa, programmedPage.ssd_addr)]] :=
    ⟨takes_programmedPage, fun _ _ => trivial⟩
  have hcalled : run twoBytePages.turnStep calling programRounds.flatten = some called := rfl
  have hrest : ∀ k, (called.ctrl k).chip_events = [] ∧ (called.ctrl k).dmas = [] := by
    intro k
    have hone : (k : Nat) < 1 := k.isLt
    have hk : k = firstCtrl := Fin.ext (Nat.lt_one_iff.mp hone)
    rw [hk]
    exact ⟨rfl, rfl⟩
  have hturns : run twoBytePages.turnStep calling (programRounds ++ idleRounds 1300).flatten =
      some called := by
    rw [List.flatten_append, run_append, hcalled, Option.bind_some]
    exact run_idleRounds rfl hrest 1300
  have hlen : calling.workLeft < (programRounds ++ idleRounds 1300).length := by
    rw [List.length_append]
    have hidle : (idleRounds 1300).length = 1300 := List.length_replicate
    have hwork : calling.workLeft = 1296 := rfl
    omega
  exact ⟨called, hturns, every_call_of_a_flash_operation_returns twoBytePages hok hstart
    (fair_programRounds 1300) hlen (promised_programRounds 1300) hturns⟩

end S4Sim
