-- The runs of a NAND controller: every state keeps the invariant, and a channel
-- that counts no operation has done its pages.
import S4Sim.NandCtrl.Registers

namespace S4Sim

open Rings Runs Windows

namespace NandCtrl

variable {p : NandCtrlParams} {f : FlashStream p} {m : FlashMemory} {ok : Prop} {c : Chn}
  {s s' : NandCtrl} {tr : Chn → Track} {toggle : Bool} {image ram : Nat → UInt8}
  {regs : Chn → Nat → Nat → UInt8} {acts : List NandAction} {a : NandAction}

theorem good_initial :
    Good p f ⟨image, ram⟩ ok (initialNand f.pages toggle image ram regs)
      fun _ => ⟨[], .idle, [], []⟩ := by
  refine ⟨⟨rfl, fun _ => rfl, ?_, ?_, ?_, ?_⟩, ?_, ?_⟩
  · intro c
    have hroom : ((initialNand f.pages toggle image ram regs).channel c).cmd_waiting_room.Holds
        [] :=
      ⟨RingBuffer.holds_nil (by decide : 0 < 1024) (by decide : 0 < 1024) rfl, rfl,
        by simp [initialNand], by simp [initialNand]⟩
    refine ⟨rfl, hroom, rfl, rfl, trivial, rfl, by simp [initialNand], by simp [initialNand],
      by simp, fun _ => rfl, by simp, by simp, ?_, ?_, rfl⟩
    · intro k
      simp [initialNand, eventsOf]
    · simp [initialNand, eventsOf]
  · intro c k hk
    simp [initialNand, eventsOf] at hk
  · exact ⟨fun _ => ⟨rfl, fun _ => rfl⟩, fun _ h => by cases h⟩
  · intro _ c
    exact ⟨fun _ _ => rfl, fun _ _ _ => rfl, by simp, by simp, by simp⟩
  · intro c _ cmd l hroom
    cases hroom
  · intro c
    exact ⟨rfl, by simp [initialNand]⟩

/-- Every step keeps the invariant. -/
theorem Good.step (h : Good p f m ok s tr) (hin : ok → ∀ c, ∀ x ∈ f.pages c, InImage p c x)
    (hs : nandStep p s a = some s') : ∃ tr', Good p f m ok s' tr' := by
  unfold nandStep at hs
  rw [if_neg (by rw [h.working.sane]; decide)] at hs
  cases a with
  | nextPage c => exact h.next_page hs
  | registerWrite c => exact h.register_write hin hs
  | moveByte n i => exact ⟨tr, h.move_byte hs⟩
  | dmaComplete n => exact h.dma_complete hin hs
  | chipComplete c k => exact h.chip_complete hin hs

theorem good_run (hin : ok → ∀ c, ∀ x ∈ f.pages c, InImage p c x)
    (h : run (nandStep p) (initialNand f.pages toggle image ram regs) acts = some s) :
    ∃ tr, Good p f ⟨image, ram⟩ ok s tr :=
  run_keeps (I := fun s => ∃ tr, Good p f ⟨image, ram⟩ ok s tr)
    (fun _ _ _ ⟨_, ht⟩ hs => ht.step hin hs) ⟨_, good_initial⟩ h

/-- The events of a channel are fewer than its count can hold. -/
theorem Working.events_le {unsent : Chn → List NcCommand} (h : Working p f m ok unsent s tr)
    (c : Chn) : (s.eventsOf c).length ≤ 128 := by
  have hsub : (s.eventsOf c) ⊆ List.range p.planes_per_chn :=
    fun k hk => List.mem_range.mpr (h.chips c k hk)
  calc (s.eventsOf c).length
      ≤ (List.range p.planes_per_chn).length :=
        (h.tracked c).once.length_le_of_subset hsub
    _ = p.planes_per_chn := List.length_range
    _ ≤ 128 := p.chips_le

/-- A channel that counts no operation has done all its pages. -/
theorem Good.all_done (h : Good p f m ok s tr) (hwrites : s.writes c = [])
    (hcount : s.activeOperationCount c = 0) :
    (tr c).stage = .idle ∧ s.issued c = (tr c).done := by
  have htracked := h.working.tracked c
  have hevents := h.working.events_le c
  obtain ⟨hactive, hitems⟩ : (s.channel c).active_nand_ops = 0 ∧
      (s.channel c).cmd_waiting_room.items = 0 := by
    unfold activeOperationCount at hcount
    omega
  have hroom : (tr c).room = [] := by
    rw [htracked.room.items] at hitems
    exact List.length_eq_zero_iff.mp hitems
  have hwaits : (tr c).stage.waits = false := by
    rw [htracked.active] at hactive
    cases hw : (tr c).stage.waits with
    | false => rfl
    | true =>
      rw [hw, Bool.toNat_true] at hactive
      omega
  have hcoming := htracked.coming
  have hpush : s.toPush c = [] := by
    rw [toPush, hwrites]
    rfl
  rw [hroom, hpush, List.append_nil, eq_comm, List.append_eq_nil_iff] at hcoming
  have hlater : (tr c).later = [] := by
    cases hl : (tr c).later with
    | nil => rfl
    | cons x l =>
      rw [hl] at hcoming
      simp [commands] at hcoming
  cases hstage : (tr c).stage with
  | idle =>
    refine ⟨rfl, ?_⟩
    rw [htracked.issued, hstage, hlater]
    simp
  | sensed x | addressed x =>
    rw [hstage] at hcoming
    simp at hcoming
  | toRam x | fromRam x =>
    rw [hstage] at hwaits
    simp at hwaits

/-- It has executed them: its part of the image, and every byte of the RAM that the other
channel does not read a page into, are those of its pages. -/
theorem Good.executed (h : Good p f m True s tr) (hwrites : s.writes c = [])
    (hcount : s.activeOperationCount c = 0) :
    (∀ o, InPart p c o → s.image o = (executePages p c m (s.issued c)).image o) ∧
      ∀ a, Own p s c a → s.ram a = (executePages p c m (s.issued c)).ram a := by
  obtain ⟨hidle, hdone⟩ := h.all_done hwrites hcount
  have hdata := h.working.data trivial c
  rw [hdone]
  refine ⟨hdata.image, fun a ha => hdata.ram a ha ?_⟩
  intro x i hx
  rw [hidle] at hx
  cases hx

end NandCtrl

end S4Sim
