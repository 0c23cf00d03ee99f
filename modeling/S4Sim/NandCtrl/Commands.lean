-- One command of the waiting room: what it does to its channel, to the DMA
-- engine and to the memories. The recursion over the room keeps the same
-- invariant and ends with a settled channel.
import S4Sim.NandCtrl.PageMemory

namespace S4Sim

open Rings Windows

variable {p : NandCtrlParams} {f : FlashStream p} {m : FlashMemory} {ok : Prop} {c : Chn}
  {g : Geometry} {ch : NcChannel} {events : List Nat} {unsent : List NcCommand}
  {issued : List FlashPage} {t : Track} {x : FlashPage} {k : Nat} {cmd : NcCommand}
  {l : List NcCommand} {later : List FlashPage} {chip : NcChip}

/-! ## The channel -/

/-- The command at the front of the room is the next one of the current page, or the first
one of the next page. -/
theorem Tracked.front_cases (h : Tracked g ch events unsent issued t) (hroom : t.room = cmd :: l)
    (hwait : t.stage.waits = false) :
    (∃ x later, t.stage = .idle ∧ t.later = x :: later ∧ cmd = cmdPhase g x ∧
      l ++ unsent = dmaPhase g x :: later.flatMap (commands g)) ∨
    (∃ x, (t.stage = .sensed x ∨ t.stage = .addressed x) ∧ cmd = dmaPhase g x ∧
      l ++ unsent = t.later.flatMap (commands g)) := by
  have hcoming := h.coming
  rw [hroom, List.cons_append] at hcoming
  cases hstage : t.stage with
  | idle =>
    left
    rw [hstage, ChnStage.rest, List.nil_append] at hcoming
    cases hlater : t.later with
    | nil => simp [hlater] at hcoming
    | cons x later =>
      rw [hlater, List.flatMap_cons, commands] at hcoming
      obtain ⟨hcmd, hrest⟩ := List.cons.inj hcoming
      exact ⟨x, later, rfl, rfl, hcmd, hrest⟩
  | sensed x =>
    right
    rw [hstage] at hcoming
    obtain ⟨hcmd, hrest⟩ := List.cons.inj hcoming
    exact ⟨x, Or.inl rfl, hcmd, hrest⟩
  | addressed x =>
    right
    rw [hstage] at hcoming
    obtain ⟨hcmd, hrest⟩ := List.cons.inj hcoming
    exact ⟨x, Or.inr rfl, hcmd, hrest⟩
  | toRam x => simp [hstage, ChnStage.waits] at hwait
  | fromRam x => simp [hstage, ChnStage.waits] at hwait

/-- The channel after a command that makes a chip busy. -/
theorem Tracked.sense (h : Tracked g ch events unsent issued t)
    (hroom : t.room = cmdPhase g x :: l) (hstage : t.stage = .idle) (hlater : t.later = x :: later)
    (hcoming : l ++ unsent = dmaPhase g x :: later.flatMap (commands g))
    (hop : x.op = .FLASH_READ) (hbusy : (ch.chips (chip_index g x.ppa)).busy = false)
    (hchip : chip.busy = true)
    (hpending : chip.pending_write_cmd = (ch.chips (chip_index g x.ppa)).pending_write_cmd) :
    Tracked g { ch with
        chips := Function.update ch.chips (chip_index g x.ppa) chip
        active_nand_ops := (ch.active_nand_ops + 1) % 256
        cmd_waiting_room := ch.cmd_waiting_room.pop_front }
      (events ++ [chip_index g x.ppa]) unsent issued ⟨t.done, .sensed x, later, l⟩ := by
  have hnew : chip_index g x.ppa ∉ events := by
    intro hk
    rw [(h.busy _).mpr hk] at hbusy
    exact Bool.noConfusion hbusy
  have hroom' := h.room
  rw [hroom] at hroom'
  refine ⟨?_, hroom'.pop_front, ?_, hcoming, hop, ?_, ?_, ?_, by simp, ?_, by simp,
    by simp [ChnStage.calm], ?_, ?_, ?_⟩
  · rw [h.issued, hstage, hlater]
    simp [ChnStage.pages]
  · rw [SimpleFiFo.pop_front_size]
    exact h.size
  · rw [h.wait, hstage]
    rfl
  · rw [h.read_dma, hstage]
    simp
  · rw [h.write_dma, hstage]
    simp
  · intro k
    have hk := h.pending k
    rw [hstage] at hk
    by_cases he : k = chip_index g x.ppa
    · subst he
      simp only [Function.update_self, hpending]
      exact hk
    · simp only [Function.update_of_ne he]
      exact hk
  · intro k
    by_cases he : k = chip_index g x.ppa
    · subst he
      simp [hchip]
    · simp only [Function.update_of_ne he, h.busy k, List.mem_append, List.mem_singleton, he,
        or_false]
  · rw [List.nodup_append]
    refine ⟨h.once, List.nodup_singleton _, ?_⟩
    intro a ha b hb
    rw [List.mem_singleton] at hb
    rintro rfl
    exact hnew (hb ▸ ha)
  · have hactive := h.active
    rw [hstage] at hactive
    simp only [ChnStage.waits, Bool.toNat_false, Nat.add_zero, List.length_append,
      List.length_singleton] at hactive ⊢
    omega

/-- The channel after a program command, which leaves the chip free. -/
theorem Tracked.address_cycles (h : Tracked g ch events unsent issued t)
    (hroom : t.room = cmdPhase g x :: l) (hstage : t.stage = .idle) (hlater : t.later = x :: later)
    (hcoming : l ++ unsent = dmaPhase g x :: later.flatMap (commands g))
    (hop : x.op = .FLASH_PROGRAM) (hbusy : (ch.chips (chip_index g x.ppa)).busy = false)
    (hchip : chip.busy = false) (hpending : chip.pending_write_cmd = some (cmdPhase g x))
    (hrow : chip.row_page = x.ppa.page % 65536 ∧ chip.row_block = x.ppa.block % 65536) :
    Tracked g { ch with
        chips := Function.update ch.chips (chip_index g x.ppa) chip
        cmd_waiting_room := ch.cmd_waiting_room.pop_front }
      events unsent issued ⟨t.done, .addressed x, later, l⟩ := by
  have hroom' := h.room
  rw [hroom] at hroom'
  refine ⟨?_, hroom'.pop_front, ?_, hcoming, hop, ?_, ?_, ?_, by simp, ?_, ?_, ?_, ?_,
    h.once, ?_⟩
  · rw [h.issued, hstage, hlater]
    simp [ChnStage.pages]
  · rw [SimpleFiFo.pop_front_size]
    exact h.size
  · rw [h.wait, hstage]
    rfl
  · rw [h.read_dma, hstage]
    simp
  · rw [h.write_dma, hstage]
    simp
  · intro k
    have hk := h.pending k
    rw [hstage] at hk
    by_cases he : k = chip_index g x.ppa
    · subst he
      simp [hpending, ChnStage.pending]
    · simp only [Function.update_of_ne he, hk]
      simp [he]
  · intro y hy
    simp only [ChnStage.addressed.injEq, reduceCtorEq, or_false] at hy
    subst hy
    simp only [Function.update_self]
    exact hrow
  · intro k hk
    simp only [ChnStage.calm, Option.some.injEq] at hk
    subst hk
    simp only [Function.update_self]
    exact hchip
  · intro k
    by_cases he : k = chip_index g x.ppa
    · subst he
      simp only [Function.update_self, hchip, ← hbusy]
      exact h.busy _
    · simp only [Function.update_of_ne he]
      exact h.busy k
  · have hactive := h.active
    rw [hstage] at hactive
    exact hactive

/-- The channel after a DMA command. -/
theorem Tracked.ask (h : Tracked g ch events unsent issued t)
    (hroom : t.room = dmaPhase g x :: l) (hstage : t.stage = .sensed x ∨ t.stage = .addressed x)
    (hcoming : l ++ unsent = t.later.flatMap (commands g))
    (hbusy : (ch.chips (chip_index g x.ppa)).busy = false) :
    Tracked g { ch with
        active_nand_ops := (ch.active_nand_ops + 1) % 256
        read_dma := decide (x.op = .FLASH_PROGRAM)
        write_dma := decide (x.op = .FLASH_READ)
        dma_ram_ptr := x.ssd_addr
        dma_chip := some (chip_index g x.ppa)
        wait_dma_completion := true
        cmd_waiting_room := ch.cmd_waiting_room.pop_front }
      events unsent issued
      ⟨t.done, if x.op = .FLASH_READ then .toRam x else .fromRam x, t.later, l⟩ := by
  have hroom' := h.room
  rw [hroom] at hroom'
  have hactive := h.active
  rcases hstage with hstage | hstage
  · have hop : x.op = .FLASH_READ := by
      have := h.fits
      rwa [hstage] at this
    rw [if_pos hop, hop]
    refine ⟨?_, hroom'.pop_front, ?_, hcoming, hop, rfl, by simp, by simp, ?_, ?_,
      by simp, ?_, h.busy, h.once, ?_⟩
    · rw [h.issued, hstage]
      rfl
    · rw [SimpleFiFo.pop_front_size]
      exact h.size
    · intro y hy
      simp only [ChnStage.toRam.injEq, reduceCtorEq, or_false] at hy
      subst hy
      exact ⟨rfl, rfl⟩
    · intro k
      rw [h.pending k, hstage]
      rfl
    · intro k hk
      simp only [ChnStage.calm, Option.some.injEq] at hk
      subst hk
      exact hbusy
    · rw [hstage] at hactive
      simp only [ChnStage.waits, Bool.toNat_false, Bool.toNat_true] at hactive ⊢
      omega
  · have hop : x.op = .FLASH_PROGRAM := by
      have := h.fits
      rwa [hstage] at this
    rw [if_neg (by simp [hop]), hop]
    refine ⟨?_, hroom'.pop_front, ?_, hcoming, hop, rfl, by simp, by simp, ?_, ?_,
      ?_, ?_, h.busy, h.once, ?_⟩
    · rw [h.issued, hstage]
      rfl
    · rw [SimpleFiFo.pop_front_size]
      exact h.size
    · intro y hy
      simp only [ChnStage.fromRam.injEq, reduceCtorEq, false_or] at hy
      subst hy
      exact ⟨rfl, rfl⟩
    · intro k
      rw [h.pending k, hstage]
      rfl
    · intro y hy
      simp only [ChnStage.fromRam.injEq, reduceCtorEq, false_or] at hy
      subst hy
      exact h.address _ (Or.inl hstage)
    · intro k hk
      simp only [ChnStage.calm, Option.some.injEq] at hk
      subst hk
      exact hbusy
    · rw [hstage] at hactive
      simp only [ChnStage.waits, Bool.toNat_false, Bool.toNat_true] at hactive ⊢
      omega

end S4Sim
