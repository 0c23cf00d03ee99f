-- The two models of `decode_prp`: the one of Prp.lean fills a descriptor of
-- `MDTS_PAGES` entries and reads the list in the host memory, the walk fetches it. They
-- agree as long as the descriptor has room and the sum does not wrap around.
import S4Sim.Nvme.PrpWalk

namespace S4Sim

namespace PrpWalk

variable {p : HostPage} {mem : Mem} {w : PrpWalk} {i len n list : Nat} {t : PrpTransfer}
  {dma dma' : Dma} {ok : Bool}

/-! ## The turns of the loop over the host memory -/

theorem nextEntry_data {list : Nat} (h : ¬ Chained p i len) :
    nextEntry p.hostPageBits mem list i len =
      if badEntry p.hostPageBits (listSlots mem list i) then none
      else some (list, i, listSlots mem list i) := by
  have hchained :
      (i == 2 ^ p.hostPageBits / 8 - 1 && decide (len > 2 ^ p.hostPageBits)) = false := by
    rw [Bool.and_eq_false_iff, beq_eq_false_iff_ne, decide_eq_false_iff_not]
    by_cases hslot : i = p.lastSlot
    · exact Or.inr fun hmore => h ⟨hslot, hmore⟩
    · exact Or.inl hslot
  unfold nextEntry listSlots
  simp only [hchained, Bool.false_and, Bool.false_eq_true, if_false]

/-- Behind a good pointer to the next page of the list, the entry is the first one of it. -/
theorem nextEntry_chained {list : Nat} (h : Chained p i len) :
    nextEntry p.hostPageBits mem list i len =
      if badEntry p.hostPageBits (listSlots mem list i) then none
      else nextEntry p.hostPageBits mem (listSlots mem list i) 0 len := by
  have hchained :
      (i == 2 ^ p.hostPageBits / 8 - 1 && decide (len > 2 ^ p.hostPageBits)) = true := by
    rw [Bool.and_eq_true, beq_iff_eq, decide_eq_true_iff]
    exact h
  have hzero : ¬ Chained p 0 len := by
    rintro ⟨hslot, -⟩
    have hlast := p.lastSlot_ge
    omega
  rw [nextEntry_data hzero]
  unfold nextEntry listSlots
  simp only [hchained, Bool.true_and, if_true]

/-- A turn of the loop of `Dma` for an entry that points to data. -/
theorem dma_turn_data (hlen : len ≠ 0) (h : ¬ Chained p i len) :
    S4Sim.decode_list p.hostPageBits mem (n + 1) list i len dma =
      if badEntry p.hostPageBits (listSlots mem list i) then some (dma, false)
      else (dma.add_dma_entry (listSlots mem list i) (min len p.hostMemPageSize)).bind fun dma =>
        S4Sim.decode_list p.hostPageBits mem n list (i + 1) (len - min len p.hostMemPageSize)
          dma := by
  have hpage : p.hostMemPageSize = 2 ^ p.hostPageBits := rfl
  rw [S4Sim.decode_list, if_neg hlen, nextEntry_data h, hpage]
  by_cases hbad : badEntry p.hostPageBits (listSlots mem list i) = true
  · simp only [hbad, if_true]
  · simp only [hbad, Bool.false_eq_true, if_false]

/-- A turn of that loop for an entry that points to the next page of the list. -/
theorem dma_turn_chained (h : Chained p i len) :
    S4Sim.decode_list p.hostPageBits mem (n + 1) list i len dma =
      if badEntry p.hostPageBits (listSlots mem list i) then some (dma, false)
      else S4Sim.decode_list p.hostPageBits mem (n + 1) (listSlots mem list i) 0 len dma := by
  have hlen : len ≠ 0 := Nat.ne_of_gt (Nat.zero_lt_of_lt h.2)
  rw [S4Sim.decode_list, S4Sim.decode_list, if_neg hlen, if_neg hlen, nextEntry_chained h]
  by_cases hbad : badEntry p.hostPageBits (listSlots mem list i) = true
  · simp only [hbad, if_true]
  · simp only [hbad, Bool.false_eq_true, if_false]

/-! ## Both loops -/

/-- The slots of the page at `list` that the loop may still need are in the buffer. -/
def Buffered (p : HostPage) (mem : Mem) (list i len : Nat) (w : PrpWalk) : Prop :=
  ∀ j, i ≤ j → j < i + p.pages len → j < p.maxPrpEntries → w.slot j = listSlots mem list j

/-- The loop over the fetched pages and the loop over the host memory, for a descriptor that
has room, do the same. -/
theorem decode_list_eq
    (h : S4Sim.decode_list p.hostPageBits mem n list i len dma = some (dma', ok))
    (hops : w.ops = dma.ops) (hfits : len + p.hostMemPageSize ≤ 2 ^ 32)
    (hi : len ≠ 0 → i < p.maxPrpEntries) (hslots : Buffered p mem list i len w) :
    (w.decode_list p mem i len).2 = ok ∧ (w.decode_list p mem i len).1.ops = dma'.ops := by
  induction n generalizing list i len dma w with
  | zero => cases h
  | succ n ih =>
    have hmax := p.maxPrpEntries_eq
    have hsize := p.hostMemPageSize_ge
    have hbytes : len ≤ p.pages len * p.hostMemPageSize :=
      HostPage.pages_le_iff.mp (Nat.le_refl _)
    by_cases hlen : len = 0
    · rw [S4Sim.decode_list, if_pos hlen] at h
      cases h
      subst hlen
      rw [decode_list_done]
      exact ⟨rfl, hops⟩
    have hpages : 0 < p.pages len := by
      by_contra hnot
      rw [Nat.le_zero.mp (Nat.le_of_not_lt hnot)] at hbytes
      omega
    -- A turn for an entry that points to data, in both loops.
    have hturn : ∀ {list i : Nat} {w : PrpWalk}, ¬ Chained p i len → i < p.maxPrpEntries →
        w.ops = dma.ops → Buffered p mem list i len w →
        S4Sim.decode_list p.hostPageBits mem (n + 1) list i len dma = some (dma', ok) →
        (w.decode_list p mem i len).2 = ok ∧ (w.decode_list p mem i len).1.ops = dma'.ops := by
      intro list i w hdata hi hops hslots h
      rw [dma_turn_data hlen hdata] at h
      rw [decode_list_data hlen hdata, hslots i (Nat.le_refl _) (by omega) hi]
      by_cases hbad : badEntry p.hostPageBits (listSlots mem list i) = true
      · rw [if_pos hbad] at h
        cases h
        rw [if_pos hbad]
        exact ⟨rfl, hops⟩
      · rw [if_neg hbad] at h
        rw [if_neg hbad]
        obtain ⟨dma1, hadd, hrest⟩ := Option.bind_eq_some_iff.mp h
        have hleft : p.pages (len - min len p.hostMemPageSize) ≤ p.pages len - 1 := by
          rw [HostPage.pages_le_iff, Nat.sub_mul]
          omega
        apply ih hrest
        · rw [(add_dma_entry_cases hadd).1, ← hops]
          rfl
        · exact Nat.le_trans (Nat.add_le_add_right (Nat.sub_le _ _) _) hfits
        · intro hmore
          by_contra hend
          exact hdata ⟨by omega, by omega⟩
        · intro j hj hlt hjmax
          exact hslots j (by omega) (by omega) hjmax
    by_cases hchained : Chained p i len
    · have hzero : ¬ Chained p 0 len := by
        rintro ⟨hlast, -⟩
        have hge := p.lastSlot_ge
        omega
      rw [dma_turn_chained hchained] at h
      rw [decode_list_chained hchained, hslots i (Nat.le_refl _) (by omega) (hi hlen)]
      by_cases hbad : badEntry p.hostPageBits (listSlots mem list i) = true
      · rw [if_pos hbad] at h
        cases h
        rw [if_pos hbad]
        exact ⟨rfl, hops⟩
      · rw [if_neg hbad] at h
        rw [if_neg hbad]
        apply hturn hzero (by omega) ((get_prp_page_ops w).trans hops) _ h
        intro j _ hlt hjmax
        rw [Nat.zero_add] at hlt
        exact slot_fetched hfits hlt hjmax
    · exact hturn hchained (hi hlen) hops hslots h

/-- When the sum does not wrap around, a descriptor with room gets the segments of the walk,
and the results are the same. -/
theorem decode_prp_eq (hprp1 : t.prp1 ≠ 0) (hdma : dma.data_size = t.data_size)
    (hfits : t.UsesList p → t.rest p + p.hostMemPageSize ≤ 2 ^ 32)
    (h : S4Sim.decode_prp p.hostPageBits mem t.prp1 t.prp2 dma = some (dma', ok)) :
    (w.decode_prp p mem t).2 = ok ∧ (w.decode_prp p mem t).1.ops = dma'.ops := by
  have hstart : ({ w with ops := [] } : PrpWalk).add_dma_entry t.prp1
      (min t.data_size (p.hostMemPageSize - t.prp1 % p.hostMemPageSize)) = w.started p t := rfl
  have hlen : t.data_size - min t.data_size (p.hostMemPageSize - t.prp1 % p.hostMemPageSize) =
      t.rest p := rfl
  have hpage : 2 ^ p.hostPageBits = p.hostMemPageSize := rfl
  unfold S4Sim.decode_prp at h
  unfold decode_prp
  rw [if_neg hprp1] at h
  rw [if_neg hprp1]
  simp only [hdma, hpage, hlen] at h
  simp only [hstart, hlen]
  obtain ⟨dma1, hadd, hrest⟩ := Option.bind_eq_some_iff.mp h
  have hops : (w.started p t).ops = dma1.ops := (add_dma_entry_cases hadd).1.symm
  by_cases hnone : t.rest p = 0
  · rw [if_pos hnone] at hrest ⊢
    cases hrest
    exact ⟨rfl, hops⟩
  rw [if_neg hnone] at hrest ⊢
  by_cases hprp2 : t.prp2 = 0
  · rw [if_pos hprp2] at hrest ⊢
    cases hrest
    exact ⟨rfl, hops⟩
  rw [if_neg hprp2] at hrest ⊢
  by_cases hlist : t.rest p > p.hostMemPageSize
  · rw [if_pos hlist] at hrest ⊢
    have hmax := p.maxPrpEntries_eq
    apply decode_list_eq hrest ((get_prp_page_ops _).trans hops) (hfits hlist)
    · intro _
      omega
    · intro j _ hlt hjmax
      rw [Nat.zero_add] at hlt
      exact slot_fetched (hfits hlist) hlt hjmax
  · rw [if_neg hlist] at hrest ⊢
    split at hrest
    · rename_i halign
      cases hrest
      rw [if_pos halign]
      exact ⟨rfl, hops⟩
    · rename_i halign
      obtain ⟨dma2, hadd2, he⟩ := Option.map_eq_some_iff.mp hrest
      cases he
      rw [if_neg halign, add_dma_entry, hops, (add_dma_entry_cases hadd2).1]
      exact ⟨rfl, rfl⟩

/-! ## Good pointers -/

/-- One turn decodes one page. -/
theorem pages_turn : p.pages (len - min len p.hostMemPageSize) = p.pages len - 1 := by
  rcases Nat.le_total p.hostMemPageSize len with hle | hle
  · have hsub := HostPage.pages_sub (p := p) (k := 1) (Nat.one_mul p.hostMemPageSize ▸ hle)
    rwa [Nat.one_mul, ← Nat.min_eq_right hle] at hsub
  · have hone : p.pages len ≤ 1 := HostPage.pages_le_iff.mpr (by omega)
    have hnone : p.pages (len - min len p.hostMemPageSize) ≤ 0 :=
      HostPage.pages_le_iff.mpr (by omega)
    omega

theorem pages_pos (h : len ≠ 0) : 0 < p.pages len := by
  by_contra hnot
  have hle := HostPage.pages_le_iff.mp (Nat.le_of_not_lt hnot)
  omega

/-- The first pointers of a good list are good. -/
theorem good_slot {slots : Nat → Nat} {j : Nat} (h : (prpPointers p mem slots n).Good p)
    (hj : j < n) (hfew : j < MDTS_PAGES) : p.Good (slots j) := by
  have hlast := p.lastSlot_ge
  unfold MDTS_PAGES at hfew
  rcases Nat.lt_or_ge p.maxPrpEntries n with hlt | hle
  · rw [prpPointers_of_lt hlt] at h
    apply h.1
    apply List.mem_append_left
    exact List.mem_map_of_mem (List.mem_range.mpr (by omega))
  · rw [prpPointers_of_le hle] at h
    apply h.1
    exact List.mem_map_of_mem (List.mem_range.mpr hj)

/-- The loop over a list of good pointers fills the descriptor, or runs out of room. -/
theorem dma_list_of_good (list : Nat) (dma : Dma) (hn : MDTS_PAGES + 2 ≤ n + dma.n_ops)
    (hroom : dma.n_ops ≤ MDTS_PAGES)
    (hi : i < dma.n_ops)
    (hgood : ∀ j < p.pages len, i + j < MDTS_PAGES → p.Good (listSlots mem list (i + j))) :
    (dma.n_ops + p.pages len ≤ MDTS_PAGES → ∃ dma',
      S4Sim.decode_list p.hostPageBits mem n list i len dma = some (dma', true) ∧
        dma'.ops = dma.ops ++ dataSegments p.hostMemPageSize
          ((List.range' i (p.pages len)).map (listSlots mem list)) len) ∧
    (MDTS_PAGES < dma.n_ops + p.pages len →
      S4Sim.decode_list p.hostPageBits mem n list i len dma = none) := by
  induction n generalizing i len dma with
  | zero => omega
  | succ n ih =>
    by_cases hlen : len = 0
    · have hpages : p.pages len ≤ 0 := HostPage.pages_le_iff.mpr (by omega)
      rw [Nat.le_zero.mp hpages]
      constructor
      · intro _
        refine ⟨dma, ?_, ?_⟩
        · rw [S4Sim.decode_list, if_pos hlen]
        · simp [dataSegments]
      · intro hfull
        omega
    have hpages := pages_pos (p := p) hlen
    have hdata : ¬ Chained p i len := by
      rintro ⟨hslot, -⟩
      have hlast := p.lastSlot_ge
      unfold MDTS_PAGES at hroom
      omega
    have hslot : ¬ badEntry p.hostPageBits (listSlots mem list i) = true := by
      rw [HostPage.badEntry_iff, not_not]
      exact hgood 0 hpages (by omega)
    rw [dma_turn_data hlen hdata, if_neg hslot]
    cases hadd : dma.add_dma_entry (listSlots mem list i) (min len p.hostMemPageSize) with
    | none =>
      have hfull : ¬ dma.n_ops < MDTS_PAGES := by
        intro hlt
        simp [Dma.add_dma_entry, hlt] at hadd
      constructor
      · intro hfits
        omega
      · intro _
        rfl
    | some dma1 =>
      obtain ⟨hops, hcount, -⟩ := add_dma_entry_cases hadd
      have hlt : dma.n_ops < MDTS_PAGES := by
        by_contra hnot
        simp [Dma.add_dma_entry, hnot] at hadd
      have hgood' : ∀ j < p.pages (len - min len p.hostMemPageSize), i + 1 + j < MDTS_PAGES →
          p.Good (listSlots mem list (i + 1 + j)) := by
        intro j hj hfew
        have hnext : i + 1 + j = i + (j + 1) := by omega
        rw [pages_turn] at hj
        rw [hnext]
        exact hgood (j + 1) (by omega) (by omega)
      have hturn := ih dma1 (by omega) (by omega) (by omega) hgood'
      rw [pages_turn, hcount] at hturn
      rw [Option.bind_some]
      constructor
      · intro hfits
        obtain ⟨dma', hr, hops'⟩ := hturn.1 (by omega)
        refine ⟨dma', hr, ?_⟩
        have hrange : List.range' i (p.pages len) =
            i :: List.range' (i + 1) (p.pages len - 1) := by
          rw [← List.range'_succ, Nat.sub_add_cancel hpages]
        rw [hops', hops, hrange, List.map_cons, dataSegments, List.append_assoc,
          List.singleton_append]
      · intro hfull
        exact hturn.2 (by omega)

/-- A descriptor with room gets the segments of a transfer whose pointers are good. Else an
entry is written outside the array. -/
theorem dma_of_good (dma : Dma) (hprp1 : t.prp1 ≠ 0) (hdma : dma.data_size = t.data_size)
    (hgood : (t.pointers p mem).Good p) :
    ((t.segments p mem).length ≤ MDTS_PAGES → ∃ dma',
      S4Sim.decode_prp p.hostPageBits mem t.prp1 t.prp2 dma = some (dma', true) ∧
        dma'.ops = t.segments p mem) ∧
    (MDTS_PAGES < (t.segments p mem).length →
      S4Sim.decode_prp p.hostPageBits mem t.prp1 t.prp2 dma = none) := by
  have hlen : t.data_size - min t.data_size (p.hostMemPageSize - t.prp1 % p.hostMemPageSize) =
      t.rest p := rfl
  have hpage : 2 ^ p.hostPageBits = p.hostMemPageSize := rfl
  have hroom : (0 : Nat) < MDTS_PAGES := by decide
  unfold S4Sim.decode_prp
  rw [if_neg hprp1]
  simp only [hdma, hpage, hlen]
  obtain ⟨dma1, hadd⟩ : ∃ dma1, (⟨t.data_size, 0, dma.list⟩ : Dma).add_dma_entry t.prp1
      (min t.data_size (p.hostMemPageSize - t.prp1 % p.hostMemPageSize)) = some dma1 := by
    simp [Dma.add_dma_entry, hroom]
  obtain ⟨hops, hcount, -⟩ := add_dma_entry_cases hadd
  have hops : dma1.ops = [⟨t.prp1, t.firstLen p⟩] := hops
  have hcount : dma1.n_ops = 1 := hcount
  rw [hadd, Option.bind_some]
  unfold PrpTransfer.segments
  rw [List.length_cons, dataSegments_length]
  unfold PrpTransfer.pointers PrpTransfer.pointersFrom at hgood ⊢
  by_cases hnone : t.rest p = 0
  · rw [if_pos hnone] at hgood ⊢
    rw [if_pos hnone]
    refine ⟨fun _ => ⟨dma1, rfl, hops⟩, fun hfull => ?_⟩
    simp only [List.length_nil] at hfull
    omega
  rw [if_neg hnone] at hgood ⊢
  rw [if_neg hnone]
  by_cases hlist : t.UsesList p
  · rw [if_pos hlist] at hgood ⊢
    have hprp2 : t.prp2 ≠ 0 := (hgood.2 t.prp2 List.mem_cons_self).1
    have hlist' : t.rest p > p.hostMemPageSize := hlist
    rw [if_neg hprp2, if_pos hlist']
    have hpointers : (prpPointers p mem (listSlots mem t.prp2) (p.pages (t.rest p))).Good p :=
      ⟨hgood.1, fun a ha => hgood.2 a (List.mem_cons_of_mem _ ha)⟩
    have hslots : ∀ j < p.pages (t.rest p), 0 + j < MDTS_PAGES →
        p.Good (listSlots mem t.prp2 (0 + j)) := by
      intro j hj hfew
      rw [Nat.zero_add] at hfew ⊢
      exact good_slot hpointers hj hfew
    have hloop := dma_list_of_good (n := MDTS_PAGES + 1) t.prp2 dma1 (by omega) (by omega)
      (Nat.zero_lt_of_ne_zero (by omega)) hslots
    rw [hcount, hops, ← List.range_eq_range', List.singleton_append, Nat.add_comm 1] at hloop
    simp only [prpPointers_length]
    refine ⟨fun hfits => ?_, hloop.2⟩
    have hmax := p.maxPrpEntries_eq
    have hlast := p.lastSlot_ge
    have hfew : p.pages (t.rest p) ≤ p.maxPrpEntries := by
      unfold MDTS_PAGES at hfits
      omega
    rw [prpPointers_of_le hfew]
    exact hloop.1 hfits
  · rw [if_neg hlist] at hgood ⊢
    have hshort : ¬ t.rest p > p.hostMemPageSize := hlist
    obtain ⟨hprp2, halign⟩ := hgood.1 t.prp2 List.mem_cons_self
    rw [if_neg hprp2, if_neg hshort, if_neg (not_not.mpr halign)]
    have hone : dma1.n_ops < MDTS_PAGES := by
      rw [hcount]
      decide
    obtain ⟨dma2, hadd2⟩ : ∃ dma2, dma1.add_dma_entry t.prp2 (t.rest p) = some dma2 := by
      simp [Dma.add_dma_entry, hone]
    rw [hadd2]
    refine ⟨fun _ => ⟨dma2, rfl, ?_⟩, fun hfull => ?_⟩
    · have hmin : min (t.rest p) p.hostMemPageSize = t.rest p := by omega
      rw [(add_dma_entry_cases hadd2).1, hops, dataSegments, dataSegments, hmin,
        List.singleton_append]
    · unfold MDTS_PAGES at hfull
      simp only [List.length_singleton] at hfull
      omega

end PrpWalk

end S4Sim
