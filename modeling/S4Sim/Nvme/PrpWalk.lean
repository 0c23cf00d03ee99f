-- The decoder of PRP fields with its buffer, from nvme_driver.c. Each page of a list
-- is fetched into `prp_list`. Behind the bytes of a fetch the buffer keeps what an
-- earlier command left there. The number of bytes comes from a sum in 32 bits: when
-- that wraps around, nothing is fetched, and the old entries are decoded.
import S4Sim.Lib.Window
import S4Sim.Nvme.PrpReference

open Windows

namespace S4Sim

/-! ## The decoder -/

/-- What the decoder works on: the segments, the RAM from `prp_list` on, and the
lengths of the fetches into it. The list of segments is as long as it has to be. -/
structure PrpWalk where
  ops : List DmaOp
  prp_list : Mem
  fetches : List Nat

namespace PrpWalk

section Decoder

variable (p : HostPage) (mem : Mem) (w : PrpWalk)

/-- `prp_list[i]` -/
def slot (i : Nat) : Nat := readU64 w.prp_list (8 * i)

def get_prp_page (host_p_addr len : Nat) : PrpWalk :=
  { w with prp_list := writeWindow w.prp_list 0 len fun i => mem (host_p_addr + i),
           fetches := w.fetches ++ [len] }

def add_dma_entry (host_p_addr len : Nat) : PrpWalk :=
  { w with ops := w.ops ++ [⟨host_p_addr, len⟩] }

def nents (len : Nat) : Nat := (len + p.hostMemPageSize - 1) % 2 ^ 32 / p.hostMemPageSize

def prp_trans (len : Nat) : Nat := min p.maxPrpEntries (nents p len) * 8

/-- The entry is the last one of its page, and more than one page of data is left. -/
def Chained (i len : Nat) : Prop := i = p.lastSlot ∧ p.hostMemPageSize < len

instance {i len : Nat} : Decidable (Chained p i len) := by
  unfold Chained
  infer_instance

/-- The next page of the list, where the entry is a pointer to it. -/
def followChain (i len : Nat) : Nat × PrpWalk :=
  if Chained p i len then (0, w.get_prp_page mem (w.slot i) (prp_trans p len)) else (i, w)

/-- The loop of `decode_prp`. The result is true where `decode_prp` returns 0. -/
def decode_list (i len : Nat) (w : PrpWalk) : PrpWalk × Bool :=
  if len = 0 then (w, true)
  else if Chained p i len ∧ badEntry p.hostPageBits (w.slot i) = true then (w, false)
  else
    let next := w.followChain p mem i len
    let prp_ent := next.2.slot next.1
    if badEntry p.hostPageBits prp_ent then (next.2, false)
    else
      let trans_len := min len p.hostMemPageSize
      decode_list (next.1 + 1) (len - trans_len) (next.2.add_dma_entry prp_ent trans_len)
termination_by len
decreasing_by
  have hsize := p.hostMemPageSize_ge
  omega

def decode_prp (t : PrpTransfer) : PrpWalk × Bool :=
  if t.prp1 = 0 then (w, false)
  else
    let trans_len := min t.data_size (p.hostMemPageSize - t.prp1 % p.hostMemPageSize)
    let len := t.data_size - trans_len
    let w := { w with ops := [] }.add_dma_entry t.prp1 trans_len
    if len = 0 then (w, true)
    else if t.prp2 = 0 then (w, false)
    else if len > p.hostMemPageSize then
      (w.get_prp_page mem t.prp2 (prp_trans p len)).decode_list p mem 0 len
    else if t.prp2 % p.hostMemPageSize ≠ 0 then (w, false)
    else (w.add_dma_entry t.prp2 len, true)

end Decoder

variable {p : HostPage} {mem : Mem} {w w' : PrpWalk} {i k len addr : Nat}

/-! ## The buffer -/

theorem get_prp_page_ops (w : PrpWalk) : (w.get_prp_page mem addr len).ops = w.ops := rfl

theorem readU64_congr {mem' : Mem} {a b : Nat} (h : ∀ i < 8, mem (a + i) = mem' (b + i)) :
    readU64 mem a = readU64 mem' b := by
  unfold readU64
  apply List.foldr_ext
  intro i hi n
  rw [h i (List.mem_range.mp hi)]

/-- The entries that a fetch brings are those of the page in the host memory. -/
theorem slot_get_prp_page (h : 8 * i + 8 ≤ len) :
    (w.get_prp_page mem addr len).slot i = listSlots mem addr i := by
  apply readU64_congr
  intro j hj
  simp only [get_prp_page, writeWindow]
  rw [if_pos (by omega), Nat.sub_zero, Nat.add_assoc]

/-- The entries behind a fetch are those that were there. -/
theorem slot_get_prp_page_behind (h : len ≤ 8 * i) :
    (w.get_prp_page mem addr len).slot i = w.slot i := by
  apply readU64_congr
  intro j _
  simp only [get_prp_page, writeWindow]
  rw [if_neg (by omega)]

/-- The number of pages, without the wrap of the sum. -/
theorem nents_eq (h : len + p.hostMemPageSize ≤ 2 ^ 32) : nents p len = p.pages len := by
  have hsize := p.hostMemPageSize_ge
  unfold nents HostPage.pages
  rw [Nat.mod_eq_of_lt (by omega)]

/-- When the sum wraps around, nothing is fetched. -/
theorem prp_trans_eq_zero (hlen : len < 2 ^ 32) (h : 2 ^ 32 < len + p.hostMemPageSize) :
    prp_trans p len = 0 := by
  have hsum : (len + p.hostMemPageSize - 1) % 2 ^ 32 < p.hostMemPageSize := by omega
  unfold prp_trans nents
  rw [Nat.div_eq_of_lt hsum, Nat.min_zero, Nat.zero_mul]

/-! ## The turns of the loop -/

theorem decode_list_done : w.decode_list p mem i 0 = (w, true) := by
  rw [decode_list, if_pos rfl]

/-- A turn for an entry that points to data. -/
theorem decode_list_data (hlen : len ≠ 0) (h : ¬ Chained p i len) :
    w.decode_list p mem i len =
      if badEntry p.hostPageBits (w.slot i) then (w, false)
      else (w.add_dma_entry (w.slot i) (min len p.hostMemPageSize)).decode_list p mem (i + 1)
        (len - min len p.hostMemPageSize) := by
  rw [decode_list, if_neg hlen, if_neg (fun hbad => h hbad.1)]
  simp only [followChain, if_neg h]

/-- A turn for an entry that points to the next page of the list is one for its first entry. -/
theorem decode_list_chained (h : Chained p i len) :
    w.decode_list p mem i len =
      if badEntry p.hostPageBits (w.slot i) then (w, false)
      else (w.get_prp_page mem (w.slot i) (prp_trans p len)).decode_list p mem 0 len := by
  have hlen : len ≠ 0 := Nat.ne_of_gt (Nat.zero_lt_of_lt h.2)
  have hzero : ¬ Chained p 0 len := by
    rintro ⟨hslot, -⟩
    have hlast := p.lastSlot_ge
    omega
  rw [decode_list_data hlen hzero, decode_list, if_neg hlen]
  by_cases hbad : badEntry p.hostPageBits (w.slot i) = true
  · rw [if_pos ⟨h, hbad⟩, if_pos hbad]
  · rw [if_neg (fun hboth => hbad hboth.2), if_neg hbad]
    simp only [followChain, if_pos h]

theorem good_of_not_bad {a : Nat} (h : ¬ badEntry p.hostPageBits a = true) : p.Good a := by
  by_contra hnot
  exact h (HostPage.badEntry_iff.mpr hnot)

/-- The walk after one turn for each of these pointers to data. -/
def addSegments (p : HostPage) (w : PrpWalk) (l : List Nat) (len : Nat) : PrpWalk :=
  { w with ops := w.ops ++ dataSegments p.hostMemPageSize l len }

theorem addSegments_nil : w.addSegments p [] len = w := by
  simp [addSegments, dataSegments]

theorem addSegments_cons {a : Nat} {l : List Nat} :
    (w.add_dma_entry a (min len p.hostMemPageSize)).addSegments p l
      (len - min len p.hostMemPageSize) = w.addSegments p (a :: l) len := by
  simp [addSegments, add_dma_entry, dataSegments]

/-- `k` turns for entries that point to data: they stop at a bad one, or the loop goes on
behind them. -/
theorem decode_list_turns (mem : Mem) (hmore : ∀ j < k, j * p.hostMemPageSize < len)
    (hdata : ∀ j < k, ¬ Chained p (i + j) (len - j * p.hostMemPageSize)) :
    (∃ j < k, ¬ p.Good (w.slot (i + j)) ∧ w.decode_list p mem i len =
      (w.addSegments p ((List.range' i j).map w.slot) len, false)) ∨
    ((∀ j < k, p.Good (w.slot (i + j))) ∧ w.decode_list p mem i len =
      (w.addSegments p ((List.range' i k).map w.slot) len).decode_list p mem (i + k)
        (len - k * p.hostMemPageSize)) := by
  induction k generalizing i len w with
  | zero =>
    right
    refine ⟨fun j hj => absurd hj (Nat.not_lt_zero j), ?_⟩
    rw [List.range'_zero, List.map_nil, addSegments_nil, Nat.zero_mul, Nat.add_zero, Nat.sub_zero]
  | succ k ih =>
    have hlen : len ≠ 0 := by
      have hpos := hmore 0 (Nat.succ_pos k)
      omega
    have hfirst : ¬ Chained p i len := by simpa using hdata 0 (Nat.succ_pos k)
    rw [decode_list_data hlen hfirst]
    split
    · rename_i hbad
      left
      refine ⟨0, Nat.succ_pos k, HostPage.badEntry_iff.mp hbad, ?_⟩
      rw [List.range'_zero, List.map_nil, addSegments_nil]
    · rename_i hgood
      have hrest : ∀ j, len - min len p.hostMemPageSize - j * p.hostMemPageSize =
          len - (j + 1) * p.hostMemPageSize := by
        intro j
        rw [Nat.succ_mul]
        omega
      have hnext : ∀ j, i + 1 + j = i + (j + 1) := fun j => by omega
      have hslots : ∀ j, w.addSegments p (w.slot i :: (List.range' (i + 1) j).map w.slot) len =
          w.addSegments p ((List.range' i (j + 1)).map w.slot) len := fun j => rfl
      have hmore' : ∀ j < k, j * p.hostMemPageSize < len - min len p.hostMemPageSize := by
        intro j hj
        have hturn := hmore (j + 1) (by omega)
        rw [Nat.succ_mul] at hturn
        omega
      have hdata' : ∀ j < k, ¬ Chained p (i + 1 + j)
          (len - min len p.hostMemPageSize - j * p.hostMemPageSize) := by
        intro j hj
        rw [hrest, hnext]
        exact hdata (j + 1) (by omega)
      rcases ih (w := w.add_dma_entry (w.slot i) (min len p.hostMemPageSize)) hmore' hdata' with
        ⟨j, hj, hbad, hr⟩ | ⟨hall, hr⟩
      · left
        refine ⟨j + 1, by omega, ?_, ?_⟩
        · rw [← hnext]
          exact hbad
        · rw [hr, addSegments_cons]
          exact congrArg (fun w' => (w', false)) (hslots j)
      · right
        constructor
        · intro j hj
          rcases j with _ | j
          · exact good_of_not_bad hgood
          · rw [← hnext]
            exact hall j (by omega)
        · rw [hr, hrest, hnext, addSegments_cons]
          exact congrArg _ (hslots k)

/-! ## The loop and the pointers of the list -/

variable {r : PrpWalk × Bool} {ps : PrpPointers} {data lists : List Nat} {a : Nat}

/-- The result of the loop is the one for these pointers. -/
structure Decodes (p : HostPage) (w : PrpWalk) (ps : PrpPointers) (len : Nat)
    (r : PrpWalk × Bool) : Prop where
  ok : r.2 = true ↔ ps.Good p
  ops : ps.Good p → r.1.ops = w.ops ++ dataSegments p.hostMemPageSize ps.data len

theorem decodes_done : Decodes p w ⟨[], []⟩ len (w, true) := by
  constructor
  · simp [PrpPointers.Good]
  · simp [dataSegments]

theorem decodes_bad (hmem : a ∈ ps.data ∨ a ∈ ps.lists) (hbad : ¬ p.Good a) :
    Decodes p w ps len (w', false) := by
  have hnot : ¬ ps.Good p := by
    rintro ⟨hdata, hlists⟩
    apply hbad
    rcases hmem with hmem | hmem
    · exact hdata a hmem
    · exact hlists a hmem
  constructor
  · constructor
    · intro h
      cases h
    · intro h
      exact absurd h hnot
  · intro h
    exact absurd h hnot

/-- Some more pointers to data in front. -/
theorem Decodes.append {l : List Nat} (hgood : ∀ a ∈ l, p.Good a)
    (h : Decodes p (w.addSegments p l len) ⟨data, lists⟩ (len - l.length * p.hostMemPageSize) r) :
    Decodes p w ⟨l ++ data, lists⟩ len r := by
  have hiff : (⟨l ++ data, lists⟩ : PrpPointers).Good p ↔ PrpPointers.Good p ⟨data, lists⟩ := by
    simp only [PrpPointers.Good, List.forall_mem_append]
    tauto
  constructor
  · exact h.ok.trans hiff.symm
  · intro hps
    rw [h.ops (hiff.mp hps), addSegments, List.append_assoc, dataSegments_append]

/-- One more page of the list in front. -/
theorem Decodes.next_list (hgood : p.Good a) (hw : w'.ops = w.ops)
    (h : Decodes p w' ps len r) : Decodes p w ⟨ps.data, a :: ps.lists⟩ len r := by
  have hiff : (⟨ps.data, a :: ps.lists⟩ : PrpPointers).Good p ↔ ps.Good p := by
    simp only [PrpPointers.Good, List.forall_mem_cons, hgood, true_and]
  constructor
  · exact h.ok.trans hiff.symm
  · intro hps
    rw [h.ops (hiff.mp hps), hw]

/-- `k` turns for entries that point to data, and then the rest of the loop. -/
theorem decodes_slots (hmore : ∀ j < k, j * p.hostMemPageSize < len)
    (hdata : ∀ j < k, ¬ Chained p (i + j) (len - j * p.hostMemPageSize))
    (hrest : ∀ w' : PrpWalk, w'.prp_list = w.prp_list →
      Decodes p w' ⟨data, lists⟩ (len - k * p.hostMemPageSize)
        (w'.decode_list p mem (i + k) (len - k * p.hostMemPageSize))) :
    Decodes p w ⟨(List.range' i k).map w.slot ++ data, lists⟩ len
      (w.decode_list p mem i len) := by
  rcases decode_list_turns (w := w) mem hmore hdata with ⟨j, hj, hbad, hr⟩ | ⟨hgood, hr⟩
  · rw [hr]
    have hmem : i + j ∈ List.range' i k := by
      rw [List.mem_range'_1]
      omega
    exact decodes_bad (Or.inl (List.mem_append_left _ (List.mem_map_of_mem hmem))) hbad
  · rw [hr]
    apply Decodes.append
    · intro a ha
      obtain ⟨j, hj, rfl⟩ := List.mem_map.mp ha
      rw [List.mem_range'_1] at hj
      have hslot := hgood (j - i) (by omega)
      rwa [Nat.add_sub_cancel' hj.1] at hslot
    · rw [List.length_map, List.length_range']
      exact hrest _ rfl

/-- A fetch brings all entries of the page that the list needs. -/
theorem slot_fetched (h : len + p.hostMemPageSize ≤ 2 ^ 32) (hi : i < p.pages len)
    (hmax : i < p.maxPrpEntries) :
    (w.get_prp_page mem a (prp_trans p len)).slot i = listSlots mem a i := by
  apply slot_get_prp_page
  unfold prp_trans
  rw [nents_eq h]
  omega

/-- The loop from the first entry on decodes the list whose first page is in the buffer. -/
theorem decode_list_decodes (hpos : 0 < len) (hlen : len < 2 ^ 32) :
    Decodes p w (prpPointers p mem w.slot (p.pages len)) len (w.decode_list p mem 0 len) := by
  induction len using Nat.strong_induction_on generalizing w with
  | _ len ih =>
    have hsize := p.hostMemPageSize_ge
    have hlast := p.lastSlot_ge
    have hmax := p.maxPrpEntries_eq
    rcases Nat.lt_or_ge p.maxPrpEntries (p.pages len) with hlt | hle
    · -- More pages than slots: `lastSlot` of them, and then the pointer to the next page.
      have hbytes : (p.lastSlot + 1) * p.hostMemPageSize < len := by
        rw [hmax] at hlt
        by_contra hnot
        have hle := HostPage.pages_le_iff.mpr (Nat.le_of_not_lt hnot)
        omega
      rw [Nat.succ_mul] at hbytes
      rw [prpPointers_of_lt hlt, List.range_eq_range']
      apply decodes_slots
      · intro j hj
        have hmono := Nat.mul_le_mul_right p.hostMemPageSize (Nat.le_of_lt hj)
        omega
      · rintro j hj ⟨hslot, -⟩
        omega
      · intro w' hw'
        have hone := Nat.mul_le_mul_right p.hostMemPageSize (Nat.le_of_lt hlast)
        have hchained : Chained p (0 + p.lastSlot) (len - p.lastSlot * p.hostMemPageSize) :=
          ⟨Nat.zero_add _, by omega⟩
        have hslot : w'.slot (0 + p.lastSlot) = w.slot p.lastSlot := by
          unfold slot
          rw [hw', Nat.zero_add]
        rw [decode_list_chained hchained, hslot]
        split
        · rename_i hbad
          exact decodes_bad (Or.inr List.mem_cons_self) (HostPage.badEntry_iff.mp hbad)
        · rename_i hgood
          apply Decodes.next_list (good_of_not_bad hgood) (get_prp_page_ops _)
          have hfits : len - p.lastSlot * p.hostMemPageSize + p.hostMemPageSize ≤ 2 ^ 32 := by omega
          rw [← HostPage.pages_sub (by omega),
            ← prpPointers_congr fun i hi hmax => slot_fetched (w := w') hfits hi hmax]
          exact ih _ (by omega) (by omega) (by omega)
    · have hbytes := HostPage.pages_le_iff.mp hle
      rw [hmax, Nat.succ_mul] at hbytes
      rw [prpPointers_of_le hle, List.range_eq_range', ← List.append_nil (List.map _ _)]
      apply decodes_slots
      · intro j hj
        by_contra hnot
        have hle := HostPage.pages_le_iff.mpr (Nat.le_of_not_lt hnot)
        omega
      · rintro j hj ⟨hslot, hmore⟩
        rw [Nat.zero_add] at hslot
        subst hslot
        omega
      · intro w' _
        have hdone : len - p.pages len * p.hostMemPageSize = 0 :=
          Nat.sub_eq_zero_of_le (HostPage.pages_le_iff.mp (Nat.le_refl _))
        rw [hdone, decode_list_done]
        exact decodes_done

/-! ## The decoder and the pointers of the transfer -/

variable {t : PrpTransfer}

/-- The entries of the first page of the list, as the decoder finds them: those of the host,
or, when the sum wraps around, those of an earlier command. -/
def seenSlots (p : HostPage) (mem : Mem) (t : PrpTransfer) (w : PrpWalk) : Nat → Nat :=
  if t.rest p + p.hostMemPageSize ≤ 2 ^ 32 then listSlots mem t.prp2 else w.slot

/-- The walk after its first segment. -/
def started (p : HostPage) (t : PrpTransfer) (w : PrpWalk) : PrpWalk :=
  { w with ops := [⟨t.prp1, t.firstLen p⟩] }

theorem slot_seen (hsize : t.data_size < 2 ^ 32) (hi : i < p.pages (t.rest p))
    (hmax : i < p.maxPrpEntries) :
    ((w.started p t).get_prp_page mem t.prp2 (prp_trans p (t.rest p))).slot i =
      seenSlots p mem t w i := by
  unfold seenSlots
  split
  · rename_i hfits
    exact slot_fetched hfits hi hmax
  · have hrest : t.rest p < 2 ^ 32 := Nat.lt_of_le_of_lt (Nat.sub_le _ _) hsize
    rw [slot_get_prp_page_behind]
    · rfl
    · rw [prp_trans_eq_zero hrest (by omega)]
      exact Nat.zero_le _

/-- The decoder decodes the list that it sees. -/
theorem decode_prp_decodes (hprp1 : t.prp1 ≠ 0) (hsize : t.data_size < 2 ^ 32)
    (halign : t.UsesList p → t.prp2 % p.hostMemPageSize = 0) :
    Decodes p (w.started p t) (t.pointersFrom p mem (seenSlots p mem t w)) (t.rest p)
      (w.decode_prp p mem t) := by
  have hstart : ({ w with ops := [] } : PrpWalk).add_dma_entry t.prp1
      (min t.data_size (p.hostMemPageSize - t.prp1 % p.hostMemPageSize)) = w.started p t := rfl
  have hlen : t.data_size - min t.data_size (p.hostMemPageSize - t.prp1 % p.hostMemPageSize) =
      t.rest p := rfl
  unfold decode_prp PrpTransfer.pointersFrom
  rw [if_neg hprp1]
  simp only [hstart, hlen]
  by_cases hrest : t.rest p = 0
  · rw [if_pos hrest, if_pos hrest]
    exact decodes_done
  rw [if_neg hrest, if_neg hrest]
  by_cases hlist : t.UsesList p
  · rw [if_pos hlist, if_pos (show t.rest p > p.hostMemPageSize from hlist)]
    by_cases hprp2 : t.prp2 = 0
    · rw [if_pos hprp2]
      apply decodes_bad (Or.inr List.mem_cons_self)
      intro hgood
      exact hgood.1 hprp2
    · rw [if_neg hprp2]
      apply Decodes.next_list ⟨hprp2, halign hlist⟩ (get_prp_page_ops _)
      rw [← prpPointers_congr fun i hi hmax => slot_seen hsize hi hmax]
      exact decode_list_decodes (Nat.pos_of_ne_zero hrest)
        (Nat.lt_of_le_of_lt (Nat.sub_le _ _) hsize)
  · rw [if_neg hlist, if_neg (show ¬ t.rest p > p.hostMemPageSize from hlist)]
    by_cases hgood : p.Good t.prp2
    · rw [if_neg hgood.1, if_neg (fun hne => hne hgood.2)]
      unfold PrpTransfer.UsesList at hlist
      constructor
      · simp [PrpPointers.Good, hgood]
      · intro _
        rw [dataSegments, Nat.min_eq_left (Nat.le_of_not_lt hlist)]
        rfl
    · by_cases hprp2 : t.prp2 = 0
      · rw [if_pos hprp2]
        exact decodes_bad (Or.inl List.mem_cons_self) hgood
      · rw [if_neg hprp2, if_pos (fun hzero => hgood ⟨hprp2, hzero⟩)]
        exact decodes_bad (Or.inl List.mem_cons_self) hgood

/-- What `decode_prp` is for: it returns 0 exactly when the pointers are good ones, and then
it has the segments that they give. -/
structure AsDefined (p : HostPage) (mem : Mem) (t : PrpTransfer) (r : PrpWalk × Bool) : Prop where
  ok : r.2 = true ↔ (t.pointers p mem).Good p
  ops : (t.pointers p mem).Good p → r.1.ops = t.segments p mem
  bytes : (t.pointers p mem).Good p → opsBytes r.1.ops = t.data_size
  in_page : (t.pointers p mem).Good p → ∀ op ∈ r.1.ops, op.InPage p.hostMemPageSize

/-- Two lists mean the same: both have a bad pointer, or they have the same pointers to data. -/
def SameMeaning (p : HostPage) (ps ps' : PrpPointers) : Prop :=
  (ps.Good p ↔ ps'.Good p) ∧ (ps'.Good p → ps.data = ps'.data)

theorem SameMeaning.refl : SameMeaning p ps ps := ⟨Iff.rfl, fun _ => rfl⟩

/-- Two lists whose first page is at a bad address. -/
theorem sameMeaning_of_bad {ps' : PrpPointers} (hbad : ¬ p.Good a) :
    SameMeaning p ⟨ps.data, a :: ps.lists⟩ ⟨ps'.data, a :: ps'.lists⟩ := by
  have hnot : ∀ qs : PrpPointers, ¬ (⟨qs.data, a :: qs.lists⟩ : PrpPointers).Good p :=
    fun qs hgood => hbad (hgood.2 a List.mem_cons_self)
  exact ⟨iff_of_false (hnot ps) (hnot ps'), fun hgood => absurd hgood (hnot ps')⟩

/-- Two lists whose first page is at a good address. -/
theorem sameMeaning_of_good {ps' : PrpPointers} (hgood : p.Good a) :
    SameMeaning p ⟨ps.data, a :: ps.lists⟩ ⟨ps'.data, a :: ps'.lists⟩ ↔ SameMeaning p ps ps' := by
  have hiff : ∀ qs : PrpPointers,
      (⟨qs.data, a :: qs.lists⟩ : PrpPointers).Good p ↔ qs.Good p := by
    intro qs
    simp only [PrpPointers.Good, List.forall_mem_cons, hgood, true_and]
  unfold SameMeaning
  rw [hiff, hiff]

theorem asDefined_iff (h : Decodes p (w.started p t) ps (t.rest p) r) :
    AsDefined p mem t r ↔ SameMeaning p ps (t.pointers p mem) := by
  have hsame : (t.pointers p mem).Good p → (ps.Good p ↔ (t.pointers p mem).Good p) →
      (r.1.ops = t.segments p mem ↔ ps.data = (t.pointers p mem).data) := by
    intro hgood hiff
    rw [h.ops (hiff.mpr hgood), started, PrpTransfer.segments, List.singleton_append,
      List.cons.injEq]
    constructor
    · rintro ⟨-, hsegments⟩
      have haddrs := congrArg (List.map DmaOp.host_p_addr) hsegments
      rwa [dataSegments_addrs, dataSegments_addrs] at haddrs
    · intro hdata
      rw [hdata]
      exact ⟨rfl, rfl⟩
  constructor
  · intro hdef
    have hiff := h.ok.symm.trans hdef.ok
    exact ⟨hiff, fun hgood => (hsame hgood hiff).mp (hdef.ops hgood)⟩
  · rintro ⟨hiff, hdata⟩
    have hops : (t.pointers p mem).Good p → r.1.ops = t.segments p mem :=
      fun hgood => (hsame hgood hiff).mpr (hdata hgood)
    refine ⟨h.ok.trans hiff, hops, ?_, ?_⟩
    · intro hgood
      rw [hops hgood, PrpTransfer.opsBytes_segments]
    · intro hgood
      rw [hops hgood]
      exact PrpTransfer.segments_inPage hgood

/-- The decoder follows the definition exactly when it fetches the list, or the list that an
earlier command left in the buffer means the same. -/
theorem prps_are_decoded_as_defined_iff_the_list_is_fetched (hprp1 : t.prp1 ≠ 0)
    (hsize : t.data_size < 2 ^ 32) (halign : t.UsesList p → t.prp2 % p.hostMemPageSize = 0) :
    AsDefined p mem t (w.decode_prp p mem t) ↔
      ¬ t.UsesList p ∨ t.prp2 = 0 ∨ t.rest p + p.hostMemPageSize ≤ 2 ^ 32 ∨
        SameMeaning p (prpPointers p mem w.slot (p.pages (t.rest p)))
          (prpPointers p mem (listSlots mem t.prp2) (p.pages (t.rest p))) := by
  rw [asDefined_iff (decode_prp_decodes hprp1 hsize halign), PrpTransfer.pointers]
  by_cases hlist : t.UsesList p
  · rw [PrpTransfer.pointersFrom_of_list hlist, PrpTransfer.pointersFrom_of_list hlist]
    by_cases hprp2 : t.prp2 = 0
    · apply iff_of_true _ (Or.inr (Or.inl hprp2))
      exact sameMeaning_of_bad fun hgood => hgood.1 hprp2
    · rw [sameMeaning_of_good ⟨hprp2, halign hlist⟩]
      by_cases hfits : t.rest p + p.hostMemPageSize ≤ 2 ^ 32
      · apply iff_of_true _ (Or.inr (Or.inr (Or.inl hfits)))
        rw [seenSlots, if_pos hfits]
        exact .refl
      · rw [seenSlots, if_neg hfits]
        simp only [hlist, hprp2, hfits, not_true_eq_false, false_or]
  · apply iff_of_true _ (Or.inl hlist)
    rw [PrpTransfer.pointersFrom_of_no_list hlist]
    exact .refl

/-! ## A list that is fetched, and one that is not -/

/-- Host pages of 4096 bytes. -/
def page4096 : HostPage := ⟨12, Nat.le_refl _⟩

/-- A host memory in which every eight bytes hold the address 4096. -/
def pointersTo4096 : Mem := fun i => if i % 8 = 1 then 16 else 0

/-- The buffer before the first command. -/
def zeroedWalk : PrpWalk := ⟨[], fun _ => 0, []⟩

theorem prps_are_decoded_as_defined_for_ten_pages :
    AsDefined page4096 pointersTo4096 ⟨6144, 4096, 40960⟩
      (zeroedWalk.decode_prp page4096 pointersTo4096 ⟨6144, 4096, 40960⟩) := by
  have hsize : (⟨6144, 4096, 40960⟩ : PrpTransfer).data_size < 2 ^ 32 := by decide
  refine (prps_are_decoded_as_defined_iff_the_list_is_fetched (by decide) hsize
    (by decide)).mpr (Or.inr (Or.inr (Or.inl (by decide))))

theorem listSlots_pointersTo4096 : listSlots pointersTo4096 4096 = fun _ => 4096 := by
  funext i
  have hmod : ∀ j < 8, (4096 + 8 * i + j) % 8 = j := by
    intro j hj
    omega
  simp [listSlots, readU64, pointersTo4096, List.range_succ, hmod]

theorem good_4096 : page4096.Good 4096 := by
  unfold HostPage.Good
  decide

/-- Whatever the number of pages is, all pointers are 4096. -/
theorem good_pointersTo4096 (n : Nat) :
    (prpPointers page4096 pointersTo4096 (fun _ => 4096) n).Good page4096 := by
  induction n using Nat.strong_induction_on with
  | _ n ih =>
    have hlast := page4096.lastSlot_ge
    have hmax := page4096.maxPrpEntries_eq
    have hconst : ∀ k, ∀ a ∈ (List.range k).map fun _ => 4096, page4096.Good a := by
      intro k a ha
      rw [List.map_const', List.mem_replicate] at ha
      rw [ha.2]
      exact good_4096
    rcases Nat.lt_or_ge page4096.maxPrpEntries n with hlt | hle
    · have hnext := ih (n - page4096.lastSlot) (by omega)
      rw [prpPointers_of_lt hlt, listSlots_pointersTo4096]
      constructor
      · intro a ha
        rcases List.mem_append.mp ha with ha | ha
        · exact hconst _ a ha
        · exact hnext.1 a ha
      · intro a ha
        rcases List.mem_cons.mp ha with rfl | ha
        · exact good_4096
        · exact hnext.2 a ha
    · rw [prpPointers_of_le hle]
      exact ⟨hconst n, fun a ha => nomatch ha⟩

/-- The largest transfer, from the last byte of a page on. -/
def largestTransfer : PrpTransfer := ⟨8191, 4096, 2 ^ 32 - 1⟩

theorem the_list_of_the_largest_transfer_is_not_fetched :
    ¬ ∀ (p : HostPage) (mem : Mem) (w : PrpWalk) (t : PrpTransfer), t.prp1 ≠ 0 →
      0 < t.data_size → t.data_size < 2 ^ 32 →
        (t.UsesList p → t.prp2 % p.hostMemPageSize = 0) →
          AsDefined p mem t (w.decode_prp p mem t) := by
  intro hall
  have hsize : largestTransfer.data_size < 2 ^ 32 := by decide
  have halign : largestTransfer.UsesList page4096 →
      largestTransfer.prp2 % page4096.hostMemPageSize = 0 := by decide
  have hlist : largestTransfer.UsesList page4096 := by decide
  have hdef := hall page4096 pointersTo4096 zeroedWalk largestTransfer (by decide) (by decide)
    hsize halign
  have hmeaning := (asDefined_iff (decode_prp_decodes (by decide) hsize halign)).mp hdef
  rw [PrpTransfer.pointers, PrpTransfer.pointersFrom_of_list hlist,
    PrpTransfer.pointersFrom_of_list hlist, sameMeaning_of_good ⟨by decide, halign hlist⟩,
    seenSlots, if_neg (by decide)] at hmeaning
  have hlists : largestTransfer.prp2 = 4096 := rfl
  rw [hlists, listSlots_pointersTo4096] at hmeaning
  -- The host has good pointers only, and the first old entry is zero.
  have hold := hmeaning.1.mpr (good_pointersTo4096 _)
  rw [prpPointers_of_lt (by decide)] at hold
  apply (hold.1 (zeroedWalk.slot 0) ?_).1
  · decide
  · apply List.mem_append_left
    apply List.mem_map_of_mem
    rw [List.mem_range]
    decide

end PrpWalk

end S4Sim
