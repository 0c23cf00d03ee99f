-- PRP decoding, from nvme_driver.c: `decode_prp` fills the DMA descriptor of a
-- request object from the two PRP fields of its command. The descriptor keeps
-- what an earlier command left in it.
import S4Sim.Nvme.Types
import Mathlib.Logic.Function.Basic

namespace S4Sim

/-- Eight bytes of the host memory, least significant first. -/
def readU64 (mem : Mem) (addr : Nat) : Nat :=
  (List.range 8).foldr (fun i n => (mem (addr + i)).toNat + 256 * n) 0

namespace Dma

variable (dma : Dma)

/-- The segments that a transfer goes through. -/
def ops : List DmaOp := (List.range dma.n_ops).map dma.list

/-- `none`: the entry is outside the array `list`. -/
def add_dma_entry (host_p_addr len : Nat) : Option Dma :=
  if dma.n_ops < MDTS_PAGES then
    some { dma with list := Function.update dma.list dma.n_ops ⟨host_p_addr, len⟩,
                    n_ops := dma.n_ops + 1 }
  else none

end Dma

/-- `!prp_ent || prp_ent & (hostMemPageSize - 1)` -/
def badEntry (hostPageBits prp_ent : Nat) : Bool :=
  prp_ent == 0 || prp_ent % 2 ^ hostPageBits != 0

/-- The entry of one turn of the loop below, with the list and the index where it
lies. `none`: the entry, or the pointer to the next page of the list, is zero or
not aligned. -/
def nextEntry (hostPageBits : Nat) (mem : Mem) (prp_list i len : Nat) : Option (Nat × Nat × Nat) :=
  let hostMemPageSize := 2 ^ hostPageBits
  let maxPrpEntries := hostMemPageSize / 8
  let prp_ent := readU64 mem (prp_list + 8 * i)
  -- The last entry of a full page of the list points to the next page of it.
  let chained := i == maxPrpEntries - 1 && decide (len > hostMemPageSize)
  if chained && badEntry hostPageBits prp_ent then none
  else
    let (prp_list, i) := if chained then (prp_ent, 0) else (prp_list, i)
    let prp_ent := readU64 mem (prp_list + 8 * i)
    if badEntry hostPageBits prp_ent then none else some (prp_list, i, prp_ent)

/-- The loop of `decode_prp` over the list at the host address `prp_list`, for at
most the given number of turns. Each turn adds an entry and only `MDTS_PAGES`
fit, so one turn more is enough. The result is true where `decode_prp` returns 0. -/
def decode_list (hostPageBits : Nat) (mem : Mem) :
    Nat → (prp_list i len : Nat) → Dma → Option (Dma × Bool)
  | 0, _, _, _, _ => none
  | n + 1, prp_list, i, len, dma =>
    if len = 0 then some (dma, true)
    else
      match nextEntry hostPageBits mem prp_list i len with
      | none => some (dma, false)
      | some (prp_list, i, prp_ent) =>
        (dma.add_dma_entry prp_ent (min len (2 ^ hostPageBits))).bind fun dma =>
          decode_list hostPageBits mem n prp_list (i + 1) (len - min len (2 ^ hostPageBits)) dma

/-- `decode_prp`: the descriptor after it, and whether it returns 0. `none`: an
entry was written outside the array. -/
def decode_prp (hostPageBits : Nat) (mem : Mem) (prp1 prp2 : Nat) (dma : Dma) :
    Option (Dma × Bool) :=
  if prp1 = 0 then some (dma, false)
  else
    let hostMemPageSize := 2 ^ hostPageBits
    let trans_len := min dma.data_size (hostMemPageSize - prp1 % hostMemPageSize)
    let len := dma.data_size - trans_len
    ({ dma with n_ops := 0 }.add_dma_entry prp1 trans_len).bind fun dma =>
      if len = 0 then some (dma, true)
      else if prp2 = 0 then some (dma, false)
      else if len > hostMemPageSize then
        decode_list hostPageBits mem (MDTS_PAGES + 1) prp2 0 len dma
      else if prp2 % hostMemPageSize ≠ 0 then some (dma, false)
      else (dma.add_dma_entry prp2 len).map fun dma => (dma, true)

/-! ## What the decoder writes -/

/-- The bytes of a list of segments. -/
def opsBytes (ops : List DmaOp) : Nat := (ops.map DmaOp.len).sum

theorem opsBytes_cons {op : DmaOp} {ops : List DmaOp} :
    opsBytes (op :: ops) = op.len + opsBytes ops := by
  rw [opsBytes, List.map_cons, List.sum_cons, opsBytes]

theorem opsBytes_snoc {op : DmaOp} {ops : List DmaOp} :
    opsBytes (ops ++ [op]) = opsBytes ops + op.len := by
  simp only [opsBytes, List.map_append, List.sum_append, List.map_cons, List.map_nil,
    List.sum_cons, List.sum_nil, Nat.add_zero]

section Decoder

variable {bits : Nat} {mem : Mem} {dma dma' : Dma}

theorem add_dma_entry_cases {addr len : Nat} (h : dma.add_dma_entry addr len = some dma') :
    dma'.ops = dma.ops ++ [⟨addr, len⟩] ∧ dma'.n_ops = dma.n_ops + 1 ∧
      dma'.data_size = dma.data_size := by
  unfold Dma.add_dma_entry at h
  split at h
  · cases h
    refine ⟨?_, rfl, rfl⟩
    have hold : ∀ i ∈ List.range dma.n_ops,
        Function.update dma.list dma.n_ops ⟨addr, len⟩ i = dma.list i := by
      intro i hi
      rw [List.mem_range] at hi
      exact Function.update_of_ne (by omega) ..
    simp only [Dma.ops, List.range_succ, List.map_append, List.map_singleton,
      Function.update_self, List.map_congr_left hold]
  · cases h

/-- A decoded list has the bytes that were left to decode. -/
theorem decode_list_bytes {n prp_list i len : Nat}
    (h : decode_list bits mem n prp_list i len dma = some (dma', true)) :
    opsBytes dma'.ops = opsBytes dma.ops + len ∧ dma'.data_size = dma.data_size := by
  induction n generalizing prp_list i len dma with
  | zero => cases h
  | succ n ih =>
    rw [decode_list] at h
    split at h
    · rename_i hlen
      cases h
      exact ⟨by omega, rfl⟩
    · split at h
      · cases h
      · obtain ⟨dma1, hadd, hrest⟩ := Option.bind_eq_some_iff.mp h
        obtain ⟨hops, -, hsize⟩ := add_dma_entry_cases hadd
        obtain ⟨hbytes, hsize'⟩ := ih hrest
        refine ⟨?_, hsize'.trans hsize⟩
        simp only [hbytes, hops, opsBytes_snoc]
        omega

/-- When `decode_prp` returns 0, the segments have the bytes of the transfer. -/
theorem decode_prp_bytes {prp1 prp2 : Nat}
    (h : decode_prp bits mem prp1 prp2 dma = some (dma', true)) :
    opsBytes dma'.ops = dma.data_size ∧ dma'.data_size = dma.data_size := by
  unfold decode_prp at h
  split at h
  · cases h
  · simp only at h
    obtain ⟨dma1, hadd, hrest⟩ := Option.bind_eq_some_iff.mp h
    obtain ⟨hops, -, hsize⟩ := add_dma_entry_cases hadd
    have hbytes : opsBytes dma1.ops =
        min dma.data_size (2 ^ bits - prp1 % 2 ^ bits) := by
      rw [hops]
      simp [opsBytes, Dma.ops]
    split at hrest
    · cases hrest
      exact ⟨by omega, hsize⟩
    · split at hrest
      · cases hrest
      · split at hrest
        · obtain ⟨hlist, hsize'⟩ := decode_list_bytes hrest
          exact ⟨by omega, hsize'.trans hsize⟩
        · split at hrest
          · cases hrest
          · obtain ⟨dma2, hadd2, he⟩ := Option.map_eq_some_iff.mp hrest
            cases he
            obtain ⟨hops2, -, hsize2⟩ := add_dma_entry_cases hadd2
            refine ⟨?_, hsize2.trans hsize⟩
            simp only [hops2, opsBytes_snoc]
            omega

/-- The decoder leaves the size of the transfer, whatever it returns. -/
theorem decode_list_data_size {n prp_list i len : Nat} {ok : Bool}
    (h : decode_list bits mem n prp_list i len dma = some (dma', ok)) :
    dma'.data_size = dma.data_size := by
  induction n generalizing prp_list i len dma with
  | zero => cases h
  | succ n ih =>
    rw [decode_list] at h
    split at h
    · cases h
      rfl
    · split at h
      · cases h
        rfl
      · obtain ⟨dma1, hadd, hrest⟩ := Option.bind_eq_some_iff.mp h
        exact (ih hrest).trans (add_dma_entry_cases hadd).2.2

theorem decode_prp_data_size {prp1 prp2 : Nat} {ok : Bool}
    (h : decode_prp bits mem prp1 prp2 dma = some (dma', ok)) :
    dma'.data_size = dma.data_size := by
  unfold decode_prp at h
  split at h
  · cases h
    rfl
  · obtain ⟨dma1, hadd, hrest⟩ := Option.bind_eq_some_iff.mp h
    have hsize : dma1.data_size = dma.data_size := (add_dma_entry_cases hadd).2.2
    split at hrest
    · cases hrest
      exact hsize
    · split at hrest
      · cases hrest
        exact hsize
      · split at hrest
        · exact (decode_list_data_size hrest).trans hsize
        · split at hrest
          · cases hrest
            exact hsize
          · obtain ⟨dma2, hadd2, he⟩ := Option.map_eq_some_iff.mp hrest
            cases he
            exact (add_dma_entry_cases hadd2).2.2.trans hsize

/-! ## What the descriptor held before -/

/-- The two descriptors have the same segments. What lies behind them may differ. -/
structure SameSegments (a b : Dma) : Prop where
  data_size : a.data_size = b.data_size
  n_ops : a.n_ops = b.n_ops
  ops : a.ops = b.ops

variable {a b : Dma}

theorem SameSegments.add (h : SameSegments a b) (addr len : Nat) :
    (a.add_dma_entry addr len = none ∧ b.add_dma_entry addr len = none) ∨
      ∃ a' b', a.add_dma_entry addr len = some a' ∧ b.add_dma_entry addr len = some b' ∧
        SameSegments a' b' := by
  by_cases hlt : b.n_ops < MDTS_PAGES
  · right
    have ha : ∃ a', a.add_dma_entry addr len = some a' := by
      simp [Dma.add_dma_entry, h.n_ops, hlt]
    have hb : ∃ b', b.add_dma_entry addr len = some b' := by
      simp [Dma.add_dma_entry, hlt]
    obtain ⟨a', ha⟩ := ha
    obtain ⟨b', hb⟩ := hb
    obtain ⟨hops, hn, hsize⟩ := add_dma_entry_cases ha
    obtain ⟨hops', hn', hsize'⟩ := add_dma_entry_cases hb
    refine ⟨a', b', ha, hb, ?_, ?_, ?_⟩
    · rw [hsize, hsize', h.data_size]
    · rw [hn, hn', h.n_ops]
    · rw [hops, hops', h.ops]
  · left
    simp [Dma.add_dma_entry, h.n_ops, hlt]

/-- Two results of the decoder with the same segments and the same return value. -/
def SameResult (x y : Option (Dma × Bool)) : Prop :=
  (x = none ∧ y = none) ∨
    ∃ a b ok, x = some (a, ok) ∧ y = some (b, ok) ∧ SameSegments a b

theorem SameSegments.result (h : SameSegments a b) (ok : Bool) :
    SameResult (some (a, ok)) (some (b, ok)) := Or.inr ⟨a, b, ok, rfl, rfl, h⟩

theorem SameResult.bind {addr len : Nat} {f g : Dma → Option (Dma × Bool)} (h : SameSegments a b)
    (hfg : ∀ a' b', SameSegments a' b' → SameResult (f a') (g b')) :
    SameResult ((a.add_dma_entry addr len).bind f) ((b.add_dma_entry addr len).bind g) := by
  rcases h.add addr len with ⟨ha, hb⟩ | ⟨a', b', ha, hb, hsame⟩
  · rw [ha, hb]
    exact Or.inl ⟨rfl, rfl⟩
  · rw [ha, hb]
    exact hfg a' b' hsame

theorem decode_list_same {n prp_list i len : Nat} (h : SameSegments a b) :
    SameResult (decode_list bits mem n prp_list i len a)
      (decode_list bits mem n prp_list i len b) := by
  induction n generalizing prp_list i len a b with
  | zero => exact Or.inl ⟨rfl, rfl⟩
  | succ n ih =>
    rw [decode_list, decode_list]
    split
    · exact h.result true
    · split
      · exact h.result false
      · exact .bind h fun _ _ hsame => ih hsame

/-- With a PRP1, the decoder uses nothing that an earlier command left. -/
theorem decode_prp_same {prp1 prp2 : Nat} (hprp : prp1 ≠ 0) (h : a.data_size = b.data_size) :
    SameResult (decode_prp bits mem prp1 prp2 a) (decode_prp bits mem prp1 prp2 b) := by
  unfold decode_prp
  rw [if_neg hprp, if_neg hprp, h]
  refine .bind ⟨rfl, rfl, rfl⟩ fun a' b' hsame => ?_
  split
  · exact hsame.result true
  · split
    · exact hsame.result false
    · split
      · exact decode_list_same hsame
      · split
        · exact hsame.result false
        · rw [Option.map_eq_bind, Option.map_eq_bind]
          exact .bind hsame fun _ _ hsame => hsame.result true

/-- The segments of a command whose PRPs decode. -/
def decodedOps (bits : Nat) (mem : Mem) (prp1 prp2 data_size : Nat) : Option (List DmaOp) :=
  (decode_prp bits mem prp1 prp2 ⟨data_size, 0, fun _ => ⟨0, 0⟩⟩).bind fun (dma, ok) =>
    if ok then some dma.ops else none

/-- Whatever the descriptor held, the decoder leaves the segments of the command in it. -/
theorem decodedOps_spec {prp1 prp2 data_size : Nat} {ops : List DmaOp} {ok : Bool}
    (h : decodedOps bits mem prp1 prp2 data_size = some ops) (hsize : dma.data_size = data_size)
    (hdec : decode_prp bits mem prp1 prp2 dma = some (dma', ok)) :
    dma'.ops = ops ∧ opsBytes ops = data_size := by
  obtain ⟨⟨fresh, ok'⟩, hfresh, hops⟩ := Option.bind_eq_some_iff.mp h
  cases ok' with
  | false => cases hops
  | true =>
    cases hops
    have hprp : prp1 ≠ 0 := by
      rintro rfl
      simp [decode_prp] at hfresh
    refine ⟨?_, (decode_prp_bytes hfresh).1⟩
    have hboth : SameResult (decode_prp bits mem prp1 prp2 dma)
        (decode_prp bits mem prp1 prp2 ⟨data_size, 0, fun _ => ⟨0, 0⟩⟩) :=
          decode_prp_same hprp hsize
    rcases hboth with ⟨hnone, -⟩ | ⟨a, b, r, ha, hb, hsame⟩
    · rw [hdec] at hnone
      cases hnone
    · rw [hdec] at ha
      rw [hfresh] at hb
      cases ha
      cases hb
      exact hsame.ops

end Decoder

end S4Sim
