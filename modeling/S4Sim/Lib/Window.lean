-- Windows of a memory: a run of cells from an offset, and the memory after a run of
-- cells is written. `updateEach` changes single cells, one for each item of a list.
import Mathlib.Data.List.Basic
import Mathlib.Data.List.Induction

namespace Windows

variable {β : Type*}

/-- `n` cells of a memory from an offset. -/
def window (m : Nat → β) (offset n : Nat) : List β :=
  (List.range n).map fun i => m (offset + i)

/-- Writes `n` cells at an offset. -/
def writeWindow (m : Nat → β) (offset n : Nat) (bytes : Nat → β) (i : Nat) : β :=
  if offset ≤ i ∧ i < offset + n then bytes (i - offset) else m i

variable {m m' : Nat → β} {offset n k : Nat} {bytes : Nat → β}

@[simp] theorem window_length : (window m offset n).length = n := by simp [window]

@[simp] theorem window_zero : window m offset 0 = [] := rfl

theorem window_add : window m offset (n + k) = window m offset n ++ window m (offset + n) k := by
  simp [window, List.range_add, Nat.add_assoc]

theorem window_congr (h : ∀ i, offset ≤ i → i < offset + n → m i = m' i) :
    window m offset n = window m' offset n := by
  unfold window
  rw [List.map_inj_left]
  intro i hi
  rw [List.mem_range] at hi
  exact h _ (by omega) (by omega)

/-- Equal windows have equal cells. -/
theorem cell_of_window_eq (h : window m offset n = window m' offset n) {i : Nat}
    (hi : offset ≤ i) (hlt : i < offset + n) : m i = m' i := by
  unfold window at h
  rw [List.map_inj_left] at h
  have hcell := h (i - offset) (List.mem_range.mpr (by omega))
  rwa [Nat.add_sub_cancel' hi] at hcell

theorem window_take (h : k ≤ n) : (window m offset n).take k = window m offset k := by
  unfold window
  rw [← List.map_take, List.take_range, Nat.min_eq_left h]

theorem window_shift : window (fun i => m (k + i)) offset n = window m (k + offset) n := by
  unfold window
  rw [List.map_inj_left]
  intro i _
  rw [Nat.add_assoc]

theorem writeWindow_inside {i : Nat} (h : i < n) :
    writeWindow m offset n bytes (offset + i) = bytes i := by
  unfold writeWindow
  rw [if_pos (by omega), Nat.add_sub_cancel_left]

/-- The same for the cells from the first on. -/
theorem writeWindow_front {i : Nat} (h : i < n) : writeWindow m 0 n bytes i = bytes i := by
  unfold writeWindow
  rw [if_pos (by omega), Nat.sub_zero]

theorem writeWindow_outside {i : Nat} (h : i < offset ∨ offset + n ≤ i) :
    writeWindow m offset n bytes i = m i := by
  unfold writeWindow
  rw [if_neg (by omega)]

theorem window_writeWindow_same : window (writeWindow m offset n bytes) offset n =
    window bytes 0 n := by
  unfold window
  rw [List.map_inj_left]
  intro i hi
  rw [List.mem_range] at hi
  rw [writeWindow_inside hi, Nat.zero_add]

/-! ## Ranges one after another -/

/-- The ranges, each with its first cell and its length, fill the cells from `lo` up to `hi` in
order, without a gap or an overlap. -/
def Tiles (lo hi : Nat) : List (Nat × Nat) → Prop
  | [] => lo = hi
  | (first, len) :: rest => first = lo ∧ 0 < len ∧ Tiles (lo + len) hi rest

instance decidableTiles (lo hi : Nat) : (ranges : List (Nat × Nat)) → Decidable (Tiles lo hi ranges)
  | [] => inferInstanceAs (Decidable (lo = hi))
  | (first, len) :: rest =>
    have := decidableTiles (lo + len) hi rest
    inferInstanceAs (Decidable (first = lo ∧ 0 < len ∧ Tiles (lo + len) hi rest))

/-- Each of the ranges ends inside. -/
theorem Tiles.inside {lo hi : Nat} {ranges : List (Nat × Nat)} (h : Tiles lo hi ranges) :
    lo ≤ hi ∧ ∀ r ∈ ranges, lo ≤ r.1 ∧ r.1 + r.2 ≤ hi := by
  induction ranges generalizing lo with
  | nil => exact ⟨Nat.le_of_eq h, fun _ hr => absurd hr List.not_mem_nil⟩
  | cons r ranges ih =>
    obtain ⟨hfirst, -, hrest⟩ := h
    obtain ⟨hle, hinside⟩ := ih hrest
    refine ⟨by omega, List.forall_mem_cons.mpr ⟨by omega, fun r' hr' => ?_⟩⟩
    have := hinside r' hr'
    omega

/-! ## Windows written one after another -/

/-- Writes windows of `n` cells in turn, each with its offset. -/
def writeAll (m : Nat → β) (n : Nat) (ws : List (Nat × (Nat → β))) : Nat → β :=
  ws.foldl (fun m w => writeWindow m w.1 n w.2) m

theorem writeAll_snoc {ws : List (Nat × (Nat → β))} {w : Nat × (Nat → β)} :
    writeAll m n (ws ++ [w]) = writeWindow (writeAll m n ws) w.1 n w.2 := by
  simp [writeAll]

theorem writeAll_untouched {ws : List (Nat × (Nat → β))} {i : Nat}
    (h : ∀ w ∈ ws, i < w.1 ∨ w.1 + n ≤ i) : writeAll m n ws i = m i := by
  induction ws using List.reverseRecOn with
  | nil => rfl
  | append_singleton ws w ih =>
    rw [writeAll_snoc, writeWindow_outside (h w (by simp))]
    exact ih fun v hv => h v (List.mem_append_left _ hv)

/-- When all the writes agree with one target, a cell in one of the windows has its value
there, whatever the order of the writes. -/
theorem writeAll_covered {ws : List (Nat × (Nat → β))} (target : Nat → β) {i : Nat}
    (h : ∀ w ∈ ws, ∀ k < n, w.2 k = target (w.1 + k)) (hi : ∃ w ∈ ws, w.1 ≤ i ∧ i < w.1 + n) :
    writeAll m n ws i = target i := by
  induction ws using List.reverseRecOn with
  | nil => simp at hi
  | append_singleton ws w ih =>
    rw [writeAll_snoc]
    by_cases hin : w.1 ≤ i ∧ i < w.1 + n
    · obtain ⟨k, rfl⟩ := Nat.exists_eq_add_of_le hin.1
      have hk : k < n := by omega
      rw [writeWindow_inside hk, h w (by simp) k hk]
    · rw [writeWindow_outside (by omega)]
      refine ih (fun v hv => h v (List.mem_append_left _ hv)) ?_
      obtain ⟨v, hv, hvi⟩ := hi
      rcases List.mem_append.mp hv with hv | hv
      · exact ⟨v, hv, hvi⟩
      · rw [List.mem_singleton.mp hv] at hvi
        exact absurd hvi hin

/-! ## Cells changed one after another -/

section UpdateEach

variable {ι κ : Type*} [DecidableEq κ] {key : ι → κ} {f : ι → β → β} {c : κ → β} {xs : List ι}

/-- Changes the cell of each item in turn. -/
def updateEach (key : ι → κ) (f : ι → β → β) (c : κ → β) (xs : List ι) : κ → β :=
  xs.foldl (fun c x => Function.update c (key x) (f x (c (key x)))) c

theorem updateEach_snoc {x : ι} : updateEach key f c (xs ++ [x]) =
    Function.update (updateEach key f c xs) (key x) (f x (updateEach key f c xs (key x))) := by
  simp [updateEach]

theorem updateEach_append {ys : List ι} : updateEach key f c (xs ++ ys) =
    updateEach key f (updateEach key f c xs) ys := by
  simp [updateEach]

theorem updateEach_other {k : κ} (h : k ∉ xs.map key) : updateEach key f c xs k = c k := by
  induction xs using List.reverseRecOn with
  | nil => rfl
  | append_singleton xs x ih =>
    rw [List.map_append, List.mem_append, not_or] at h
    have hne : k ≠ key x := by simpa using h.2
    rw [updateEach_snoc, Function.update_of_ne hne]
    exact ih h.1

/-- Items of different cells: each cell is changed once. -/
theorem updateEach_of_mem (hnodup : (xs.map key).Nodup) {x : ι} (hx : x ∈ xs) :
    updateEach key f c xs (key x) = f x (c (key x)) := by
  induction xs using List.reverseRecOn with
  | nil => cases hx
  | append_singleton xs y ih =>
    rw [List.map_append, List.nodup_append] at hnodup
    have hlast : ∀ z ∈ xs, key z ≠ key y := fun z hz =>
      hnodup.2.2 _ (List.mem_map_of_mem hz) _ (by simp)
    rw [updateEach_snoc]
    rcases List.mem_append.mp hx with hx | hx
    · rw [Function.update_of_ne (hlast x hx)]
      exact ih hnodup.1 hx
    · obtain rfl := List.mem_singleton.mp hx
      have hnew : key x ∉ xs.map key := by
        intro hmem
        obtain ⟨z, hz, he⟩ := List.mem_map.mp hmem
        exact hlast z hz he
      rw [Function.update_self, updateEach_other hnew]

end UpdateEach

end Windows
