-- Items put into groups in one pass. An item joins the group of its key, or it
-- opens a new group, which may change a state. A pass is the same as opening the
-- groups of all keys first, and then filling each with the items of its key.
import Mathlib.Data.List.Induction
import Mathlib.Data.List.Nodup

namespace Grouping

/-- How groups are opened and filled. -/
structure Scheme (ι κ ε σ : Type*) where
  key : ι → κ
  keyOf : ε → κ
  create : σ → κ → Option (σ × ε)
  add : ε → ι → ε
  keyOf_create : ∀ {s k r}, create s k = some r → keyOf r.2 = k
  keyOf_add : ∀ e i, keyOf (add e i) = keyOf e

variable {ι κ ε σ : Type*} [DecidableEq κ]

/-- The last group of the key. -/
def find (keyOf : ε → κ) (k : κ) : List ε → Option Nat
  | [] => none
  | e :: rest =>
    match find keyOf k rest with
    | some ix => some (ix + 1)
    | none => if keyOf e = k then some 0 else none

namespace Scheme

variable (S : Scheme ι κ ε σ)

/-- One item. -/
def step (p : σ × List ε) (i : ι) : Option (σ × List ε) :=
  match find S.keyOf (S.key i) p.2 with
  | some ix => some (p.1, p.2.modify ix fun e => S.add e i)
  | none => (S.create p.1 (S.key i)).map fun r => (r.1, p.2 ++ [S.add r.2 i])

def group (s : σ) (items : List ι) : Option (σ × List ε) := items.foldlM S.step (s, [])

/-- The keys in the order in which they come first. -/
def keys (items : List ι) : List κ :=
  items.foldl (fun ks i => if S.key i ∈ ks then ks else ks ++ [S.key i]) []

/-- Opens a group for each of the keys. -/
def createAll (s : σ) (ks : List κ) : Option (σ × List ε) :=
  ks.foldlM (fun p k => (S.create p.1 k).map fun r => (r.1, p.2 ++ [r.2])) (s, [])

/-- Fills a group with the items of its key. -/
def fill (items : List ι) (e : ε) : ε :=
  (items.filter fun i => S.key i = S.keyOf e).foldl S.add e

variable {S} {s : σ} {items : List ι} {groups : List ε} {k : κ} {i : ι}

/-! ## Finding a group -/

theorem find_eq_none : find S.keyOf k groups = none ↔ k ∉ groups.map S.keyOf := by
  induction groups with
  | nil => simp [find]
  | cons e rest ih =>
    unfold find
    cases hfind : find S.keyOf k rest with
    | some ix =>
      rw [hfind] at ih
      simp only [reduceCtorEq, false_iff, not_not] at ih ⊢
      exact List.mem_cons_of_mem _ ih
    | none =>
      have hrest := ih.mp hfind
      rw [List.map_cons, List.mem_cons, not_or, ite_eq_right_iff]
      simp only [reduceCtorEq, imp_false]
      exact ⟨fun h => ⟨fun he => h he.symm, hrest⟩, fun h he => h.1 he.symm⟩

/-- The keys of the groups differ, so the group that is found is the only one of its key. -/
theorem modify_find {ix : Nat} {f : ε → ε} (hnodup : (groups.map S.keyOf).Nodup)
    (h : find S.keyOf k groups = some ix) :
    groups.modify ix f = groups.map fun e => if S.keyOf e = k then f e else e := by
  induction groups generalizing ix with
  | nil => cases h
  | cons e rest ih =>
    rw [List.map_cons, List.nodup_cons] at hnodup
    unfold find at h
    cases hfind : find S.keyOf k rest with
    | some j =>
      rw [hfind] at h
      cases h
      have hmem : k ∈ rest.map S.keyOf := by
        by_contra hno
        rw [find_eq_none.mpr hno] at hfind
        cases hfind
      have hne : S.keyOf e ≠ k := by
        rintro rfl
        exact hnodup.1 hmem
      rw [List.modify_succ_cons, List.map_cons, if_neg hne, ih hnodup.2 hfind]
    | none =>
      rw [hfind] at h
      simp only [Option.ite_none_right_eq_some] at h
      obtain ⟨rfl, h⟩ := h
      cases h
      have hrest : rest.map (fun e' => if S.keyOf e' = S.keyOf e then f e' else e') = rest := by
        refine (List.map_congr_left fun e' he' => ?_).trans (List.map_id _)
        rw [if_neg, id]
        intro he
        exact hnodup.1 (he ▸ List.mem_map_of_mem he')
      rw [List.modify_zero_cons, List.map_cons, if_pos rfl, hrest]

/-! ## The keys -/

theorem keys_snoc : S.keys (items ++ [i]) =
    if S.key i ∈ S.keys items then S.keys items else S.keys items ++ [S.key i] := by
  unfold keys
  rw [List.foldl_append]
  rfl

theorem mem_keys : k ∈ S.keys items ↔ ∃ i ∈ items, S.key i = k := by
  induction items using List.reverseRecOn with
  | nil => simp [keys]
  | append_singleton items i ih =>
    rw [keys_snoc]
    simp only [List.mem_append, List.mem_singleton, or_and_right, exists_or, exists_eq_left]
    split
    · rename_i hmem
      rw [ih]
      constructor
      · exact Or.inl
      · rintro (h | rfl)
        · exact h
        · exact ih.mp hmem
    · rw [List.mem_append, List.mem_singleton, ih, eq_comm]

theorem keys_nodup : (S.keys items).Nodup := by
  induction items using List.reverseRecOn with
  | nil => exact List.nodup_nil
  | append_singleton items i ih =>
    rw [keys_snoc]
    split
    · exact ih
    · rename_i hmem
      rw [List.nodup_append]
      refine ⟨ih, List.nodup_singleton _, ?_⟩
      rintro a ha b hb rfl
      rw [List.mem_singleton.mp hb] at ha
      exact hmem ha

/-! ## One pass -/

omit [DecidableEq κ] in
theorem createAll_snoc {ks : List κ} : S.createAll s (ks ++ [k]) =
    (S.createAll s ks).bind fun p => (S.create p.1 k).map fun r => (r.1, p.2 ++ [r.2]) := by
  simp [createAll]

omit [DecidableEq κ] in
theorem keyOf_createAll {ks : List κ} {p : σ × List ε} (h : S.createAll s ks = some p) :
    p.2.map S.keyOf = ks := by
  induction ks using List.reverseRecOn generalizing p with
  | nil =>
    cases h
    rfl
  | append_singleton ks k ih =>
    rw [createAll_snoc] at h
    obtain ⟨q, hq, hlast⟩ := Option.bind_eq_some_iff.mp h
    obtain ⟨r, hr, rfl⟩ := Option.map_eq_some_iff.mp hlast
    rw [List.map_append, ih hq, List.map_singleton, S.keyOf_create hr]

theorem keyOf_fill (e : ε) : S.keyOf (S.fill items e) = S.keyOf e := by
  unfold fill
  generalize items.filter (fun i => S.key i = S.keyOf e) = rest
  induction rest generalizing e with
  | nil => rfl
  | cons i rest ih => rw [List.foldl_cons, ih, S.keyOf_add]

theorem fill_snoc (e : ε) : S.fill (items ++ [i]) e =
    if S.keyOf e = S.key i then S.add (S.fill items e) i else S.fill items e := by
  unfold fill
  rw [List.filter_append]
  by_cases h : S.keyOf e = S.key i
  · rw [if_pos h, List.filter_cons_of_pos (by simp [h]), List.filter_nil, List.foldl_append]
    rfl
  · rw [if_neg h, List.filter_cons_of_neg (by simpa using fun he => h he.symm), List.filter_nil,
      List.append_nil]

theorem fill_of_not_mem {e : ε} (h : S.keyOf e ∉ S.keys items) : S.fill items e = e := by
  unfold fill
  rw [List.filter_eq_nil_iff.mpr, List.foldl_nil]
  intro i hi
  simp only [decide_eq_true_eq]
  exact fun he => h (mem_keys.mpr ⟨i, hi, he⟩)

/-- The groups of a pass, each with the items of its key. -/
theorem group_eq : S.group s items =
    (S.createAll s (S.keys items)).map fun p => (p.1, p.2.map (S.fill items)) := by
  induction items using List.reverseRecOn with
  | nil => rfl
  | append_singleton items i ih =>
    have hgroup : S.group s (items ++ [i]) = (S.group s items).bind fun p => S.step p i := by
      simp [group]
    rw [hgroup, ih, keys_snoc]
    cases hall : S.createAll s (S.keys items) with
    | none =>
      split
      · rw [hall]
        rfl
      · rw [createAll_snoc, hall]
        rfl
    | some p =>
      have hkeys := keyOf_createAll hall
      have hfilled : (p.2.map (S.fill items)).map S.keyOf = S.keys items := by
        rw [List.map_map, ← hkeys]
        exact List.map_congr_left fun e _ => keyOf_fill e
      rw [Option.map_some, Option.bind_some]
      by_cases hmem : S.key i ∈ S.keys items
      · -- The key has its group.
        rw [if_pos hmem, hall, Option.map_some]
        cases hfind : find S.keyOf (S.key i) (p.2.map (S.fill items)) with
        | none =>
          rw [find_eq_none, hfilled] at hfind
          exact absurd hmem hfind
        | some ix =>
          unfold step
          simp only [hfind]
          rw [modify_find (hfilled ▸ keys_nodup) hfind, List.map_map]
          congr 2
          refine List.map_congr_left fun e _ => ?_
          rw [Function.comp_apply, keyOf_fill, fill_snoc]
      · rw [if_neg hmem, createAll_snoc, hall, Option.bind_some]
        unfold step
        simp only [find_eq_none.mpr (hfilled ▸ hmem), Option.map_map]
        cases hcreate : S.create p.1 (S.key i) with
        | none => rfl
        | some r =>
          have hkey := S.keyOf_create hcreate
          have hold : p.2.map (S.fill (items ++ [i])) = p.2.map (S.fill items) := by
            refine List.map_congr_left fun e he => ?_
            rw [fill_snoc, if_neg]
            intro hek
            exact hmem (hek ▸ hkeys ▸ List.mem_map_of_mem he)
          have hnew : S.fill (items ++ [i]) r.2 = S.add r.2 i := by
            rw [fill_snoc, if_pos hkey, fill_of_not_mem (hkey ▸ hmem)]
          simp [hold, hnew]

end Scheme

end Grouping
