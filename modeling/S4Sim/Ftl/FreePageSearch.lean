-- The search of `find_free_page` page by page: which words of `ppa_table` it
-- reads. The block index goes back to 0 only above `BLOCKS_PER_PLANE`, so a search
-- that leaves the last block reads the words of a block that is not there.
import S4Sim.Ftl.PageSteps

open Runs

namespace S4Sim

/-! ## The words that a search reads -/

section Probes

variable (g : Geometry)

/-- The pages that the loop over one block tests. -/
def probed_in_block (s : Ftl) (i_ppa : Ppa) : Nat → List Ppa
  | 0 => []
  | n + 1 =>
    i_ppa :: if is_free_ppa g s i_ppa then []
      else probed_in_block s { i_ppa with page := i_ppa.page + 1 } n

/-- The pages that the loop over the blocks tests. -/
def probed_in_plane (s : Ftl) (i_ppa : Ppa) : Nat → List Ppa
  | 0 => []
  | n + 1 =>
    probed_in_block g s i_ppa (g.nand_pages_per_block - i_ppa.page) ++
      match find_in_block g s i_ppa (g.nand_pages_per_block - i_ppa.page) with
      | some _ => []
      | none => probed_in_plane s (next_block g i_ppa) n

/-- The cursor of the plane that the next call searches. -/
def search_cursor (s : Ftl) : Ppa :=
  s.last_page_per_plane (next_plane g s.last_searched_channel.planeOf)

/-- The pages that one call of `find_free_page` tests. -/
def probed (s : Ftl) : List Ppa := probed_in_plane g s (search_cursor g s) g.nand_blocks_per_plane

end Probes

variable {g : Geometry} {s : Ftl} {c x y : Ppa} {n : Nat}

/-! ## One block -/

/-- The address is not before `c` in the order of blocks and pages. -/
def AtOrAfter (c x : Ppa) : Prop := c.block < x.block ∨ (c.block = x.block ∧ c.page ≤ x.page)

theorem is_free_ppa_eq_true :
    is_free_ppa g s x = true ↔ g.HasPage x ∧ s.ppa_table x = FREE_PPA := by
  simp [is_free_ppa]

theorem find_in_block_some (h : find_in_block g s c n = some x) :
    is_free_ppa g s x = true ∧ x.pba = c.pba ∧ c.page ≤ x.page := by
  induction n generalizing c with
  | zero => cases h
  | succ n ih =>
    unfold find_in_block at h
    split at h
    · rename_i hfree
      cases h
      exact ⟨hfree, rfl, Nat.le_refl _⟩
    · obtain ⟨hfree, hpba, hle⟩ := ih h
      exact ⟨hfree, hpba, by simp only at hle; omega⟩

theorem find_in_block_eq_none (h : find_in_block g s c n = none) (hpba : x.pba = c.pba)
    (hle : c.page ≤ x.page) (hlt : x.page < c.page + n) : is_free_ppa g s x = false := by
  induction n generalizing c with
  | zero => omega
  | succ n ih =>
    unfold find_in_block at h
    split at h
    · cases h
    · rename_i hfree
      rcases Nat.eq_or_lt_of_le hle with heq | hgt
      · have hx : x = c := by rw [← x.pageOf_pba, hpba, ← heq, c.pageOf_pba]
        rw [hx]
        simpa using hfree
      · exact ih h hpba hgt (by simp only; omega)

/-- The loop over a block tests pages of the block only. -/
theorem mem_probed_in_block (hx : x ∈ probed_in_block g s c n) :
    x.pba = c.pba ∧ c.page ≤ x.page ∧ x.page < c.page + n := by
  induction n generalizing c with
  | zero => cases hx
  | succ n ih =>
    rcases List.mem_cons.mp hx with rfl | hx
    · exact ⟨rfl, Nat.le_refl _, by omega⟩
    · split at hx
      · cases hx
      · obtain ⟨hpba, hle, hlt⟩ := ih hx
        simp only at hle hlt
        exact ⟨hpba, by omega, by omega⟩

theorem mem_probed_in_block_self (hn : 0 < n) : c ∈ probed_in_block g s c n := by
  cases n with
  | zero => omega
  | succ n => exact List.mem_cons_self

/-! ## One plane -/

/-- A free page of the plane of `c`, at `c` or after it. -/
def FreeAfter (g : Geometry) (s : Ftl) (c : Ppa) : Prop :=
  ∃ x, is_free_ppa g s x = true ∧ x.planeOf = c.planeOf ∧ AtOrAfter c x

/-- The plane of `c` has no free page. -/
def PlaneFull (g : Geometry) (s : Ftl) (c : Ppa) : Prop :=
  ∀ x, x.planeOf = c.planeOf → is_free_ppa g s x = false

/-- The pages of the block from the cursor on lie in the array. -/
theorem hasPage_of_probed (hplane : g.HasPlane c.planeOf)
    (hblock : c.block < g.nand_blocks_per_plane)
    (hx : x ∈ probed_in_block g s c (g.nand_pages_per_block - c.page)) : g.HasPage x := by
  obtain ⟨hpba, hle, hlt⟩ := mem_probed_in_block hx
  have hpage : x.page < g.nand_pages_per_block := by omega
  rw [← x.pageOf_pba, hpba]
  exact Geometry.HasBlock.hasPage ⟨hplane.1, hplane.2.1, hplane.2.2, hblock⟩ hpage

theorem next_block_eq (hblock : c.block < g.nand_blocks_per_plane) :
    next_block g c = { c with block := c.block + 1, page := 0 } := by
  unfold next_block
  rw [if_neg (by omega)]

/-- A free page after the cursor that is not in the rest of its block is after the next one. -/
theorem FreeAfter.next_block (h : FreeAfter g s c) (hblock : c.block < g.nand_blocks_per_plane)
    (hnone : find_in_block g s c (g.nand_pages_per_block - c.page) = none) :
    FreeAfter g s (next_block g c) := by
  obtain ⟨x, hfree, hplane, hafter⟩ := h
  rw [next_block_eq hblock]
  refine ⟨x, hfree, hplane, ?_⟩
  rcases hafter with hlt | ⟨heq, hle⟩
  · rcases Nat.eq_or_lt_of_le (Nat.succ_le_of_lt hlt) with he | hgt
    · exact Or.inr ⟨he, Nat.zero_le _⟩
    · exact Or.inl hgt
  · -- A free page of this block would have been found.
    have hpage := (is_free_ppa_eq_true.mp hfree).1.2.2.2.2
    have hpba : x.pba = c.pba := by
      simp only [Ppa.planeOf, Plane.mk.injEq] at hplane
      simp [Ppa.pba, hplane, heq]
    rw [find_in_block_eq_none hnone hpba hle (by omega)] at hfree
    cases hfree

/-- With a free page left, the search finds one and stays in the array. -/
theorem find_in_plane_found (hplane : g.HasPlane c.planeOf)
    (hblock : c.block < g.nand_blocks_per_plane) (hn : g.nand_blocks_per_plane ≤ c.block + n)
    (h : FreeAfter g s c) :
    (∃ x, find_in_plane g s c n = .ok x) ∧ ∀ x ∈ probed_in_plane g s c n, g.HasPage x := by
  induction n generalizing c with
  | zero => omega
  | succ n ih =>
    unfold find_in_plane probed_in_plane
    cases hfind : find_in_block g s c (g.nand_pages_per_block - c.page) with
    | some x =>
      refine ⟨⟨x, rfl⟩, ?_⟩
      intro y hy
      rw [List.append_nil] at hy
      exact hasPage_of_probed hplane hblock hy
    | none =>
      have hnext := h.next_block hblock hfind
      have hblock' : (next_block g c).block < g.nand_blocks_per_plane := by
        obtain ⟨x, hfree, -, hafter⟩ := hnext
        have := (is_free_ppa_eq_true.mp hfree).1.2.2.2.1
        rcases hafter with hlt | ⟨heq, -⟩ <;> omega
      rw [next_block_eq hblock] at hnext hblock' ⊢
      obtain ⟨hfound, hprobed⟩ := ih (c := { c with block := c.block + 1, page := 0 }) hplane
        hblock' (by simp only; omega) hnext
      refine ⟨hfound, ?_⟩
      intro y hy
      rcases List.mem_append.mp hy with hy | hy
      · exact hasPage_of_probed hplane hblock hy
      · exact hprobed y hy

theorem find_in_block_none_of_not_freeAfter (h : ¬ FreeAfter g s c) :
    find_in_block g s c n = none := by
  cases hfind : find_in_block g s c n with
  | none => rfl
  | some x =>
    obtain ⟨hfree, hpba, hle⟩ := find_in_block_some hfind
    simp only [Ppa.pba, Pba.mk.injEq] at hpba
    exact absurd ⟨x, hfree, by simp [Ppa.planeOf, hpba], Or.inr ⟨hpba.2.2.2.symm, hle⟩⟩ h

theorem not_freeAfter_next_block (h : ¬ FreeAfter g s c)
    (hblock : c.block < g.nand_blocks_per_plane) : ¬ FreeAfter g s (next_block g c) := by
  rintro ⟨x, hfree, hplane, hafter⟩
  rw [next_block_eq hblock] at hplane hafter
  refine h ⟨x, hfree, hplane, Or.inl ?_⟩
  rcases hafter with hlt | ⟨heq, -⟩
  · exact Nat.lt_of_succ_lt hlt
  · exact Nat.lt_of_lt_of_eq (Nat.lt_succ_self _) heq

/-- With no free page left and few enough blocks to go, the search fails inside the array. -/
theorem find_in_plane_failed (hplane : g.HasPlane c.planeOf)
    (hn : c.block + n ≤ g.nand_blocks_per_plane) (h : ¬ FreeAfter g s c) :
    (∃ x, find_in_plane g s c n = .error x) ∧ ∀ x ∈ probed_in_plane g s c n, g.HasPage x := by
  induction n generalizing c with
  | zero => exact ⟨⟨c, rfl⟩, fun x hx => absurd hx List.not_mem_nil⟩
  | succ n ih =>
    have hblock : c.block < g.nand_blocks_per_plane := by omega
    have hnext := not_freeAfter_next_block h hblock
    unfold find_in_plane probed_in_plane
    rw [find_in_block_none_of_not_freeAfter h]
    rw [next_block_eq hblock] at hnext ⊢
    obtain ⟨hfailed, hprobed⟩ := ih (c := { c with block := c.block + 1, page := 0 }) hplane
      (by simp only; omega) hnext
    refine ⟨hfailed, ?_⟩
    intro y hy
    rcases List.mem_append.mp hy with hy | hy
    · exact hasPage_of_probed hplane hblock hy
    · exact hprobed y hy

/-- With no free page left, a longer search reads a word of the block behind the last one. -/
theorem probed_behind_the_last_block (hblock : c.block < g.nand_blocks_per_plane)
    (hn : g.nand_blocks_per_plane < c.block + n) (h : ¬ FreeAfter g s c) :
    ∃ x ∈ probed_in_plane g s c n, x.block = g.nand_blocks_per_plane := by
  induction n generalizing c with
  | zero => omega
  | succ n ih =>
    have hnext := not_freeAfter_next_block h hblock
    unfold probed_in_plane
    rw [find_in_block_none_of_not_freeAfter h]
    rw [next_block_eq hblock] at hnext ⊢
    rcases Nat.lt_or_ge (c.block + 1) g.nand_blocks_per_plane with hlt | hge
    · obtain ⟨x, hx, hlast⟩ := ih (c := { c with block := c.block + 1, page := 0 }) hlt
        (by simp only; omega) hnext
      exact ⟨x, List.mem_append_right _ hx, hlast⟩
    · -- The next turn tests the first page of that block.
      obtain ⟨k, rfl⟩ := Nat.exists_eq_succ_of_ne_zero (show n ≠ 0 by omega)
      have hself : ({ c with block := c.block + 1, page := 0 } : Ppa) ∈
          probed_in_plane g s { c with block := c.block + 1, page := 0 } (k + 1) := by
        unfold probed_in_plane
        exact List.mem_append_left _ (mem_probed_in_block_self g.pages_pos)
      exact ⟨_, List.mem_append_right _ hself, by simp only; omega⟩

theorem planeOf_next_block : (next_block g c).planeOf = c.planeOf := rfl

theorem find_in_plane_ok (h : find_in_plane g s c n = .ok x) :
    is_free_ppa g s x = true ∧ x.planeOf = c.planeOf := by
  induction n generalizing c with
  | zero => cases h
  | succ n ih =>
    unfold find_in_plane at h
    split at h
    · rename_i hfind
      cases h
      obtain ⟨hfree, hpba, -⟩ := find_in_block_some hfind
      simp only [Ppa.pba, Pba.mk.injEq] at hpba
      exact ⟨hfree, by simp [Ppa.planeOf, hpba]⟩
    · obtain ⟨hfree, hplane⟩ := ih h
      exact ⟨hfree, hplane.trans planeOf_next_block⟩

theorem planeOf_of_find_in_plane_error (h : find_in_plane g s c n = .error x) :
    x.planeOf = c.planeOf := by
  induction n generalizing c with
  | zero =>
    cases h
    rfl
  | succ n ih =>
    unfold find_in_plane at h
    split at h
    · cases h
    · exact (ih h).trans planeOf_next_block

/-! ## Calls of find_free_page and mappings of the pages they return -/

/-- The memory of the FTL, and the pages returned so far. -/
structure Search where
  ftl : Ftl
  returned : List Ppa

/-- A call of `find_free_page`, or the mapping of LPN `lpn` to the `i`-th page returned. -/
inductive SearchOp (g : Geometry)
  | find_free_page
  | map (lpn : Fin g.total_num_of_pages) (i : Nat)

/-- The call reads words of `ppa_table` inside the geometry only. -/
def ProbesInGeometry (g : Geometry) (s : Ftl) : Prop := ∀ x ∈ probed g s, g.HasPage x

instance (g : Geometry) (s : Ftl) : Decidable (ProbesInGeometry g s) := by
  unfold ProbesInGeometry
  infer_instance

/-- One step. `none`: the index is outside the array, or no such page was returned. -/
def searchStep (q : Search) : SearchOp g → Option Search
  | .find_free_page =>
    let (new_ppa, ftl) := S4Sim.find_free_page g q.ftl
    if ProbesInGeometry g q.ftl then some ⟨ftl, q.returned ++ new_ppa.toList⟩ else none
  | .map lpn i => q.returned[i]?.map fun x => ⟨map_new_page lpn x q.ftl, q.returned⟩

/-- A call in this state does what it is for. -/
structure FindsFreePage (g : Geometry) (s : Ftl) : Prop where
  in_geometry : ∀ x ∈ probed g s, g.HasPage x
  found : ∀ x s', find_free_page g s = (some x, s') →
    x.planeOf = next_plane g s.last_searched_channel.planeOf ∧ g.HasPage x ∧
      s.ppa_table x = FREE_PPA
  failed : ∀ s', find_free_page g s = (none, s') →
    ∀ x, g.HasPage x → x.planeOf = next_plane g s.last_searched_channel.planeOf →
      s.ppa_table x ≠ FREE_PPA

/-- The plane that comes next has a free page at its cursor or after it, or its cursor is
still in its first block and it has no free page at all. -/
def SearchEndsInside (g : Geometry) (s : Ftl) : Prop :=
  FreeAfter g s (search_cursor g s) ∨
    ((search_cursor g s).block = 0 ∧ PlaneFull g s (search_cursor g s))

/-- The cursors lie in their planes. -/
structure CursorsInside (g : Geometry) (s : Ftl) : Prop where
  cursor : ∀ p, g.HasPlane p → (s.last_page_per_plane p).planeOf = p ∧
    (s.last_page_per_plane p).block < g.nand_blocks_per_plane
  searched : g.HasPlane s.last_searched_channel.planeOf

theorem cursorsInside_initialize_ftl (g : Geometry) : CursorsInside g (initialize_ftl g) := by
  refine ⟨?_, (first_page_hasPage g).hasPlane⟩
  intro p _
  have hpos := g.blocks_pos
  by_cases h : p = first_page.planeOf
  · subst h
    have hlast : (initialize_ftl g).last_page_per_plane first_page.planeOf =
        { first_page with page := 1 } := by simp [initialize_ftl]
    rw [hlast]
    exact ⟨rfl, hpos⟩
  · have hlast : (initialize_ftl g).last_page_per_plane p = ⟨p.chn, p.die, p.plane, 0, 0⟩ :=
      Function.update_of_ne h ..
    rw [hlast]
    exact ⟨rfl, hpos⟩

theorem CursorsInside.next (h : CursorsInside g s) :
    g.HasPlane (search_cursor g s).planeOf ∧
    (search_cursor g s).planeOf = next_plane g s.last_searched_channel.planeOf ∧
    (search_cursor g s).block < g.nand_blocks_per_plane := by
  have hplane := hasPlane_next_plane h.searched
  obtain ⟨hof, hblock⟩ := h.cursor _ hplane
  exact ⟨hof.symm ▸ hplane, hof, hblock⟩

/-- What one call does. -/
theorem find_free_page_cases (g : Geometry) (s : Ftl) :
    (∃ x, find_in_plane g s (search_cursor g s) g.nand_blocks_per_plane = .ok x ∧
      find_free_page g s = (some x, s.advance x)) ∨
    (∃ x, find_in_plane g s (search_cursor g s) g.nand_blocks_per_plane = .error x ∧
      find_free_page g s = (none, { s with last_searched_channel := x })) := by
  unfold find_free_page search_cursor
  cases hfind : find_in_plane g s
      (s.last_page_per_plane (next_plane g s.last_searched_channel.planeOf))
      g.nand_blocks_per_plane with
  | ok x => exact Or.inl ⟨x, rfl, by simp only [hfind]; rfl⟩
  | error x => exact Or.inr ⟨x, rfl, by simp only [hfind]⟩

theorem CursorsInside.find_free_page {r : Option Ppa} {s' : Ftl} (h : CursorsInside g s)
    (hfind : find_free_page g s = (r, s')) : CursorsInside g s' := by
  obtain ⟨hplane, -, -⟩ := h.next
  rcases find_free_page_cases g s with ⟨x, hx, he⟩ | ⟨x, hx, he⟩
  · rw [he] at hfind
    cases hfind
    have hpage := (is_free_ppa_eq_true.mp (find_in_plane_ok hx).1).1
    refine ⟨?_, hpage.hasPlane⟩
    intro p hp
    by_cases hpx : p = x.planeOf
    · subst hpx
      have hlast : (s.advance x).last_page_per_plane x.planeOf = { x with page := x.page + 1 } :=
        Function.update_self ..
      rw [hlast]
      exact ⟨rfl, hpage.2.2.2.1⟩
    · have hlast : (s.advance x).last_page_per_plane p = s.last_page_per_plane p :=
        Function.update_of_ne hpx ..
      rw [hlast]
      exact h.cursor p hp
  · rw [he] at hfind
    cases hfind
    exact ⟨h.cursor, (planeOf_of_find_in_plane_error hx).symm ▸ hplane⟩

theorem CursorsInside.map_new_page (h : CursorsInside g s) (lpn : Nat) (x : Ppa) :
    CursorsInside g (map_new_page lpn x s) := by
  refine ⟨?_, ?_⟩
  · rw [map_new_page_last_page]
    exact h.cursor
  · rw [map_new_page_last_searched]
    exact h.searched

theorem cursorsInside_run {ops : List (SearchOp g)} {q : Search}
    (h : run searchStep ⟨initialize_ftl g, []⟩ ops = some q) : CursorsInside g q.ftl := by
  refine run_keeps (I := fun q => CursorsInside g q.ftl) ?_ (cursorsInside_initialize_ftl g) h
  intro t op u ht hop
  cases op with
  | find_free_page =>
    simp only [searchStep, Option.ite_none_right_eq_some, Option.some.injEq] at hop
    obtain ⟨-, rfl⟩ := hop
    exact ht.find_free_page rfl
  | map lpn i =>
    obtain ⟨x, -, hu⟩ := Option.map_eq_some_iff.mp hop
    rw [← hu]
    exact ht.map_new_page lpn x

/-! ## The law -/

theorem CursorsInside.findsFreePage (h : CursorsInside g s) (hends : SearchEndsInside g s) :
    FindsFreePage g s := by
  obtain ⟨hplane, hof, hblock⟩ := h.next
  have hfound : ∀ x s', S4Sim.find_free_page g s = (some x, s') →
      x.planeOf = next_plane g s.last_searched_channel.planeOf ∧ g.HasPage x ∧
        s.ppa_table x = FREE_PPA := by
    intro x s' hfind
    rcases find_free_page_cases g s with ⟨y, hy, he⟩ | ⟨y, hy, he⟩
    · rw [he] at hfind
      cases hfind
      obtain ⟨hfree, hyplane⟩ := find_in_plane_ok hy
      exact ⟨hyplane.trans hof, is_free_ppa_eq_true.mp hfree⟩
    · rw [he] at hfind
      cases hfind
  rcases hends with hafter | ⟨hzero, hfull⟩
  · obtain ⟨⟨y, hy⟩, hprobed⟩ := find_in_plane_found (n := g.nand_blocks_per_plane) hplane hblock
      (Nat.le_add_left ..) hafter
    refine ⟨hprobed, hfound, ?_⟩
    intro s' hfind
    rcases find_free_page_cases g s with ⟨z, -, he⟩ | ⟨z, hz, -⟩
    · rw [he] at hfind
      cases hfind
    · rw [hy] at hz
      cases hz
  · have hnot : ¬ FreeAfter g s (search_cursor g s) := by
      rintro ⟨x, hfree, hx, -⟩
      rw [hfull x hx] at hfree
      cases hfree
    refine ⟨(find_in_plane_failed hplane (by omega) hnot).2, hfound, ?_⟩
    intro s' _ x hx hxplane hfree
    have hno := hfull x (hxplane.trans hof.symm)
    rw [is_free_ppa_eq_true.mpr ⟨hx, hfree⟩] at hno
    cases hno

/-- A call that does what it is for ends inside the plane. -/
theorem CursorsInside.searchEndsInside (h : CursorsInside g s) (hfinds : FindsFreePage g s) :
    SearchEndsInside g s := by
  obtain ⟨hplane, hof, hblock⟩ := h.next
  by_cases hafter : FreeAfter g s (search_cursor g s)
  · exact Or.inl hafter
  · have hzero : (search_cursor g s).block = 0 := by
      by_contra hne
      obtain ⟨x, hx, hlast⟩ := probed_behind_the_last_block (n := g.nand_blocks_per_plane) hblock
        (by omega) hafter
      have := (hfinds.in_geometry x hx).2.2.2.1
      omega
    refine Or.inr ⟨hzero, ?_⟩
    intro x hx
    obtain ⟨⟨y, hy⟩, -⟩ := find_in_plane_failed hplane (n := g.nand_blocks_per_plane) (by omega)
      hafter
    rcases find_free_page_cases g s with ⟨z, hz, -⟩ | ⟨z, -, he⟩
    · rw [hy] at hz
      cases hz
    · by_contra hfree
      obtain ⟨hpage, hword⟩ := is_free_ppa_eq_true.mp (Bool.not_eq_false _ ▸ hfree)
      exact hfinds.failed _ he x hpage (hx.trans hof) hword

/-- In every state of every run, the next call does what it is for exactly when its search
ends inside the plane. -/
theorem a_search_is_right_iff_it_ends_inside {ops : List (SearchOp g)} {q : Search}
    (h : run searchStep ⟨initialize_ftl g, []⟩ ops = some q) :
    FindsFreePage g q.ftl ↔ SearchEndsInside g q.ftl :=
  ⟨(cursorsInside_run h).searchEndsInside, (cursorsInside_run h).findsFreePage⟩

/-- The next `n` free pages of the small device are returned and mapped in turn. -/
def findAndMap (n : Nat) : List (SearchOp twoChannels) :=
  (List.range n).flatMap fun i => [.find_free_page, .map ⟨i % 12, Nat.mod_lt _ (by decide)⟩ i]

/-- Five pages are mapped, and the cursor of the first plane is at the end of its first block:
the sixth search finds a page in the second one. -/
theorem a_search_is_right_after_five_mappings :
    ∃ q, run searchStep ⟨initialize_ftl twoChannels, []⟩ (findAndMap 5) = some q ∧
      FindsFreePage twoChannels q.ftl := by
  have hrun : (run searchStep ⟨initialize_ftl twoChannels, []⟩ (findAndMap 5)).map (fun q =>
      (search_cursor twoChannels q.ftl, is_free_ppa twoChannels q.ftl ⟨0, 0, 0, 1, 0⟩)) =
      some (⟨0, 0, 0, 0, 3⟩, true) := by decide +kernel
  obtain ⟨q, hq, hfacts⟩ := Option.map_eq_some_iff.mp hrun
  obtain ⟨hcursor, hfree⟩ := Prod.mk.inj hfacts
  refine ⟨q, hq, (a_search_is_right_iff_it_ends_inside hq).mpr (Or.inl ?_)⟩
  rw [hcursor]
  exact ⟨_, hfree, rfl, Or.inl Nat.one_pos⟩

/-- Both planes are full after eleven pages, and the search of the next one goes on behind its
last block. -/
theorem a_search_of_a_full_plane_leaves_the_geometry :
    ¬ ∀ (ops : List (SearchOp twoChannels)) (q : Search),
      run searchStep ⟨initialize_ftl twoChannels, []⟩ ops = some q →
        FindsFreePage twoChannels q.ftl := by
  intro hall
  have hrun : (run searchStep ⟨initialize_ftl twoChannels, []⟩ (findAndMap 11)).map
      (fun q => decide (ProbesInGeometry twoChannels q.ftl)) = some false := by decide +kernel
  obtain ⟨q, hq, hprobes⟩ := Option.map_eq_some_iff.mp hrun
  exact of_decide_eq_false hprobes (hall _ q hq).in_geometry

end S4Sim
