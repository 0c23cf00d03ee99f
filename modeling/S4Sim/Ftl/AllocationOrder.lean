-- The order in which the allocator hands out pages. Each page has a number:
-- the planes in channel, die, plane order, and one page further in each plane
-- after every round. `initialize_ftl` leaves page 0 taken, and each call of
-- `find_free_page` hands out the page whose number is next.
import S4Sim.Ftl.Ftl
import S4Sim.Lib.Digits

open Digits

namespace S4Sim

/-! ## The number of a page -/

namespace Geometry

variable (g : Geometry)

def planeIndex (p : Plane) : Nat :=
  g.nand_num_chn * (g.dies_per_channel * p.plane + p.die) + p.chn

/-- The place of an address in its plane. It is also defined for the page index
one past the last, which a full block leaves in `last_page_per_plane`. -/
def offset (x : Ppa) : Nat := g.nand_pages_per_block * x.block + x.page

def number (x : Ppa) : Nat := g.total_num_of_planes * g.offset x + g.planeIndex x.planeOf

variable {g}

theorem planeIndex_lt {p : Plane} (h : g.HasPlane p) : g.planeIndex p < g.total_num_of_planes := by
  obtain ⟨hc, hd, hp⟩ := h
  rw [g.total_num_of_planes_eq]
  exact (digits_lt_iff hc).mpr ((digits_lt_iff hd).mpr hp)

theorem planeIndex_inj {p q : Plane} (hp : g.HasPlane p) (hq : g.HasPlane q)
    (h : g.planeIndex p = g.planeIndex q) : p = q := by
  obtain ⟨hpc, hpd, _⟩ := hp
  obtain ⟨hqc, hqd, _⟩ := hq
  obtain ⟨hrow, hchn⟩ := digits_inj hpc hqc h
  obtain ⟨hplane, hdie⟩ := digits_inj hpd hqd hrow
  cases p
  cases q
  simp_all

theorem number_mod {x : Ppa} (h : g.HasPlane x.planeOf) :
    g.number x % g.total_num_of_planes = g.planeIndex x.planeOf := digits_mod (planeIndex_lt h)

theorem number_inj {x y : Ppa} (hx : g.HasPage x) (hy : g.HasPage y)
    (h : g.number x = g.number y) : x = y := by
  obtain ⟨hoff, hindex⟩ := digits_inj (planeIndex_lt hx.hasPlane) (planeIndex_lt hy.hasPlane) h
  have hplane := planeIndex_inj hx.hasPlane hy.hasPlane hindex
  obtain ⟨hblock, hpage⟩ := digits_inj hx.2.2.2.2 hy.2.2.2.2 hoff
  cases x
  cases y
  simp_all [Ppa.planeOf]

theorem number_lt_iff {x : Ppa} (hplane : g.HasPlane x.planeOf)
    (hpage : x.page < g.nand_pages_per_block) :
    g.number x < g.total_num_of_pages ↔ x.block < g.nand_blocks_per_plane := by
  have hoff : g.offset x < g.pages_per_plane ↔ x.block < g.nand_blocks_per_plane := by
    unfold pages_per_plane
    rw [Nat.mul_comm g.nand_blocks_per_plane]
    exact digits_lt_iff hpage
  rw [← hoff, g.total_num_of_pages_eq, Nat.mul_comm g.pages_per_plane]
  exact digits_lt_iff (planeIndex_lt hplane)

/-- An address with a page index in range is a page of the array when its
number is below the number of pages. -/
theorem hasPage_of_number_lt {x : Ppa} (hplane : g.HasPlane x.planeOf)
    (hpage : x.page < g.nand_pages_per_block) (h : g.number x < g.total_num_of_pages) :
    g.HasPage x :=
  ⟨hplane.1, hplane.2.1, hplane.2.2, (number_lt_iff hplane hpage).mp h, hpage⟩

theorem number_lt {x : Ppa} (h : g.HasPage x) : g.number x < g.total_num_of_pages :=
  (number_lt_iff h.hasPlane h.2.2.2.2).mpr h.2.2.2.1

end Geometry

/-! ## The next plane -/

section NextPlane

variable {g : Geometry} {p : Plane}

theorem hasPlane_next_plane (h : g.HasPlane p) : g.HasPlane (next_plane g p) := by
  obtain ⟨hc, hd, hp⟩ := h
  have := g.chn_pos
  have := g.dies_per_channel_pos
  have := g.planes_pos
  unfold next_plane
  split
  · split
    · split
      · exact ⟨by simpa, by simpa, by simpa⟩
      · exact ⟨by simpa, by simpa, by simp; omega⟩
    · exact ⟨by simpa, by simp; omega, hp⟩
  · exact ⟨by simp; omega, hd, hp⟩

/-- The search goes to the plane that is next in order, and from the last
plane back to the first. -/
theorem planeIndex_next_plane (h : g.HasPlane p) :
    g.planeIndex (next_plane g p) = (g.planeIndex p + 1) % g.total_num_of_planes := by
  obtain ⟨hc, hd, hp⟩ := h
  have hlt := Geometry.planeIndex_lt (hasPlane_next_plane ⟨hc, hd, hp⟩)
  unfold next_plane at hlt ⊢
  unfold Geometry.planeIndex at hlt ⊢
  -- The carries of the mixed radix number, one `split` for each digit.
  split
  · have hchn : p.chn + 1 = g.nand_num_chn := by omega
    have hcarry : g.nand_num_chn * (g.dies_per_channel * p.plane + p.die) + p.chn + 1 =
        g.nand_num_chn * (g.dies_per_channel * p.plane + (p.die + 1)) := by
      rw [← Nat.add_assoc _ p.die, Nat.mul_succ]
      omega
    rw [hcarry]
    split
    · have hdie : p.die + 1 = g.dies_per_channel := by omega
      rw [hdie, ← Nat.mul_succ]
      split
      · have hplane : p.plane + 1 = g.nand_planes_per_die := by omega
        rw [Nat.succ_eq_add_one, hplane, ← g.total_num_of_planes_eq, Nat.mod_self]
        simp
      · rename_i h1 h2 h3
        simp only [h1, h2, h3, if_true, if_false, Nat.add_zero] at hlt
        rw [Nat.mod_eq_of_lt hlt]
        rfl
    · rename_i h1 h2
      simp only [h1, h2, if_true, if_false, Nat.add_zero] at hlt
      rw [Nat.mod_eq_of_lt hlt]
      rfl
  · rename_i h1
    simp only [h1, if_false, ← Nat.add_assoc] at hlt
    rw [Nat.mod_eq_of_lt hlt]
    rfl

end NextPlane

/-! ## The cursors -/

/-- The memory after `find_free_page` returned a page. -/
def Ftl.advance (s : Ftl) (x : Ppa) : Ftl :=
  let i_ppa : Ppa := { x with page := x.page + 1 }
  { s with
    ftl_config := { s.ftl_config with last_selected_ppa := i_ppa }
    last_searched_channel := i_ppa
    last_page_per_plane := Function.update s.last_page_per_plane i_ppa.planeOf i_ppa }

@[simp] theorem Ftl.advance_lpa_table (s : Ftl) (x : Ppa) :
    (s.advance x).lpa_table = s.lpa_table := rfl

@[simp] theorem Ftl.advance_ppa_table (s : Ftl) (x : Ppa) :
    (s.advance x).ppa_table = s.ppa_table := rfl

@[simp] theorem Ftl.advance_blk_table (s : Ftl) (x : Ppa) :
    (s.advance x).blk_table = s.blk_table := rfl

/-- The allocator has handed out the pages below `a`. The cursor of each plane
stands at the one page of its plane with a number in `[a, a + T)`, for `T`
planes, and the next search starts at the plane of page `a`. -/
structure Cursors (g : Geometry) (s : Ftl) (a : Nat) : Prop where
  next_page : ∀ p, g.HasPlane p →
    (s.last_page_per_plane p).planeOf = p ∧
    (s.last_page_per_plane p).page ≤ g.nand_pages_per_block ∧
    a ≤ g.number (s.last_page_per_plane p) ∧
    g.number (s.last_page_per_plane p) < a + g.total_num_of_planes
  searched : g.HasPlane s.last_searched_channel.planeOf ∧
    (g.planeIndex s.last_searched_channel.planeOf + 1) % g.total_num_of_planes =
      a % g.total_num_of_planes

/-- The free pages are those from number `a` on. -/
def FreeFrom (g : Geometry) (s : Ftl) (a : Nat) : Prop :=
  ∀ x, g.HasPage x → (s.ppa_table x = FREE_PPA ↔ a ≤ g.number x)

section Search

variable {g : Geometry} {s : Ftl} {a : Nat} {x : Ppa}

/-- Both indices follow the same rule, so the cursor of the next plane stands
at page `a`. -/
theorem Cursors.number_next (h : Cursors g s a) :
    g.number (s.last_page_per_plane (next_plane g s.last_searched_channel.planeOf)) = a := by
  obtain ⟨hsearched, hindex⟩ := h.searched
  have hplane := hasPlane_next_plane hsearched
  obtain ⟨hp, -, hle, hlt⟩ := h.next_page _ hplane
  have hmod := Geometry.number_mod (g := g) (hp.symm ▸ hplane)
  rw [hp, planeIndex_next_plane hsearched, hindex] at hmod
  generalize g.number _ = n at hle hlt hmod
  -- `n` is in `[a, a + T)` and has the residue of `a`.
  obtain ⟨d, rfl⟩ := Nat.exists_eq_add_of_le hle
  have hd : d % g.total_num_of_planes = 0 := by
    have := (Nat.ModEq.add_left_cancel' a (show a + d ≡ a + 0 [MOD _] from hmod))
    exact this
  rw [Nat.mod_eq_of_lt (by omega)] at hd
  omega

theorem is_free_ppa_iff (hx : g.HasPage x) (hfree : FreeFrom g s a) :
    is_free_ppa g s x = true ↔ a ≤ g.number x := by
  unfold is_free_ppa
  simp [hx, hfree x hx]

theorem find_in_block_of_free {n : Nat} (h : is_free_ppa g s x = true) :
    find_in_block g s x (n + 1) = some x := by
  unfold find_in_block
  rw [if_pos h]

/-- The search of a plane ends at once, or after the step out of a full
block. -/
theorem find_in_plane_at {c : Ppa} (hfree : FreeFrom g s a) (hplane : g.HasPlane c.planeOf)
    (hpage : c.page ≤ g.nand_pages_per_block) (hnum : g.number c = a)
    (ha : a < g.total_num_of_pages) :
    ∃ x, g.HasPage x ∧ g.number x = a ∧ x.planeOf = c.planeOf ∧
      find_in_plane g s c g.nand_blocks_per_plane = .ok x := by
  obtain ⟨n, hn⟩ := Nat.exists_eq_succ_of_ne_zero (Nat.ne_of_gt g.blocks_pos)
  rcases Nat.lt_or_ge c.page g.nand_pages_per_block with hlt | hge
  · have hc : g.HasPage c := Geometry.hasPage_of_number_lt hplane hlt (hnum ▸ ha)
    refine ⟨c, hc, hnum, rfl, ?_⟩
    obtain ⟨m, hm⟩ := Nat.exists_eq_add_of_lt hlt
    rw [hn]
    unfold find_in_plane
    rw [show g.nand_pages_per_block - c.page = m + 1 by omega,
      find_in_block_of_free ((is_free_ppa_iff hc hfree).mpr hnum.ge)]
  · have hfull : c.page = g.nand_pages_per_block := by omega
    -- The address after the full block has the same number.
    have hsame : g.number { c with block := c.block + 1, page := 0 } = a := by
      rw [← hnum]
      unfold Geometry.number Geometry.offset
      rw [hfull, Nat.add_zero, Nat.mul_succ]
      rfl
    have hx : g.HasPage { c with block := c.block + 1, page := 0 } :=
      Geometry.hasPage_of_number_lt hplane g.pages_pos (hsame ▸ ha)
    have hblock : c.block + 1 < g.nand_blocks_per_plane := hx.2.2.2.1
    refine ⟨_, hx, hsame, rfl, ?_⟩
    have hnext : next_block g c = { c with block := c.block + 1, page := 0 } := by
      unfold next_block
      rw [if_neg (by omega)]
    obtain ⟨k, hk⟩ := Nat.exists_eq_succ_of_ne_zero (show n ≠ 0 by omega)
    obtain ⟨w, hw⟩ := Nat.exists_eq_succ_of_ne_zero (Nat.ne_of_gt g.pages_pos)
    rw [hn, hk]
    unfold find_in_plane
    rw [hfull, Nat.sub_self]
    simp only [find_in_block, hnext, find_in_plane, Nat.sub_zero]
    rw [hw, find_in_block_of_free ((is_free_ppa_iff hx hfree).mpr hsame.ge)]

/-- With a page left, `find_free_page` hands out page `a`. -/
theorem find_free_page_spec (hc : Cursors g s a) (hfree : FreeFrom g s a)
    (ha : a < g.total_num_of_pages) :
    ∃ x, g.HasPage x ∧ g.number x = a ∧ find_free_page g s = (some x, s.advance x) := by
  have hplane := hasPlane_next_plane hc.searched.1
  obtain ⟨hp, hpage, -, -⟩ := hc.next_page _ hplane
  obtain ⟨x, hx, hnum, -, hfind⟩ :=
    find_in_plane_at hfree (hp.symm ▸ hplane) hpage hc.number_next ha
  refine ⟨x, hx, hnum, ?_⟩
  unfold find_free_page
  simp only [hfind]
  rfl

theorem get_free_ppa_spec (hc : Cursors g s a) (hfree : FreeFrom g s a)
    (ha : a < g.total_num_of_pages) (n : Nat) :
    ∃ x, g.HasPage x ∧ g.number x = a ∧ get_free_ppa g s (n + 1) = some (x, s.advance x) := by
  obtain ⟨x, hx, hnum, hfind⟩ := find_free_page_spec hc hfree ha
  refine ⟨x, hx, hnum, ?_⟩
  unfold get_free_ppa
  rw [hfind]

theorem Cursors.advance (hc : Cursors g s a) (hx : g.HasPage x) (hnum : g.number x = a) :
    Cursors g (s.advance x) (a + 1) := by
  obtain ⟨hnext, -, hindex⟩ := hc
  have hmod := Geometry.number_mod hx.hasPlane
  refine ⟨?_, hx.hasPlane, ?_⟩
  · intro p hp
    obtain ⟨hpp, hpage, hle, hlt⟩ := hnext p hp
    by_cases h : p = x.planeOf
    · -- The cursor of the plane goes one page on, by the number of planes.
      subst h
      have hon : g.number { x with page := x.page + 1 } = a + g.total_num_of_planes := by
        rw [← hnum]
        unfold Geometry.number Geometry.offset
        rw [← Nat.add_assoc, Nat.mul_succ]
        simp only [Ppa.planeOf]
        omega
      have hpos := g.total_num_of_planes_pos
      have hw := hx.2.2.2.2
      have hlast : (s.advance x).last_page_per_plane x.planeOf = { x with page := x.page + 1 } :=
        Function.update_self ..
      rw [hlast, hon]
      exact ⟨rfl, hw, by omega, by omega⟩
    · have hlast : (s.advance x).last_page_per_plane p = s.last_page_per_plane p :=
        Function.update_of_ne h ..
      rw [hlast]
      refine ⟨hpp, hpage, ?_, by omega⟩
      -- Another plane's cursor has another residue, so it is not page `a`.
      have hne : g.number (s.last_page_per_plane p) ≠ a := by
        intro he
        have hmod' := Geometry.number_mod (g := g) (hpp.symm ▸ hp)
        rw [he, ← hnum, hmod, hpp] at hmod'
        exact h (Geometry.planeIndex_inj hp hx.hasPlane hmod'.symm)
      omega
  · show (g.planeIndex x.planeOf + 1) % g.total_num_of_planes = _
    rw [← hmod, hnum, Nat.mod_add_mod]

/-! ## A device without free pages -/

theorem find_in_block_none (hfull : ∀ y, g.HasPage y → s.ppa_table y ≠ FREE_PPA) (y : Ppa)
    (n : Nat) : find_in_block g s y n = none := by
  induction n generalizing y with
  | zero => rfl
  | succ n ih =>
    have hy : is_free_ppa g s y = false := by
      unfold is_free_ppa
      by_cases h : g.HasPage y <;> simp [h, hfull]
    unfold find_in_block
    rw [if_neg (by simp [hy])]
    exact ih _

theorem find_in_plane_none (hfull : ∀ y, g.HasPage y → s.ppa_table y ≠ FREE_PPA) (y : Ppa)
    (n : Nat) : ∃ z, find_in_plane g s y n = .error z := by
  induction n generalizing y with
  | zero => exact ⟨y, rfl⟩
  | succ n ih =>
    unfold find_in_plane
    rw [find_in_block_none hfull]
    exact ih _

/-- `get_free_ppa` on a device without a free page does not return, after any
number of calls. -/
theorem get_free_ppa_spins (hfull : ∀ y, g.HasPage y → s.ppa_table y ≠ FREE_PPA) (n : Nat) :
    get_free_ppa g s n = none := by
  induction n generalizing s with
  | zero => rfl
  | succ n ih =>
    obtain ⟨z, hz⟩ := find_in_plane_none hfull
      (s.last_page_per_plane (next_plane g s.last_searched_channel.planeOf)) g.nand_blocks_per_plane
    have hfind : find_free_page g s = (none, { s with last_searched_channel := z }) := by
      unfold find_free_page
      simp only [hz]
    unfold get_free_ppa
    rw [hfind]
    exact ih hfull

/-- What a call that returns did: a page was left, and it is page `a`. -/
theorem get_free_ppa_cases {n : Nat} {s' : Ftl} (hc : Cursors g s a) (hfree : FreeFrom g s a)
    (h : get_free_ppa g s n = some (x, s')) :
    a < g.total_num_of_pages ∧ g.HasPage x ∧ g.number x = a ∧ s' = s.advance x := by
  have ha : a < g.total_num_of_pages := by
    by_contra hge
    have hfull : ∀ y, g.HasPage y → s.ppa_table y ≠ FREE_PPA := by
      intro y hy hf
      have := (hfree y hy).mp hf
      have := Geometry.number_lt hy
      omega
    rw [get_free_ppa_spins hfull] at h
    cases h
  cases n with
  | zero => cases h
  | succ n =>
    obtain ⟨y, hy, hnum, hget⟩ := get_free_ppa_spec hc hfree ha n
    rw [hget] at h
    cases h
    exact ⟨ha, hy, hnum, rfl⟩

end Search

/-! ## The state after initialize_ftl -/

theorem first_page_hasPage (g : Geometry) : g.HasPage first_page :=
  ⟨g.chn_pos, g.dies_per_channel_pos, g.planes_pos, g.blocks_pos, g.pages_pos⟩

theorem number_first_page (g : Geometry) : g.number first_page = 0 := by
  simp [Geometry.number, Geometry.offset, Geometry.planeIndex, first_page, Ppa.planeOf]

theorem cursors_initialize_ftl (g : Geometry) : Cursors g (initialize_ftl g) 1 := by
  have hx := first_page_hasPage g
  have hpos := g.total_num_of_planes_pos
  refine ⟨?_, hx.hasPlane, ?_⟩
  · intro p hp
    by_cases h : p = first_page.planeOf
    · subst h
      have hlast : (initialize_ftl g).last_page_per_plane first_page.planeOf =
          { first_page with page := 1 } := by simp [initialize_ftl]
      have hone : g.number { first_page with page := 1 } = g.total_num_of_planes := by
        simp [Geometry.number, Geometry.offset, Geometry.planeIndex, first_page, Ppa.planeOf]
      rw [hlast, hone]
      exact ⟨rfl, g.pages_pos, by omega, by omega⟩
    · have hlast : (initialize_ftl g).last_page_per_plane p = ⟨p.chn, p.die, p.plane, 0, 0⟩ :=
        Function.update_of_ne h ..
      have hnum : g.number ⟨p.chn, p.die, p.plane, 0, 0⟩ = g.planeIndex p := by
        simp [Geometry.number, Geometry.offset, Ppa.planeOf]
      have hlt := Geometry.planeIndex_lt hp
      have hne : g.planeIndex p ≠ 0 := by
        intro h0
        refine h (Geometry.planeIndex_inj hp hx.hasPlane ?_)
        rw [h0]
        simp [Geometry.planeIndex, first_page, Ppa.planeOf]
      rw [hlast, hnum]
      exact ⟨rfl, by simp, by omega, by omega⟩
  · have : g.planeIndex (initialize_ftl g).last_searched_channel.planeOf = 0 := by
      simp [initialize_ftl, Geometry.planeIndex, first_page, Ppa.planeOf]
    rw [this]

theorem freeFrom_initialize_ftl (g : Geometry) : FreeFrom g (initialize_ftl g) 1 := by
  intro x hx
  by_cases h : x = first_page
  · subst h
    have hword : (initialize_ftl g).ppa_table first_page = RESERVED_PPA := by
      simp [initialize_ftl, Ftl.set_reserved_ppa, Ftl.inc_valid_pages, Ftl.setBlock]
    rw [hword, number_first_page]
    simp [RESERVED_PPA, FREE_PPA]
  · have hword : (initialize_ftl g).ppa_table x = FREE_PPA := Function.update_of_ne h ..
    have hne : g.number x ≠ 0 := by
      intro h0
      exact h (Geometry.number_inj hx (first_page_hasPage g) (h0.trans (number_first_page g).symm))
    simp only [hword, true_iff]
    omega

end S4Sim
