-- Striping: the pages that the allocator returns go round the planes, channels first,
-- then dies, then planes, and each plane is filled block after block. The number of a
-- page has its plane as the low digit and its place in the plane as the high digit.
import S4Sim.Ftl.Allocations
import Mathlib.Data.Int.CardIntervalMod
import Mathlib.Data.List.Rotate

open Digits Runs

namespace S4Sim

section Order

variable (g : Geometry)

/-- The planes of the device: the channels first, then the dies, then the planes. -/
def stripe : List Plane :=
  (List.range g.nand_planes_per_die).flatMap fun plane =>
    (List.range g.dies_per_channel).flatMap fun die =>
      (List.range g.nand_num_chn).map fun chn => ⟨chn, die, plane⟩

/-- The pages of a plane: the blocks in order, the pages of each block in order. -/
def pagesOf (p : Plane) : List Ppa :=
  (List.range g.nand_blocks_per_plane).flatMap fun block =>
    (List.range g.nand_pages_per_block).map fun page => ⟨p.chn, p.die, p.plane, block, page⟩

/-- The pages of a plane among those that were returned. -/
def returnedIn (p : Plane) (xs : List Ppa) : List Ppa := xs.filter fun x => x.planeOf = p

/-- The pages of a plane that `initialize_ftl` takes. -/
def takenFirst (p : Plane) : Nat := if p = first_page.planeOf then 1 else 0

/-- The pages are striped over the planes. -/
structure Striped (xs : List Ppa) : Prop where
  /-- One round of calls goes through the planes in order, from the plane that is next. -/
  round : ∀ i, i + g.total_num_of_planes ≤ xs.length →
    ((xs.drop i).take g.total_num_of_planes).map Ppa.planeOf = (stripe g).rotate (i + 1)
  once : ∀ i, i + g.total_num_of_planes ≤ xs.length → ∀ p, g.HasPlane p →
    (((xs.drop i).take g.total_num_of_planes).map Ppa.planeOf).count p = 1
  level : ∀ p q, g.HasPlane p → g.HasPlane q →
    (returnedIn p xs).length ≤ (returnedIn q xs).length + 1
  /-- The pages of a plane are the first ones that `initialize_ftl` left, in order. -/
  in_order : ∀ p, g.HasPlane p →
    returnedIn p xs = ((pagesOf g p).drop (takenFirst p)).take (returnedIn p xs).length

end Order

variable {g : Geometry} {s : Ftl} {x : Ppa} {xs : List Ppa} {p : Plane} {i n : Nat}

/-! ## The planes in order -/

/-- The plane with an index. -/
def planeAt (g : Geometry) (n : Nat) : Plane :=
  ⟨n % g.nand_num_chn, n / g.nand_num_chn % g.dies_per_channel,
    n / g.nand_num_chn / g.dies_per_channel⟩

theorem planeAt_planeIndex (h : g.HasPlane p) : planeAt g (g.planeIndex p) = p := by
  obtain ⟨hc, hd, -⟩ := h
  unfold planeAt Geometry.planeIndex
  rw [digits_mod hc, digits_div hc, digits_mod hd, digits_div hd]

theorem planeIndex_planeAt (g : Geometry) (n : Nat) : g.planeIndex (planeAt g n) = n := by
  unfold planeAt Geometry.planeIndex
  rw [Nat.div_add_mod, Nat.div_add_mod]

theorem stripe_eq (g : Geometry) :
    stripe g = (List.range g.total_num_of_planes).map (planeAt g) := by
  have hdies : ∀ plane, ((List.range g.dies_per_channel).flatMap fun die =>
      (List.range g.nand_num_chn).map fun chn => (⟨chn, die, plane⟩ : Plane)) =
      (List.range (g.nand_num_chn * g.dies_per_channel)).map fun k =>
        ⟨k % g.nand_num_chn, k / g.nand_num_chn, plane⟩ :=
    fun plane => range_flatMap_range fun die chn => (⟨chn, die, plane⟩ : Plane)
  unfold stripe
  simp only [hdies]
  rw [range_flatMap_range fun plane k => (⟨k % g.nand_num_chn, k / g.nand_num_chn, plane⟩ : Plane),
    g.total_num_of_planes_eq, Nat.mul_assoc]
  refine List.map_congr_left fun k _ => ?_
  unfold planeAt
  rw [Nat.mod_mul_right_mod, Nat.mod_mul_right_div_self, Nat.div_div_eq_div_mul]

theorem stripe_length (g : Geometry) : (stripe g).length = g.total_num_of_planes := by
  rw [stripe_eq, List.length_map, List.length_range]

theorem stripe_nodup (g : Geometry) : (stripe g).Nodup := by
  rw [stripe_eq]
  refine List.nodup_range.map_on fun i _ j _ h => ?_
  rw [← planeIndex_planeAt g i, h, planeIndex_planeAt]

theorem mem_stripe : p ∈ stripe g ↔ g.HasPlane p := by
  obtain ⟨chn, die, plane⟩ := p
  simp only [stripe, List.mem_flatMap, List.mem_map, List.mem_range, Plane.mk.injEq]
  constructor
  · rintro ⟨_, hp, _, hd, _, hc, rfl, rfl, rfl⟩
    exact ⟨hc, hd, hp⟩
  · rintro ⟨hc, hd, hp⟩
    exact ⟨plane, hp, die, hd, chn, hc, rfl, rfl, rfl⟩

theorem pagesOf_eq (g : Geometry) (p : Plane) :
    pagesOf g p = (List.range (g.nand_pages_per_block * g.nand_blocks_per_plane)).map fun k =>
      ⟨p.chn, p.die, p.plane, k / g.nand_pages_per_block, k % g.nand_pages_per_block⟩ :=
  range_flatMap_range fun block page => (⟨p.chn, p.die, p.plane, block, page⟩ : Ppa)

/-- The place of a page in its plane is its offset. -/
theorem pagesOf_offset (h : g.HasPage x) : (pagesOf g x.planeOf)[g.offset x]? = some x := by
  have hlt : g.offset x < g.nand_pages_per_block * g.nand_blocks_per_plane :=
    (digits_lt_iff h.2.2.2.2).mpr h.2.2.2.1
  rw [pagesOf_eq, List.getElem?_map, List.getElem?_range hlt]
  unfold Geometry.offset
  simp only [Option.map_some, digits_div h.2.2.2.2, digits_mod h.2.2.2.2]
  rfl

/-! ## The pages in order -/

theorem Numbered.plane (h : Numbered g xs) (hi : i < xs.length) :
    xs[i].planeOf = planeAt g ((i + 1) % g.total_num_of_planes) := by
  have hpage := h.page _ (List.getElem_mem hi)
  have hnum : g.number xs[i] = i + 1 := by
    have hmap : (xs.map g.number)[i]? = some (i + 1) := by
      rw [h.numbers, List.getElem?_range' hi, Nat.one_mul, Nat.add_comm]
    rw [List.getElem?_map, List.getElem?_eq_getElem hi] at hmap
    exact Option.some.inj hmap
  rw [← hnum, Geometry.number_mod hpage.hasPlane, planeAt_planeIndex hpage.hasPlane]

theorem Numbered.round (h : Numbered g xs) (hi : i + g.total_num_of_planes ≤ xs.length) :
    ((xs.drop i).take g.total_num_of_planes).map Ppa.planeOf = (stripe g).rotate (i + 1) := by
  have hlen : ((xs.drop i).take g.total_num_of_planes).length = g.total_num_of_planes := by
    rw [List.length_take_of_le]
    rw [List.length_drop]
    omega
  refine List.ext_getElem (by simp [stripe_length]; omega) fun k hk hk' => ?_
  rw [List.length_map, hlen] at hk
  rw [List.getElem_rotate]
  simp only [List.getElem_map, List.getElem_take, List.getElem_drop, stripe_length]
  rw [h.plane (by omega)]
  simp only [stripe_eq, List.getElem_map, List.getElem_range]
  rw [show i + k + 1 = k + (i + 1) by omega]

/-! ## The pages of one plane -/

theorem returnedIn_snoc (p : Plane) (xs : List Ppa) (x : Ppa) :
    returnedIn p (xs ++ [x]) = returnedIn p xs ++ if x.planeOf = p then [x] else [] := by
  unfold returnedIn
  rw [List.filter_append]
  by_cases h : x.planeOf = p <;> simp [h]

/-- A page is in a plane when its number has the index of the plane as its low digit. -/
theorem planeOf_iff (hx : g.HasPage x) (hp : g.HasPlane p) :
    x.planeOf = p ↔ g.number x ≡ g.planeIndex p [MOD g.total_num_of_planes] := by
  have hmod : g.number x ≡ g.planeIndex p [MOD g.total_num_of_planes] ↔
      g.planeIndex x.planeOf = g.planeIndex p := by
    unfold Nat.ModEq
    rw [Geometry.number_mod hx.hasPlane, Nat.mod_eq_of_lt (Geometry.planeIndex_lt hp)]
  rw [hmod]
  exact ⟨fun h => by rw [h], Geometry.planeIndex_inj hx.hasPlane hp⟩

/-- The pages of a plane that are taken are the numbers with its index as the low digit. -/
theorem Numbered.returned_count (h : Numbered g xs) (hp : g.HasPlane p) :
    (returnedIn p xs).length + takenFirst p =
      (xs.length + 1).count (· ≡ g.planeIndex p [MOD g.total_num_of_planes]) := by
  induction xs using List.reverseRecOn with
  | nil =>
    have hfirst := planeOf_iff (first_page_hasPage g) hp
    rw [number_first_page] at hfirst
    rw [List.length_nil, Nat.count_succ, Nat.count_zero]
    simp only [← hfirst, eq_comm (b := p)]
    simp [returnedIn, takenFirst]
  | append_singleton xs x ih =>
    obtain ⟨hxs, hx, hnum⟩ := numbered_snoc.mp h
    have hplane := planeOf_iff hx hp
    rw [hnum] at hplane
    rw [List.length_append, List.length_singleton, Nat.count_succ, ← ih hxs, returnedIn_snoc,
      List.length_append]
    simp only [← hplane]
    split
    · rw [List.length_singleton]
      omega
    · rw [List.length_nil]
      omega

/-- How many pages of a plane are taken: one for each round, and one more when the round
under way has passed the plane. -/
theorem Numbered.returned (h : Numbered g xs) (hp : g.HasPlane p) :
    (returnedIn p xs).length + takenFirst p = (xs.length + 1) / g.total_num_of_planes +
      if g.planeIndex p < (xs.length + 1) % g.total_num_of_planes then 1 else 0 := by
  rw [h.returned_count hp, Nat.count_modEq_card _ g.total_num_of_planes_pos,
    Nat.mod_eq_of_lt (Geometry.planeIndex_lt hp)]

theorem takenFirst_eq (hp : g.HasPlane p) : takenFirst p = if g.planeIndex p = 0 then 1 else 0 := by
  have hzero : g.planeIndex first_page.planeOf = 0 := by
    simp [Geometry.planeIndex, first_page, Ppa.planeOf]
  have hiff : p = first_page.planeOf ↔ g.planeIndex p = 0 :=
    ⟨fun h => h ▸ hzero, fun h =>
      Geometry.planeIndex_inj hp (first_page_hasPage g).hasPlane (h.trans hzero.symm)⟩
  simp only [takenFirst, hiff]

theorem Numbered.level {q : Plane} (h : Numbered g xs) (hp : g.HasPlane p) (hq : g.HasPlane q) :
    (returnedIn p xs).length ≤ (returnedIn q xs).length + 1 := by
  have hcp := h.returned hp
  have hcq := h.returned hq
  rw [takenFirst_eq hp] at hcp
  rw [takenFirst_eq hq] at hcq
  -- The first plane has lost one page, but each round starts with it.
  split at hcp <;> split at hcp <;> split at hcq <;> split at hcq <;> omega

/-- The place in its plane of the next page that is returned. -/
theorem Numbered.offset_next (h : Numbered g xs) (hx : g.HasPage x)
    (hnum : g.number x = xs.length + 1) :
    g.offset x = takenFirst x.planeOf + (returnedIn x.planeOf xs).length := by
  have hlt := Geometry.planeIndex_lt hx.hasPlane
  have hdiv : g.number x / g.total_num_of_planes = g.offset x := digits_div hlt
  have hmod : g.number x % g.total_num_of_planes = g.planeIndex x.planeOf := digits_mod hlt
  have hreturned := h.returned hx.hasPlane
  rw [← hnum, hdiv, hmod, if_neg (Nat.lt_irrefl _)] at hreturned
  omega

theorem Numbered.in_order (h : Numbered g xs) (p : Plane) :
    returnedIn p xs =
      ((pagesOf g p).drop (takenFirst p)).take (returnedIn p xs).length := by
  induction xs using List.reverseRecOn with
  | nil => simp [returnedIn]
  | append_singleton xs x ih =>
    obtain ⟨hxs, hx, hnum⟩ := numbered_snoc.mp h
    rw [returnedIn_snoc]
    split
    · rename_i hplane
      subst hplane
      have hnext : ((pagesOf g x.planeOf).drop (takenFirst x.planeOf))[(returnedIn x.planeOf
          xs).length]? = some x := by
        rw [List.getElem?_drop, ← hxs.offset_next hx hnum, pagesOf_offset hx]
      rw [List.length_append, List.length_singleton, List.take_add_one, ← ih hxs, hnext]
      rfl
    · rw [List.append_nil]
      exact ih hxs

/-! ## The law -/

theorem Numbered.striped (h : Numbered g xs) : Striped g xs := by
  refine ⟨fun i hi => h.round hi, ?_, fun p q hp hq => h.level hp hq, fun p _ => h.in_order p⟩
  intro i hi p hp
  have hround := h.round hi
  rw [hround, (List.rotate_perm (stripe g) (i + 1)).count_eq]
  exact List.count_eq_one_of_mem (stripe_nodup g) (mem_stripe.mpr hp)

/-- Every run of the allocator stripes its pages over the planes. -/
theorem every_run_of_the_allocator_is_striped (h : Allocated g xs s) : Striped g xs :=
  h.inTurn.toNumbered.striped

/-- Five mappings on the small device go to its two planes in turn. -/
theorem five_mappings_are_striped :
    ∃ xs s, Allocated twoChannels xs s ∧ xs.length = 5 ∧ Striped twoChannels xs := by
  obtain ⟨s, hs⟩ := (a_run_returns_while_pages_are_left (g := twoChannels)
    (List.replicate 5 (.make_new_mapping ⟨0, by decide⟩))).mpr (by decide)
  obtain ⟨xs, hxs, hlen⟩ := allocated_run hs
  exact ⟨xs, s, hxs, Nat.succ_injective (hlen.trans (by decide)),
    every_run_of_the_allocator_is_striped hxs⟩

end S4Sim
