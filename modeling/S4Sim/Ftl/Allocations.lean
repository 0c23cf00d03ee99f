-- Runs of the allocator alone. The callers of `get_free_ppa` mark the page that it
-- returns before the next call, mapped or INVALID. The pages come in the order of
-- their numbers, so no page before a cursor is free.
import S4Sim.Ftl.PageSteps

open Relation Runs

namespace S4Sim

/-! ## Runs of the allocator -/

/-- The state `u` is the state `t` with page `x` marked: mapped to an LPN, or INVALID. No
other page becomes free or stops being free, and the cursors stay. -/
structure Marked (g : Geometry) (x : Ppa) (t u : Ftl) : Prop where
  word : isLpn (u.ppa_table x) = true ∨ u.ppa_table x = INVALID_PPA
  others : ∀ y, g.HasPage y → y ≠ x → (u.ppa_table y = FREE_PPA ↔ t.ppa_table y = FREE_PPA)
  last_page : u.last_page_per_plane = t.last_page_per_plane
  searched : u.last_searched_channel = t.last_searched_channel

/-- The pages that `get_free_ppa` returned since `initialize_ftl`, and the state after the
last of them is marked. A call may take any number of calls of `find_free_page`. -/
inductive Allocated (g : Geometry) : List Ppa → Ftl → Prop
  | nil : Allocated g [] (initialize_ftl g)
  | snoc {xs : List Ppa} {s t u : Ftl} {x : Ppa} {calls : Nat} : Allocated g xs s →
      get_free_ppa g s calls = some (x, t) → Marked g x t u → Allocated g (xs ++ [x]) u

variable {g : Geometry} {s t u : Ftl} {x : Ppa} {xs : List Ppa} {a i lpn : Nat}

/-! ## The marks of the code -/

theorem marked_reserve_page : Marked g x t (reserve_page i x t) := by
  refine ⟨Or.inr ?_, fun y _ hy => ?_, rfl, rfl⟩
  · simp
  · rw [reserve_page_ppa_table, Function.update_of_ne hy]

/-- `make_new_mapping` also makes the old page of the LPN INVALID, which was not free. -/
theorem marked_map_new_page (h : Good g s a) (hlpn : lpn < g.total_num_of_pages) :
    Marked g x (s.advance x) (map_new_page lpn x (s.advance x)) := by
  refine ⟨Or.inl ?_, fun y hy hyx => ?_, map_new_page_last_page .., map_new_page_last_searched ..⟩
  · rw [map_new_page_word_self]
    exact Geometry.isLpn_of_lt_total hlpn
  · rw [map_new_page_word _ _ _ hyx]
    split
    · rename_i hc
      obtain ⟨-, hw⟩ := h.inverse.mapped lpn hlpn hc.1
      have hold : (s.advance x).ppa_table y = lpn := by
        rw [hc.2]
        exact hw
      rw [hold]
      exact ⟨fun hf => absurd hf (by decide), fun hf => absurd hf (g.lpn_ne hlpn).1⟩
    · rfl

/-! ## The invariant -/

/-- The pages have the numbers from 1 on. -/
structure Numbered (g : Geometry) (xs : List Ppa) : Prop where
  page : ∀ x ∈ xs, g.HasPage x
  numbers : xs.map g.number = List.range' 1 xs.length

/-- The pages have the numbers from 1 on, and the next page has the next number. -/
structure InTurn (g : Geometry) (xs : List Ppa) (s : Ftl) : Prop extends Numbered g xs where
  cursors : Cursors g s (xs.length + 1)
  free : FreeFrom g s (xs.length + 1)

theorem numbered_snoc :
    Numbered g (xs ++ [x]) ↔ Numbered g xs ∧ g.HasPage x ∧ g.number x = xs.length + 1 := by
  have hlen : List.range' 1 (xs ++ [x]).length = List.range' 1 xs.length ++ [xs.length + 1] := by
    rw [List.length_append, List.range'_append_1.symm]
    simp [Nat.add_comm 1]
  constructor
  · rintro ⟨hpage, hnum⟩
    rw [List.map_append, hlen] at hnum
    obtain ⟨hold, hnew⟩ := List.append_inj' hnum rfl
    simp only [List.map_cons, List.map_nil, List.cons.injEq, and_true] at hnew
    exact ⟨⟨fun y hy => hpage y (List.mem_append_left _ hy), hold⟩, hpage x (by simp), hnew⟩
  · rintro ⟨⟨hpage, hnum⟩, hx, hnew⟩
    refine ⟨fun y hy => ?_, ?_⟩
    · rcases List.mem_append.mp hy with hold | hlast
      · exact hpage y hold
      · rwa [List.mem_singleton.mp hlast]
    · rw [List.map_append, hlen, hnum]
      simp [hnew]

theorem Marked.not_free (h : Marked g x t u) : u.ppa_table x ≠ FREE_PPA := by
  rcases h.word with hlpn | hinv
  · intro hfree
    rw [hfree] at hlpn
    exact absurd hlpn (by decide)
  · rw [hinv]
    decide

theorem Allocated.inTurn (h : Allocated g xs s) : InTurn g xs s := by
  induction h with
  | nil => exact ⟨⟨nofun, rfl⟩, cursors_initialize_ftl g, freeFrom_initialize_ftl g⟩
  | @snoc xs s t u x calls _ hget hmark ih =>
    obtain ⟨-, hx, hnum, rfl⟩ := get_free_ppa_cases ih.cursors ih.free hget
    refine ⟨numbered_snoc.mpr ⟨ih.toNumbered, hx, hnum⟩, ?_, fun y hy => ?_⟩
    · rw [List.length_append]
      exact cursors_congr (ih.cursors.advance hx hnum) hmark.last_page hmark.searched
    · rw [List.length_append]
      by_cases hyx : y = x
      · subst hyx
        simp only [hmark.not_free, List.length_singleton, false_iff]
        omega
      · rw [hmark.others y hy hyx, Ftl.advance_ppa_table, ih.free y hy]
        exact free_iff_succ hy hx hnum hyx

/-! ## Runs of the FTL are runs of the allocator -/

theorem Allocated.step {p q : Ftl × Nat} (h : Allocated g xs p.1) (hgood : Good g p.1 p.2)
    (hlen : xs.length + 1 = p.2) (hstep : PageStep g p q) :
    ∃ x, Allocated g (xs ++ [x]) q.1 ∧ (xs ++ [x]).length + 1 = q.2 := by
  -- The call returns the page with the next number, which is the page of the step.
  have hget : ∀ {s : Ftl} {a : Nat} {x : Ppa}, Good g s a → a < g.total_num_of_pages →
      g.HasPage x → g.number x = a → get_free_ppa g s 1 = some (x, s.advance x) := by
    intro s a x hgood ha hx hnum
    obtain ⟨y, hy, hnumy, hget⟩ := get_free_ppa_spec hgood.cursors hgood.free ha 0
    rwa [Geometry.number_inj hy hx (hnumy.trans hnum.symm)] at hget
  have hlen' : ∀ x, (xs ++ [x]).length + 1 = p.2 + 1 := by simp [hlen]
  cases hstep with
  | map ha hx hnum hlpn =>
    exact ⟨_, .snoc h (hget hgood ha hx hnum) (marked_map_new_page hgood hlpn), hlen' _⟩
  | reserve ha hx hnum =>
    exact ⟨_, .snoc h (hget hgood ha hx hnum) marked_reserve_page, hlen' _⟩

/-- Every run of the FTL is one of the allocator, with one page for each page step. -/
theorem allocated_run {ops : List (FtlOp g)} (h : run ftlStep (initialize_ftl g) ops = some s) :
    ∃ xs, Allocated g xs s ∧ xs.length + 1 = pagesTaken ops := by
  have hsteps := run_pages (p := (initialize_ftl g, 1)) (good_initialize_ftl g) h
  have hall : ∀ {p q : Ftl × Nat}, ReflTransGen (PageStep g) p q → Good g p.1 p.2 →
      (∃ xs, Allocated g xs p.1 ∧ xs.length + 1 = p.2) →
      ∃ xs, Allocated g xs q.1 ∧ xs.length + 1 = q.2 := by
    intro p q hsteps hgood hp
    induction hsteps with
    | refl => exact hp
    | tail hrest hstep ih =>
      obtain ⟨xs, hxs, hlen⟩ := ih
      obtain ⟨x, hx, hlenx⟩ := hxs.step (good_pages hgood hrest) hlen hstep
      exact ⟨_, hx, hlenx⟩
  exact hall hsteps (good_initialize_ftl g) ⟨[], .nil, rfl⟩

/-! ## The law -/

/-- While a page is free, `get_free_ppa` returns one after at most one call of
`find_free_page` for each plane. -/
theorem a_free_page_is_found_within_one_call_a_plane (h : Allocated g xs s)
    (hfree : ∃ y, g.HasPage y ∧ s.ppa_table y = FREE_PPA) :
    ∃ x t, get_free_ppa g s g.total_num_of_planes = some (x, t) ∧ g.HasPage x ∧
      s.ppa_table x = FREE_PPA := by
  obtain ⟨y, hy, hword⟩ := hfree
  have hturn := h.inTurn
  have hleft : xs.length + 1 < g.total_num_of_pages :=
    ((hturn.free y hy).mp hword).trans_lt (Geometry.number_lt hy)
  have hpos := g.total_num_of_planes_pos
  obtain ⟨x, hx, hnum, hget⟩ :=
    get_free_ppa_spec hturn.cursors hturn.free hleft (g.total_num_of_planes - 1)
  rw [Nat.sub_add_cancel hpos] at hget
  exact ⟨x, _, hget, hx, (hturn.free x hx).mpr hnum.ge⟩

/-- Ten of the eleven pages of the small device are mapped, and the last one is found. -/
theorem the_last_free_page_is_found :
    ∃ xs s, Allocated twoChannels xs s ∧ xs.length = 10 ∧
      ∃ x t, get_free_ppa twoChannels s twoChannels.total_num_of_planes = some (x, t) ∧
        twoChannels.HasPage x ∧ s.ppa_table x = FREE_PPA := by
  obtain ⟨s, hs⟩ := (a_run_returns_while_pages_are_left (g := twoChannels)
    (List.replicate 10 (.make_new_mapping ⟨0, by decide⟩))).mpr (by decide)
  obtain ⟨xs, hxs, hlen⟩ := allocated_run hs
  have hlen : xs.length = 10 := Nat.succ_injective (hlen.trans (by decide))
  refine ⟨xs, s, hxs, hlen, a_free_page_is_found_within_one_call_a_plane hxs ?_⟩
  refine ⟨⟨1, 0, 0, 1, 2⟩, by decide, (hxs.inTurn.free _ (by decide)).mpr ?_⟩
  rw [hlen]
  decide

end S4Sim
