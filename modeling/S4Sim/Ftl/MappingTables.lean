-- The laws of the two mapping tables: in every state of every run they are
-- inverse maps, no two LPNs share a page, and the old page of a remapped LPN is
-- invalid for good.
import S4Sim.Ftl.PageSteps

open Relation Runs

namespace S4Sim

variable {g : Geometry} {s : Ftl} {a : Nat}

theorem Good.valid_page (h : Good g s a) {x : Ppa} (hx : g.HasPage x)
    (hv : s.is_valid_ppa x = true) :
    s.ppa_table x < g.total_num_of_pages ∧ s.is_unmapped_lpa (s.ppa_table x) = false ∧
      s.lpa_table (s.ppa_table x) = x := by
  have hlt := (h.words x hx).isLpn_iff.mp hv
  have hback := h.inverse.lpn x hx hlt
  refine ⟨hlt, ?_, hback⟩
  unfold Ftl.is_unmapped_lpa
  rw [hback]
  simpa using hx.chn_ne

/-- No two LPNs are mapped to one page. -/
theorem Inverse.lpa_table_inj (h : Inverse g s) {l l' : Nat} (hl : l < g.total_num_of_pages)
    (hl' : l' < g.total_num_of_pages) (hm : s.is_unmapped_lpa l = false)
    (hm' : s.is_unmapped_lpa l' = false) (he : s.lpa_table l = s.lpa_table l') : l = l' := by
  rw [← (h.mapped l hl hm).2, he, (h.mapped l' hl' hm').2]

/-! ## The old page of a remapped LPN -/

/-- The page is the page of the LPN, or it is invalid. -/
def KeptOrInvalid (s : Ftl) (lpn : Nat) (x : Ppa) : Prop :=
  s.lpa_table lpn = x ∨ s.ppa_table x = INVALID_PPA

theorem invalid_stays {p q : Ftl × Nat} {y : Ppa} (hstep : PageStep g p q) (h : Good g p.1 p.2)
    (hy : p.1.ppa_table y = INVALID_PPA) : q.1.ppa_table y = INVALID_PPA := by
  cases hstep with
  | @map s a lpn x ha hx hnum hlpn =>
    have hyx : y ≠ x := by
      rintro rfl
      rw [h.word_free hx hnum] at hy
      exact absurd hy (by decide)
    rw [map_new_page_word _ _ _ hyx]
    split
    · rfl
    · exact hy
  | @reserve s a i x ha hx hnum =>
    by_cases hyx : y = x
    · subst hyx
      simp
    · simpa [Function.update_of_ne hyx] using hy

theorem keptOrInvalid_step {p q : Ftl × Nat} {lpn : Nat} {y : Ppa} (hstep : PageStep g p q)
    (h : Good g p.1 p.2) (hy : g.HasPage y) (hk : KeptOrInvalid p.1 lpn y) :
    KeptOrInvalid q.1 lpn y := by
  rcases hk with hlpa | hinv
  · cases hstep with
    | @map s a l x ha hx hnum hl =>
      by_cases hll : lpn = l
      · -- The LPN is remapped, so its old page is set invalid.
        subst hll
        right
        have hm : s.is_unmapped_lpa lpn = false := by
          unfold Ftl.is_unmapped_lpa
          rw [hlpa]
          simpa using hy.chn_ne
        have hyx : y ≠ x := hlpa ▸ h.mapped_ne hx hnum hl hm
        rw [map_new_page_word _ _ _ hyx, if_pos ⟨hm, hlpa.symm⟩]
      · left
        rw [map_new_page_lpa_table, Function.update_of_ne hll]
        exact hlpa
    | reserve ha hx hnum => exact Or.inl hlpa
  · exact Or.inr (invalid_stays hstep h hinv)

theorem keptOrInvalid_pages {p q : Ftl × Nat} {lpn : Nat} {y : Ppa}
    (hsteps : ReflTransGen (PageStep g) p q) (h : Good g p.1 p.2) (hy : g.HasPage y)
    (hk : KeptOrInvalid p.1 lpn y) : KeptOrInvalid q.1 lpn y := by
  induction hsteps with
  | refl => exact hk
  | tail hpre hstep ih => exact keptOrInvalid_step hstep (good_pages h hpre) hy ih

/-! ## The law -/

/-- The tables are inverse maps after every run. A page that an LPN once had is
still its page, or it is invalid after any further run. -/
theorem the_mapping_tables_are_inverse_maps {ops : List (FtlOp g)}
    (h : run ftlStep (initialize_ftl g) ops = some s) :
    (∀ lpn < g.total_num_of_pages, s.is_unmapped_lpa lpn = false →
      g.HasPage (s.lpa_table lpn) ∧ s.ppa_table (s.lpa_table lpn) = lpn) ∧
    (∀ x, g.HasPage x → s.is_valid_ppa x = true →
      s.ppa_table x < g.total_num_of_pages ∧ s.is_unmapped_lpa (s.ppa_table x) = false ∧
        s.lpa_table (s.ppa_table x) = x) ∧
    (∀ l < g.total_num_of_pages, ∀ l' < g.total_num_of_pages, s.is_unmapped_lpa l = false →
      s.is_unmapped_lpa l' = false → s.lpa_table l = s.lpa_table l' → l = l') ∧
    (∀ (more : List (FtlOp g)) (s' : Ftl), run ftlStep s more = some s' →
      ∀ lpn < g.total_num_of_pages, s.is_unmapped_lpa lpn = false →
        s'.lpa_table lpn ≠ s.lpa_table lpn → s'.ppa_table (s.lpa_table lpn) = INVALID_PPA) := by
  have hgood := run_good h
  refine ⟨hgood.inverse.mapped, fun x hx hv => hgood.valid_page hx hv,
    fun l hl l' hl' hm hm' => hgood.inverse.lpa_table_inj hl hl' hm hm', ?_⟩
  intro more s' hmore lpn hlpn hm hne
  have hsteps := run_pages (p := (s, pagesTaken ops)) hgood hmore
  have hpage := (hgood.inverse.mapped lpn hlpn hm).1
  rcases keptOrInvalid_pages hsteps hgood hpage (Or.inl rfl) with hkept | hinv
  · exact absurd hkept hne
  · exact hinv

theorem the_mapping_tables_are_inverse_maps_after_a_remap :
    ∃ s : Ftl,
      run (ftlStep (g := twoChannels)) (initialize_ftl twoChannels)
        [.make_new_mapping ⟨0, by decide⟩, .make_new_mapping ⟨0, by decide⟩] = some s ∧
      s.is_unmapped_lpa 0 = false ∧ s.ppa_table (s.lpa_table 0) = 0 := by
  obtain ⟨s, hs⟩ := (a_run_returns_while_pages_are_left (g := twoChannels)
    [.make_new_mapping ⟨0, by decide⟩, .make_new_mapping ⟨0, by decide⟩]).mpr (by decide)
  have hm : s.is_unmapped_lpa 0 = false := by
    cases hs
    rfl
  exact ⟨s, hs, hm, ((the_mapping_tables_are_inverse_maps hs).1 0 (by decide) hm).2⟩

end S4Sim
