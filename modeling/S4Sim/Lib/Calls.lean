-- Components whose calls all return a result. A component stands in for another one when
-- a relation between their states survives each call and gives both calls the same
-- result. When the relation survives only the calls that meet a condition, the condition
-- is a part of the law.
import Mathlib.Data.List.Induction

namespace Calls

variable {σ τ α ρ : Type*}

/-- The state after the calls, which are listed oldest first. -/
def callAll (call : σ → α → ρ × σ) (s : σ) (calls : List α) : σ :=
  calls.foldl (fun s a => (call s a).2) s

/-- The results of the calls, oldest first. -/
def results (call : σ → α → ρ × σ) (s : σ) : List α → List ρ
  | [] => []
  | a :: rest => (call s a).1 :: results call (call s a).2 rest

/-- Each call is made in a state that meets `ok`. -/
def AllCalls (call : σ → α → ρ × σ) (ok : σ → α → Prop) (s : σ) : List α → Prop
  | [] => True
  | a :: rest => ok s a ∧ AllCalls call ok (call s a).2 rest

variable {call : σ → α → ρ × σ} {spec : τ → α → ρ × τ} {ok : σ → α → Prop} {s : σ} {t : τ}
  {calls : List α} {a : α}

@[simp] theorem callAll_nil : callAll call s [] = s := rfl

@[simp] theorem results_nil : results call s [] = [] := rfl

theorem callAll_cons : callAll call s (a :: calls) = callAll call (call s a).2 calls := rfl

theorem callAll_snoc : callAll call s (calls ++ [a]) = (call (callAll call s calls) a).2 := by
  simp [callAll]

theorem results_snoc :
    results call s (calls ++ [a]) =
      results call s calls ++ [(call (callAll call s calls) a).1] := by
  induction calls generalizing s with
  | nil => rfl
  | cons b calls ih =>
    rw [List.cons_append, results, ih, callAll_cons]
    rfl

theorem allCalls_snoc :
    AllCalls call ok s (calls ++ [a]) ↔ AllCalls call ok s calls ∧ ok (callAll call s calls) a := by
  induction calls generalizing s with
  | nil => simp [AllCalls]
  | cons b calls ih =>
    rw [List.cons_append, AllCalls, ih, AllCalls, callAll_cons, and_assoc]

/-! ## Two components with the same results -/

/-- The rule for calls that meet a condition. -/
theorem agree_of_ok {R : σ → τ → Prop}
    (hstep : ∀ s t a, R s t → ok s a → (call s a).1 = (spec t a).1 ∧ R (call s a).2 (spec t a).2)
    (h : R s t) (hok : AllCalls call ok s calls) :
    results call s calls = results spec t calls ∧
      R (callAll call s calls) (callAll spec t calls) := by
  induction calls using List.reverseRecOn with
  | nil => exact ⟨rfl, h⟩
  | append_singleton calls a ih =>
    obtain ⟨hpre, hlast⟩ := allCalls_snoc.mp hok
    obtain ⟨hres, hrel⟩ := ih hpre
    obtain ⟨hsame, hnext⟩ := hstep _ _ a hrel hlast
    rw [results_snoc, results_snoc, callAll_snoc, callAll_snoc, hres, hsame]
    exact ⟨rfl, hnext⟩

theorem allCalls_true : AllCalls call (fun _ _ => True) s calls := by
  induction calls generalizing s with
  | nil => trivial
  | cons a calls ih => exact ⟨trivial, ih⟩

/-- The rule for any calls. -/
theorem agree {R : σ → τ → Prop}
    (hstep : ∀ s t a, R s t → (call s a).1 = (spec t a).1 ∧ R (call s a).2 (spec t a).2)
    (h : R s t) :
    results call s calls = results spec t calls ∧ R (callAll call s calls) (callAll spec t calls) :=
  agree_of_ok (fun s t a hR _ => hstep s t a hR) h allCalls_true

/-- When a call that does not meet the condition breaks a property of the two states, the
property holds after each call exactly if all calls meet the condition. -/
theorem allCalls_iff_forall_prefix {R P : σ → τ → Prop}
    (hstep : ∀ s t a, R s t → ok s a → R (call s a).2 (spec t a).2)
    (hgood : ∀ s t, R s t → P s t)
    (hbad : ∀ s t a, R s t → ¬ ok s a → ¬ P (call s a).2 (spec t a).2) (h : R s t) :
    AllCalls call ok s calls ↔
      ∀ pre, pre <+: calls → P (callAll call s pre) (callAll spec t pre) := by
  induction calls generalizing s t with
  | nil =>
    refine iff_of_true trivial fun pre hpre => ?_
    rw [List.prefix_nil.mp hpre]
    exact hgood s t h
  | cons a rest ih =>
    constructor
    · rintro ⟨ha, hrest⟩ pre hpre
      rcases List.prefix_cons_iff.mp hpre with rfl | ⟨pre', rfl, hpre'⟩
      · exact hgood s t h
      · exact (ih (hstep s t a h ha)).mp hrest pre' hpre'
    · intro hall
      have ha : ok s a := by
        by_contra hno
        exact hbad s t a h hno (hall [a] (by simp))
      refine ⟨ha, (ih (hstep s t a h ha)).mpr fun pre hpre => ?_⟩
      exact hall (a :: pre) ((List.prefix_cons_inj a).mpr hpre)

/-- Two conditions hold of the same calls when they agree in the states of an invariant, and
each call that meets the second one keeps it. -/
theorem allCalls_congr {P : σ → α → Prop} {I : σ → Prop} (hiff : ∀ s a, I s → (P s a ↔ ok s a))
    (hstep : ∀ s a, I s → ok s a → I (call s a).2) (h : I s) :
    AllCalls call P s calls ↔ AllCalls call ok s calls := by
  induction calls generalizing s with
  | nil => exact Iff.rfl
  | cons a rest ih =>
    unfold AllCalls
    rw [hiff s a h]
    exact and_congr_right fun ha => ih (hstep s a h ha)

end Calls
