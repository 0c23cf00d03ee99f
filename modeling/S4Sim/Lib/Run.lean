-- Runs of a partial step function over a list of actions, oldest first. A
-- law of a run comes from what one step keeps, by induction on the last
-- action. `AllSteps` says that each step of a run meets a condition.
import Mathlib.Data.List.Induction
import Mathlib.Data.Option.Basic

namespace Runs

variable {σ α : Type*}

/-- The state after the actions, or `none` when a step does not return. -/
def run (step : σ → α → Option σ) (s : σ) (acts : List α) : Option σ :=
  acts.foldlM step s

@[simp] theorem run_nil (step : σ → α → Option σ) (s : σ) : run step s [] = some s := rfl

@[simp] theorem run_cons (step : σ → α → Option σ) (s : σ) (a : α) (rest : List α) :
    run step s (a :: rest) = (step s a).bind fun t => run step t rest := rfl

theorem run_append (step : σ → α → Option σ) (s : σ) (l r : List α) :
    run step s (l ++ r) = (run step s l).bind fun t => run step t r := by
  induction l generalizing s with
  | nil => rfl
  | cons a l ih =>
    simp only [List.cons_append, run_cons]
    cases step s a with
    | none => rfl
    | some t => exact ih t

theorem run_snoc_eq_some {step : σ → α → Option σ} {s u : σ} {acts : List α} {a : α} :
    run step s (acts ++ [a]) = some u ↔ ∃ t, run step s acts = some t ∧ step t a = some u := by
  rw [run_append]
  cases run step s acts with
  | none => simp
  | some t =>
    simp only [Option.bind_some, run_cons, run_nil, Option.some.injEq, exists_eq_left']
    cases step t a <;> simp

theorem run_append_eq_some {step : σ → α → Option σ} {s u : σ} {l r : List α} :
    run step s (l ++ r) = some u ↔ ∃ t, run step s l = some t ∧ run step t r = some u := by
  rw [run_append]
  cases run step s l <;> simp

/-! ## What every run keeps -/

/-- A property of the actions so far and of the state holds after every run
when it holds at the start and each step keeps it. -/
theorem run_invariant {step : σ → α → Option σ} {s : σ} {I : List α → σ → Prop}
    (hinit : I [] s)
    (hstep : ∀ acts t a u, run step s acts = some t → I acts t → step t a = some u →
      I (acts ++ [a]) u) :
    ∀ {acts u}, run step s acts = some u → I acts u := by
  intro acts
  induction acts using List.reverseRecOn with
  | nil =>
    intro u hu
    cases hu
    exact hinit
  | append_singleton acts a ih =>
    intro u hu
    obtain ⟨t, ht, ha⟩ := run_snoc_eq_some.mp hu
    exact hstep acts t a u ht (ih ht) ha

/-- The same rule for a property of the state alone, from any first state
that has it. -/
theorem run_keeps {step : σ → α → Option σ} {I : σ → Prop}
    (hstep : ∀ t a u, I t → step t a = some u → I u) {s u : σ} {acts : List α}
    (hs : I s) (hu : run step s acts = some u) : I u :=
  run_invariant (I := fun _ t => I t) hs (fun _ t a u _ ht ha => hstep t a u ht ha) hu

/-! ## Runs whose steps all meet a condition -/

/-- Each step of the run meets `ok`. -/
def AllSteps (step : σ → α → Option σ) (ok : σ → α → Prop) (s : σ) : List α → Prop
  | [] => True
  | a :: rest => ok s a ∧ ∀ t, step s a = some t → AllSteps step ok t rest

instance decidableAllSteps (step : σ → α → Option σ) (ok : σ → α → Prop)
    [∀ s a, Decidable (ok s a)] : (s : σ) → (acts : List α) → Decidable (AllSteps step ok s acts)
  | _, [] => inferInstanceAs (Decidable True)
  | s, a :: rest =>
    match h : step s a with
    | none => decidable_of_iff (ok s a) (by simp [AllSteps, h])
    | some t =>
      have := decidableAllSteps step ok t rest
      decidable_of_iff (ok s a ∧ AllSteps step ok t rest) (by simp [AllSteps, h])

theorem allSteps_append {step : σ → α → Option σ} {ok : σ → α → Prop} {s : σ} {l r : List α} :
    AllSteps step ok s (l ++ r) ↔
      AllSteps step ok s l ∧ ∀ t, run step s l = some t → AllSteps step ok t r := by
  induction l generalizing s with
  | nil => simp [AllSteps]
  | cons a l ih =>
    simp only [List.cons_append, AllSteps, run_cons, and_assoc]
    refine and_congr_right fun _ => ?_
    cases step s a with
    | none => simp
    | some t => simpa using ih

theorem allSteps_snoc {step : σ → α → Option σ} {ok : σ → α → Prop} {s : σ} {acts : List α}
    {a : α} :
    AllSteps step ok s (acts ++ [a]) ↔
      AllSteps step ok s acts ∧ ∀ t, run step s acts = some t → ok t a := by
  rw [allSteps_append]
  simp [AllSteps]

theorem allSteps_of_forall {step : σ → α → Option σ} {ok : σ → α → Prop} {s : σ} {acts : List α}
    (h : ∀ a ∈ acts, ∀ t, ok t a) : AllSteps step ok s acts := by
  induction acts generalizing s with
  | nil => trivial
  | cons a rest ih =>
    refine ⟨h a List.mem_cons_self s, fun t _ => ?_⟩
    exact ih fun b hb => h b (List.mem_cons_of_mem _ hb)

/-- A run whose steps all meet `ok` keeps what each such step keeps. -/
theorem run_invariant_of_ok {step : σ → α → Option σ} {ok : σ → α → Prop} {s : σ}
    {I : List α → σ → Prop} (hinit : I [] s)
    (hstep : ∀ acts t a u, run step s acts = some t → I acts t → ok t a → step t a = some u →
      I (acts ++ [a]) u) :
    ∀ {acts u}, AllSteps step ok s acts → run step s acts = some u → I acts u := by
  intro acts
  induction acts using List.reverseRecOn with
  | nil =>
    intro u _ hu
    cases hu
    exact hinit
  | append_singleton acts a ih =>
    intro u hok hu
    obtain ⟨t, ht, ha⟩ := run_snoc_eq_some.mp hu
    obtain ⟨hpre, hlast⟩ := allSteps_snoc.mp hok
    exact hstep acts t a u ht (ih hpre ht) (hlast t ht) ha

/-- Each step of such a run also meets what the invariant and `ok` give for one step. -/
theorem allSteps_of_invariant {step : σ → α → Option σ} {ok P : σ → α → Prop} {I : σ → Prop}
    (hstep : ∀ t a u, I t → ok t a → step t a = some u → I u)
    (hP : ∀ t a, I t → ok t a → P t a) {s : σ} {acts : List α} (hs : I s)
    (hok : AllSteps step ok s acts) : AllSteps step P s acts := by
  induction acts generalizing s with
  | nil => trivial
  | cons a rest ih =>
    obtain ⟨ha, hrest⟩ := hok
    exact ⟨hP s a hs ha, fun t ht => ih (hstep s a t hs ha ht) (hrest t ht)⟩

/-- Two conditions hold of the same runs when they agree on each step from the states of an
invariant, and each step that meets one of them keeps it. -/
theorem allSteps_congr_of_invariant {step : σ → α → Option σ} {ok P : σ → α → Prop} {I : σ → Prop}
    (hiff : ∀ t a u, I t → step t a = some u → (ok t a ↔ P t a))
    (hstep : ∀ t a u, I t → ok t a → step t a = some u → I u) {s u : σ} {acts : List α}
    (hs : I s) (hu : run step s acts = some u) :
    AllSteps step ok s acts ↔ AllSteps step P s acts := by
  induction acts generalizing s with
  | nil => exact Iff.rfl
  | cons a rest ih =>
    obtain ⟨t, ht, hrest⟩ := Option.bind_eq_some_iff.mp hu
    unfold AllSteps
    rw [hiff s a t hs ht]
    refine and_congr_right fun ha => forall_congr' fun t' => imp_congr_right fun ht' => ?_
    obtain rfl := Option.some.inj (ht.symm.trans ht')
    exact ih (hstep s a t hs ((hiff s a t hs ht).mpr ha) ht) hrest

/-- Two conditions that agree in the states of an invariant of all steps hold of the same runs,
also of those that end early. -/
theorem allSteps_iff_of_invariant {step : σ → α → Option σ} {ok P : σ → α → Prop} {I : σ → Prop}
    (hiff : ∀ t a, I t → (ok t a ↔ P t a))
    (hstep : ∀ t a u, I t → step t a = some u → I u) {s : σ} {acts : List α} (hs : I s) :
    AllSteps step ok s acts ↔ AllSteps step P s acts := by
  induction acts generalizing s with
  | nil => exact Iff.rfl
  | cons a rest ih =>
    unfold AllSteps
    rw [hiff s a hs]
    exact and_congr_right fun _ => forall_congr' fun t => imp_congr_right fun ht =>
      ih (hstep s a t hs ht)

/-- When a step keeps a property exactly if it meets `ok`, the property holds in every state
that the run passes exactly if all steps meet `ok`. -/
theorem allSteps_iff_forall_prefix {step : σ → α → Option σ} {ok : σ → α → Prop} {I P : σ → Prop}
    (hinv : ∀ t a u, I t → step t a = some u → I u)
    (hiff : ∀ t a u, I t → P t → step t a = some u → (P u ↔ ok t a)) {s u : σ} {acts : List α}
    (hI : I s) (hP : P s) (hu : run step s acts = some u) :
    AllSteps step ok s acts ↔ ∀ pre, pre <+: acts → ∀ t, run step s pre = some t → P t := by
  induction acts generalizing s with
  | nil =>
    refine iff_of_true trivial fun pre hpre t ht => ?_
    obtain rfl := List.prefix_nil.mp hpre
    cases ht
    exact hP
  | cons a rest ih =>
    obtain ⟨t, ht, hrest⟩ := Option.bind_eq_some_iff.mp hu
    constructor
    · rintro ⟨hok, hall⟩ pre hpre t' ht'
      have hPt := (hiff s a t hI hP ht).mpr hok
      rcases List.prefix_cons_iff.mp hpre with rfl | ⟨pre', rfl, hpre'⟩
      · cases ht'
        exact hP
      · rw [run_cons, ht] at ht'
        exact (ih (hinv s a t hI ht) hPt hrest).mp (hall t ht) pre' hpre' t' ht'
    · intro hall
      have hPt := hall [a] (by simp) t (by simp [ht])
      refine ⟨(hiff s a t hI hP ht).mp hPt, fun t' ht' => ?_⟩
      obtain rfl := Option.some.inj (ht.symm.trans ht')
      refine (ih (hinv s a t hI ht) hPt hrest).mpr fun pre hpre t' ht' => ?_
      refine hall (a :: pre) ((List.prefix_cons_inj a).mpr hpre) t' ?_
      rw [run_cons, ht]
      exact ht'

/-- A run whose steps all return, returns. -/
theorem exists_run {step : σ → α → Option σ} {s : σ} {acts : List α}
    (h : AllSteps step (fun s a => ∃ s', step s a = some s') s acts) :
    ∃ u, run step s acts = some u := by
  induction acts generalizing s with
  | nil => exact ⟨s, rfl⟩
  | cons a rest ih =>
    obtain ⟨⟨t, ht⟩, hrest⟩ := h
    rw [run_cons, ht]
    exact ih (hrest t ht)

end Runs
