-- Progress in runs of several threads. A measure that no step raises, and that the thread
-- whose turn it is lowers, brings each fair run to the goal: a run of rounds in which every
-- thread takes a step.
import S4Sim.Lib.Run

open Runs

namespace Fairness

variable {σ α τ : Type*} {step : σ → α → Option σ}

/-- Every thread takes a step. An action of no thread is one of the surroundings. -/
def FairRound (thread : α → Option τ) (acts : List α) : Prop :=
  ∀ t, ∃ a ∈ acts, thread a = some t

/-- The run passes a state with the property. -/
def Passes (step : σ → α → Option σ) (s : σ) (acts : List α) (goal : σ → Prop) : Prop :=
  ∃ pre t, pre <+: acts ∧ run step s pre = some t ∧ goal t

/-- The step brings the goal, or less work, or leaves the work and the turn to a thread that
has not moved. `Waits s n t`: in the state `s` there is the work `n`, and it is the turn of `t`. -/
def StepHelps (thread : α → Option τ) (Waits : σ → ℕ → τ → Prop) (goal : σ → Prop) (n : ℕ)
    (t : τ) (a : α) (u : σ) : Prop :=
  goal u ∨ ∃ n' t', Waits u n' t' ∧ (n' < n ∨ n' = n ∧ t' = t ∧ thread a ≠ some t)

section Rule

variable {thread : α → Option τ} {Waits : σ → ℕ → τ → Prop} {goal : σ → Prop}
  {ok : σ → α → Prop} {s t u : σ} {a : α} {acts acts' : List α} {n : ℕ} {th : τ}

theorem Passes.start (h : goal s) : Passes step s acts goal :=
  ⟨[], s, List.nil_prefix, rfl, h⟩

theorem Passes.cons (hstep : step s a = some t) (h : Passes step t acts goal) :
    Passes step s (a :: acts) goal := by
  obtain ⟨pre, v, hpre, hrun, hgoal⟩ := h
  refine ⟨a :: pre, v, (List.prefix_cons_inj a).mpr hpre, ?_, hgoal⟩
  rw [run_cons, hstep]
  exact hrun

theorem Passes.append_right (h : Passes step s acts goal) : Passes step s (acts ++ acts') goal := by
  obtain ⟨pre, v, hpre, hrun, hgoal⟩ := h
  exact ⟨pre, v, hpre.trans (List.prefix_append _ _), hrun, hgoal⟩

theorem Passes.append_left (hrun : run step s acts = some t) (h : Passes step t acts' goal) :
    Passes step s (acts ++ acts') goal := by
  obtain ⟨pre, v, hpre, hv, hgoal⟩ := h
  refine ⟨acts ++ pre, v, (List.prefix_append_right_inj acts).mpr hpre, ?_, hgoal⟩
  rw [run_append, hrun]
  exact hv

/-- Part of a round: the work is less, or the thread whose turn it is has not moved. -/
theorem run_waits
    (hhelps : ∀ s n t a u, Waits s n t → ok s a → step s a = some u →
      StepHelps thread Waits goal n t a u)
    (hs : Waits s n th) (hok : AllSteps step ok s acts) (hrun : run step s acts = some u) :
    Passes step s acts goal ∨ ∃ n' th', Waits u n' th' ∧
      (n' < n ∨ n' = n ∧ th' = th ∧ ∀ a ∈ acts, thread a ≠ some th) := by
  induction acts generalizing s n th with
  | nil =>
    cases hrun
    exact Or.inr ⟨n, th, hs, Or.inr ⟨rfl, rfl, by simp⟩⟩
  | cons a rest ih =>
    obtain ⟨v, hv, hrest⟩ := Option.bind_eq_some_iff.mp hrun
    rcases hhelps s n th a v hs hok.1 hv with hgoal | ⟨n1, th1, hw, hcase⟩
    · exact Or.inl (Passes.cons hv (Passes.start hgoal))
    · rcases ih hw (hok.2 v hv) hrest with hpass | ⟨n2, th2, hw2, hcase2⟩
      · exact Or.inl (hpass.cons hv)
      · refine Or.inr ⟨n2, th2, hw2, ?_⟩
        rcases hcase with hlt | ⟨rfl, rfl, hne⟩
        · left
          rcases hcase2 with hlt2 | ⟨rfl, -, -⟩
          · omega
          · exact hlt
        · rcases hcase2 with hlt2 | ⟨rfl, rfl, hall⟩
          · exact Or.inl hlt2
          · refine Or.inr ⟨rfl, rfl, fun b hb => ?_⟩
            rcases List.mem_cons.mp hb with rfl | hb
            · exact hne
            · exact hall b hb

/-- The rule of progress: a fair run with more rounds than work passes the goal. -/
theorem fair_run_passes
    (hhelps : ∀ s n t a u, Waits s n t → ok s a → step s a = some u →
      StepHelps thread Waits goal n t a u)
    {rounds : List (List α)} (hfair : ∀ r ∈ rounds, FairRound thread r)
    (hs : Waits s n th) (hlen : n < rounds.length)
    (hok : AllSteps step ok s rounds.flatten) (hrun : run step s rounds.flatten = some u) :
    Passes step s rounds.flatten goal := by
  induction rounds generalizing s n th with
  | nil => simp at hlen
  | cons r rest ih =>
    rw [List.flatten_cons] at hok hrun ⊢
    obtain ⟨v, hv, hrest⟩ := run_append_eq_some.mp hrun
    obtain ⟨hokr, hokrest⟩ := allSteps_append.mp hok
    rcases run_waits hhelps hs hokr hv with hpass | ⟨n', th', hw, hcase⟩
    · exact hpass.append_right
    · rcases hcase with hlt | ⟨-, -, hall⟩
      · rw [List.length_cons] at hlen
        exact (ih (fun r hr => hfair r (List.mem_cons_of_mem _ hr)) hw (by omega)
          (hokrest v hv) hrest).append_left hv
      · obtain ⟨a, ha, hth⟩ := hfair r List.mem_cons_self th
        exact absurd hth (hall a ha)

end Rule

end Fairness
