-- The print lock of util.uart_print.c. A core that finds the device free stores its
-- number and reads it ten times. Each read and each write of `print_request` and each
-- character is a step of its own, and the steps of the cores come in any order. The
-- lock rests on time: a core must store its number before another one has ended its
-- ten reads.
import S4Sim.Lib.Run
import Mathlib.Logic.Function.Basic

open Runs

namespace S4Sim

def DEV_IS_FREE : Nat := 0xf

/-- The number that `get_cpu_id` returns, of two bits. -/
abbrev Cpu := Fin 4

def cpu_string (cpu : Cpu) : List Char := "CORE ".toList ++ [Char.ofNat (48 + cpu)]

/-! ## The cores -/

/-- Where a core is in `_sync_print_`: at the head of its loop, between the read that finds the
device free and the store, in the ten reads, at the characters of its line that are left, or at
those of the text that it prints when it gives up. `string_buffer` is what stands before the NUL. -/
inductive PrintPc
  | idle
  | waiting (string_buffer : List Char) (loop_count : Nat)
  | locking (string_buffer : List Char) (loop_count : Nat)
  | checking (string_buffer : List Char) (loop_count loop_count_2 : Nat)
  | printing (left : List Char)
  | aborting (left : List Char)
  deriving DecidableEq

/-- A core that prints its line, with the lock. -/
def PrintPc.prints : PrintPc → Bool
  | .printing _ => true
  | _ => false

/-- A core between its read and its store. -/
def PrintPc.locks : PrintPc → Bool
  | .locking .. => true
  | _ => false

/-- A core whose number may be in `print_request`. -/
def PrintPc.claims : PrintPc → Bool
  | .checking .. | .printing _ => true
  | _ => false

/-- What a core prints with the lock. -/
def printLine (cpu : Cpu) (string_buffer : List Char) : List Char :=
  "\n ".toList ++ cpu_string cpu ++ " : ".toList ++ string_buffer

def abortLine : List Char := "\n ***ABORT*** \n".toList

/-- `shown` is what the device has printed, each character with whether its core had the lock.
The lines, with their cores, are those that were begun, in this order. They are not in the
source. -/
structure PrintSystem where
  print_request : Nat
  pc : Cpu → PrintPc
  shown : List (Bool × Char)
  lines : List (Cpu × List Char)

inductive PrintAction
  | call (cpu : Cpu) (string_buffer : List Char)
  | step (cpu : Cpu)

namespace PrintSystem

variable (s : PrintSystem) (cpu : Cpu)

def setPc (pc : PrintPc) : PrintSystem := { s with pc := Function.update s.pc cpu pc }

/-- After `init_printing`. -/
def start : PrintSystem := ⟨DEV_IS_FREE, fun _ => .idle, [], []⟩

/-- The next step of a core. A read that finds another number goes back to the head of the loop,
which then does not count up. -/
def coreStep : Option PrintSystem :=
  match s.pc cpu with
  | .idle => none
  | .waiting text n =>
    if n < 20000 then
      if s.print_request = DEV_IS_FREE then some (s.setPc cpu (.locking text n))
      else some (s.setPc cpu (.waiting text (n + 1)))
    else some (s.setPc cpu (.aborting abortLine))
  | .locking text n => some { s.setPc cpu (.checking text n 0) with print_request := cpu }
  | .checking text n k =>
    if s.print_request ≠ cpu then some (s.setPc cpu (.waiting text n))
    else if k + 1 < 10 then some (s.setPc cpu (.checking text n (k + 1)))
    else
      some { s.setPc cpu (.printing (printLine cpu text)) with lines := s.lines ++ [(cpu, text)] }
  | .printing (c :: left) =>
    some { s.setPc cpu (.printing left) with shown := s.shown ++ [(true, c)] }
  | .printing [] => some { s.setPc cpu .idle with print_request := DEV_IS_FREE }
  | .aborting (c :: left) =>
    some { s.setPc cpu (.aborting left) with shown := s.shown ++ [(false, c)] }
  | .aborting [] => some (s.setPc cpu .idle)

end PrintSystem

/-- A call by a core that is in a call already is none. -/
def printStep (s : PrintSystem) : PrintAction → Option PrintSystem
  | .call cpu text => if s.pc cpu = .idle then some (s.setPc cpu (.waiting text 0)) else none
  | .step cpu => s.coreStep cpu

/-! ## The lock -/

namespace PrintSystem

/-- The next step of the core is the last of its ten reads, and it finds its number. -/
def endsReads (s : PrintSystem) (cpu : Cpu) : Bool :=
  match s.pc cpu with
  | .checking _ _ k => s.print_request == cpu && 10 ≤ k + 1
  | _ => false

/-- A core ends its reads only when no other one is between its read and its store. -/
def Prompt (s : PrintSystem) : PrintAction → Prop
  | .call .. => True
  | .step cpu => s.endsReads cpu = true → ∀ other ≠ cpu, (s.pc other).locks = false

instance decidablePrompt (s : PrintSystem) : (act : PrintAction) → Decidable (s.Prompt act)
  | .call .. => inferInstanceAs (Decidable True)
  | .step cpu => inferInstanceAs (Decidable (s.endsReads cpu = true →
      ∀ other ≠ cpu, (s.pc other).locks = false))

/-- The characters that were printed with the lock. -/
def lockedText (s : PrintSystem) : List Char := (s.shown.filter Prod.fst).map Prod.snd

/-- The lines in full, one after another. -/
def wholeLines (lines : List (Cpu × List Char)) : List Char :=
  lines.flatMap fun l => printLine l.1 l.2

/-- The core prints the last line that was begun. What is shown is the lines before it and the
line up to what is left of it. -/
def ShowsUpTo (s : PrintSystem) (cpu : Cpu) (left : List Char) : Prop :=
  ∃ before text done, s.lines = before ++ [(cpu, text)] ∧ printLine cpu text = done ++ left ∧
    s.lockedText = wholeLines before ++ done

/-- What is left of the line of a core. -/
def leftOf : PrintPc → List Char
  | .printing left => left
  | _ => []

/-- The lock is free, or the core whose number it has is in its ten reads or prints. The core
that prints has the lock, no other one is about to store its number, and its line is shown up
to what is left of it. -/
structure Locked (s : PrintSystem) : Prop where
  owner : s.print_request = DEV_IS_FREE ∨
    ∃ cpu : Cpu, s.print_request = cpu ∧ (s.pc cpu).claims = true
  has : ∀ cpu, (s.pc cpu).prints = true → s.print_request = cpu
  alone : ∀ cpu, (s.pc cpu).prints = true → ∀ other, (s.pc other).locks = false
  upTo : ∀ cpu, (s.pc cpu).prints = true → s.ShowsUpTo cpu (leftOf (s.pc cpu))
  whole : (∀ cpu, (s.pc cpu).prints = false) → s.lockedText = wholeLines s.lines

section Steps

variable {s s' : PrintSystem} {cpu other : Cpu} {pc : PrintPc}

@[simp] theorem setPc_self : (s.setPc cpu pc).pc cpu = pc := by simp [setPc]

theorem setPc_other (h : other ≠ cpu) : (s.setPc cpu pc).pc other = s.pc other :=
  Function.update_of_ne h ..

/-- What holds of the place that a core moves to and of the places of the others holds of all. -/
theorem forall_setPc {p : PrintPc → Prop} (hself : p pc)
    (hothers : ∀ other ≠ cpu, p (s.pc other)) (other : Cpu) : p ((s.setPc cpu pc).pc other) := by
  by_cases hsame : other = cpu
  · subst hsame
    rw [setPc_self]
    exact hself
  · rw [setPc_other hsame]
    exact hothers other hsame

theorem claims_of_prints (h : pc.prints = true) : pc.claims = true := by
  cases pc with
  | printing left => rfl
  | _ => cases h

theorem cpu_ne_free (cpu : Cpu) : (cpu : Nat) ≠ DEV_IS_FREE := by
  have := cpu.isLt
  unfold DEV_IS_FREE
  omega

theorem locked_start : Locked start where
  owner := .inl rfl
  has _ h := by cases h
  alone _ h := by cases h
  upTo _ h := by cases h
  whole _ := rfl

namespace Locked

theorem one (h : s.Locked) (hcpu : (s.pc cpu).prints = true) (hother : (s.pc other).prints = true) :
    cpu = other := Fin.ext ((h.has cpu hcpu).symm.trans (h.has other hother))

theorem none_prints (h : s.Locked) (hfree : s.print_request = DEV_IS_FREE) (cpu : Cpu) :
    (s.pc cpu).prints = false := by
  by_contra hprints
  exact cpu_ne_free cpu ((h.has cpu (by simpa using hprints)).symm.trans hfree)

theorem none_prints_of_locks (h : s.Locked) (hlocks : (s.pc cpu).locks = true) (other : Cpu) :
    (s.pc other).prints = false := by
  by_contra hprints
  have hnot := h.alone other (by simpa using hprints) cpu
  rw [hlocks] at hnot
  cases hnot

/-- The lock of a state in which no core prints. -/
theorem of_none
    (howner : s.print_request = DEV_IS_FREE ∨
      ∃ cpu : Cpu, s.print_request = cpu ∧ (s.pc cpu).claims = true)
    (hnone : ∀ cpu, (s.pc cpu).prints = false) (hwhole : s.lockedText = wholeLines s.lines) :
    s.Locked := by
  refine ⟨howner, ?_, ?_, ?_, fun _ => hwhole⟩
  all_goals
    intro cpu hcpu
    rw [hnone] at hcpu
    cases hcpu

/-- The lock of a state in which one core prints. -/
theorem of_one (hrequest : s.print_request = cpu) (hprints : (s.pc cpu).prints = true)
    (honly : ∀ other ≠ cpu, (s.pc other).prints = false)
    (halone : ∀ other, (s.pc other).locks = false)
    (hshown : s.ShowsUpTo cpu (leftOf (s.pc cpu))) : s.Locked := by
  have hone : ∀ other, (s.pc other).prints = true → other = cpu := by
    intro other hother
    by_contra hne
    rw [honly other hne] at hother
    cases hother
  refine ⟨.inr ⟨cpu, hrequest, claims_of_prints hprints⟩, ?_, ?_, ?_, ?_⟩
  · intro other hother
    rw [hone other hother]
    exact hrequest
  · intro _ _ other
    exact halone other
  · intro other hother
    rw [hone other hother]
    exact hshown
  · intro hall
    rw [hall] at hprints
    cases hprints

/-- A core that neither prints nor comes to print moves: the others keep what they have. -/
theorem move (h : s.Locked) (hbefore : (s.pc cpu).prints = false) (hafter : pc.prints = false)
    (hlocks : pc.locks = true → ∀ other, (s.pc other).prints = false)
    (hclaims : (s.pc cpu).claims = true → pc.claims = true ∨ s.print_request ≠ cpu) :
    (s.setPc cpu pc).Locked := by
  have hprints : ∀ other, ((s.setPc cpu pc).pc other).prints = (s.pc other).prints := by
    intro other
    by_cases hsame : other = cpu
    · subst hsame
      rw [setPc_self, hbefore, hafter]
    · rw [setPc_other hsame]
  refine ⟨?_, ?_, ?_, ?_, ?_⟩
  · rcases h.owner with hfree | ⟨owner, hrequest, howner⟩
    · exact .inl hfree
    · refine .inr ⟨owner, hrequest, ?_⟩
      by_cases hsame : owner = cpu
      · subst hsame
        rw [setPc_self]
        rcases hclaims howner with hclaim | hne
        · exact hclaim
        · exact absurd hrequest hne
      · rw [setPc_other hsame]
        exact howner
  · intro other hother
    rw [hprints] at hother
    exact h.has other hother
  · intro other hother third
    rw [hprints] at hother
    have hlock : pc.locks = false := by
      by_contra hlock
      have hnone := hlocks (by simpa using hlock) other
      rw [hother] at hnone
      cases hnone
    exact forall_setPc (p := fun pc => pc.locks = false) hlock
      (fun third _ => h.alone other hother third) third
  · intro other hother
    rw [hprints] at hother
    have hne : other ≠ cpu := by
      rintro rfl
      rw [hbefore] at hother
      cases hother
    rw [setPc_other hne]
    exact h.upTo other hother
  · intro hall
    exact h.whole fun other => (hprints other).symm.trans (hall other)

/-- A core that is about to store its number stores it. No core prints then. -/
theorem store (h : s.Locked) (hlocks : (s.pc cpu).locks = true) {text : List Char} {n : Nat} :
    ({ s.setPc cpu (.checking text n 0) with print_request := cpu } : PrintSystem).Locked := by
  have hnone := h.none_prints_of_locks hlocks
  have hclaims : ((s.setPc cpu (.checking text n 0)).pc cpu).claims = true := by
    rw [setPc_self]
    rfl
  refine of_none (.inr ⟨cpu, rfl, hclaims⟩) ?_ (h.whole hnone)
  exact forall_setPc (p := fun pc => pc.prints = false) rfl fun other _ => hnone other

/-- A core ends its reads and begins its line. -/
theorem enter (h : s.Locked) (hrequest : s.print_request = cpu)
    (hbefore : (s.pc cpu).prints = false)
    (hprompt : ∀ other ≠ cpu, (s.pc other).locks = false) {text : List Char} :
    ({ s.setPc cpu (.printing (printLine cpu text)) with
      lines := s.lines ++ [(cpu, text)] } : PrintSystem).Locked := by
  have hnone : ∀ other, (s.pc other).prints = false := by
    intro other
    by_contra hother
    have hprints : (s.pc other).prints = true := by simpa using hother
    obtain rfl : other = cpu := Fin.ext ((h.has other hprints).symm.trans hrequest)
    exact hother hbefore
  refine of_one hrequest ?_ ?_ ?_ ?_
  · show ((s.setPc cpu (.printing (printLine cpu text))).pc cpu).prints = true
    rw [setPc_self]
    rfl
  · intro other hne
    exact (congrArg PrintPc.prints (setPc_other hne)).trans (hnone other)
  · exact forall_setPc (p := fun pc => pc.locks = false) rfl hprompt
  · show ShowsUpTo _ cpu (leftOf ((s.setPc cpu (.printing (printLine cpu text))).pc cpu))
    rw [setPc_self]
    exact ⟨s.lines, text, [], rfl, rfl, (h.whole hnone).trans (List.append_nil _).symm⟩

/-- The core with the lock prints a character. -/
theorem print (h : s.Locked) {c : Char} {left : List Char}
    (hpc : s.pc cpu = .printing (c :: left)) :
    ({ s.setPc cpu (.printing left) with
      shown := s.shown ++ [(true, c)] } : PrintSystem).Locked := by
  have hprints : (s.pc cpu).prints = true := by
    rw [hpc]
    rfl
  obtain ⟨before, text, done, hlines, hline, hshown⟩ := h.upTo cpu hprints
  rw [hpc] at hline
  refine of_one (h.has cpu hprints) ?_ ?_ ?_ ?_
  · show ((s.setPc cpu (.printing left)).pc cpu).prints = true
    rw [setPc_self]
    rfl
  · intro other hne
    rw [setPc_other hne]
    by_contra hother
    exact hne (h.one (by simpa using hother) hprints)
  · exact forall_setPc (p := fun pc => pc.locks = false) rfl fun other _ =>
      h.alone cpu hprints other
  · show ShowsUpTo _ cpu (leftOf ((s.setPc cpu (.printing left)).pc cpu))
    rw [setPc_self]
    refine ⟨before, text, done ++ [c], hlines, ?_, ?_⟩
    · rw [List.append_assoc]
      exact hline
    · rw [← List.append_assoc, ← hshown]
      simp [lockedText]

/-- The core with the lock has printed its line. -/
theorem release (h : s.Locked) (hpc : s.pc cpu = .printing []) :
    ({ s.setPc cpu .idle with print_request := DEV_IS_FREE } : PrintSystem).Locked := by
  have hprints : (s.pc cpu).prints = true := by
    rw [hpc]
    rfl
  have hothers : ∀ other ≠ cpu, (s.pc other).prints = false := by
    intro other hne
    by_contra hother
    exact hne (h.one (by simpa using hother) hprints)
  obtain ⟨before, text, done, hlines, hline, hshown⟩ := h.upTo cpu hprints
  rw [hpc] at hline
  refine of_none (.inl rfl) (forall_setPc (p := fun pc => pc.prints = false) rfl hothers) ?_
  show s.lockedText = wholeLines s.lines
  rw [hshown, hlines, wholeLines, wholeLines, List.flatMap_append, List.flatMap_singleton, hline]
  simp [leftOf]

/-- A character that is printed without the lock is not one of a line. -/
theorem show_aborted (h : s.Locked) (c : Char) :
    ({ s with shown := s.shown ++ [(false, c)] } : PrintSystem).Locked := by
  have htext : lockedText { s with shown := s.shown ++ [(false, c)] } = s.lockedText := by
    simp [lockedText]
  refine ⟨h.owner, h.has, h.alone, fun cpu hcpu => ?_, fun hall => htext.trans (h.whole hall)⟩
  obtain ⟨before, text, done, hlines, hline, hshown⟩ := h.upTo cpu hcpu
  exact ⟨before, text, done, hlines, hline, htext.trans hshown⟩

theorem coreStep (h : s.Locked) (hprompt : s.Prompt (.step cpu))
    (hs : s.coreStep cpu = some s') : s'.Locked := by
  unfold PrintSystem.coreStep at hs
  split at hs
  · cases hs
  · rename_i text n hpc
    have hbefore : (s.pc cpu).prints = false := by rw [hpc]; rfl
    have hclaims : (s.pc cpu).claims = false := by rw [hpc]; rfl
    split at hs
    · split at hs
      · rename_i hfree
        cases hs
        exact h.move hbefore rfl (fun _ => h.none_prints hfree) (by simp [hclaims])
      · cases hs
        exact h.move hbefore rfl (by simp [PrintPc.locks]) (by simp [hclaims])
    · cases hs
      exact h.move hbefore rfl (by simp [PrintPc.locks]) (by simp [hclaims])
  · rename_i text n hpc
    cases hs
    exact h.store (by rw [hpc]; rfl)
  · rename_i text n k hpc
    have hbefore : (s.pc cpu).prints = false := by rw [hpc]; rfl
    split at hs
    · rename_i hother
      cases hs
      exact h.move hbefore rfl (by simp [PrintPc.locks]) fun _ => .inr hother
    · rename_i hrequest
      have hrequest : s.print_request = cpu := not_not.mp hrequest
      split at hs
      · cases hs
        exact h.move hbefore rfl (by simp [PrintPc.locks]) fun _ => .inl rfl
      · rename_i hlast
        cases hs
        have hends : s.endsReads cpu = true := by
          simp only [endsReads, hpc, hrequest, beq_self_eq_true, Bool.true_and, decide_eq_true_eq]
          exact Nat.le_of_not_lt hlast
        exact h.enter hrequest hbefore (hprompt hends)
  · rename_i c left hpc
    cases hs
    exact h.print hpc
  · rename_i hpc
    cases hs
    exact h.release hpc
  · rename_i c left hpc
    have hbefore : (s.pc cpu).prints = false := by rw [hpc]; rfl
    have hmoved := h.move hbefore (rfl : (PrintPc.aborting left).prints = false)
      (by simp [PrintPc.locks]) (by simp [hpc, PrintPc.claims])
    cases hs
    exact hmoved.show_aborted c
  · rename_i hpc
    cases hs
    exact h.move (by rw [hpc]; rfl) rfl (by simp [PrintPc.locks]) (by simp [hpc, PrintPc.claims])

end Locked

/-- Every step that is in time keeps the lock. -/
theorem locked_step {act : PrintAction} (h : s.Locked) (hprompt : s.Prompt act)
    (hs : printStep s act = some s') : s'.Locked := by
  cases act with
  | call cpu text =>
    simp only [printStep] at hs
    split at hs
    · rename_i hidle
      cases hs
      exact h.move (by rw [hidle]; rfl) rfl (by simp [PrintPc.locks])
        (by simp [hidle, PrintPc.claims])
    · cases hs
  | step cpu => exact h.coreStep hprompt hs

end Steps

end PrintSystem

open PrintSystem

/-- In every run of the four cores in which each core stores its number before another one has
ended its ten reads: at most one core prints, the number in `print_request` is that of a core
that reads it back or prints, unless the device is free, and what is printed with the lock is the
lines in the order in which they were begun, each in full but for the one that is being printed. -/
theorem the_lines_of_the_cores_do_not_mix {acts : List PrintAction} {s : PrintSystem}
    (hok : AllSteps printStep Prompt start acts) (hrun : run printStep start acts = some s) :
    (∀ cpu other, (s.pc cpu).prints = true → (s.pc other).prints = true → cpu = other) ∧
      (s.print_request = DEV_IS_FREE ∨
        ∃ cpu : Cpu, s.print_request = cpu ∧ (s.pc cpu).claims = true) ∧
      (∀ cpu, (s.pc cpu).prints = true → s.ShowsUpTo cpu (leftOf (s.pc cpu))) ∧
      ((∀ cpu, (s.pc cpu).prints = false) → s.lockedText = wholeLines s.lines) := by
  have hlocked : s.Locked := run_invariant_of_ok (I := fun _ t => t.Locked) locked_start
    (fun _ _ _ _ _ ht hprompt hs => locked_step ht hprompt hs) hok hrun
  exact ⟨fun cpu other => hlocked.one, hlocked.owner, hlocked.upTo, hlocked.whole⟩

/-- Both cores find the device free and store their numbers. The second one prints its line, and
then the first one, which reads the other number first, prints its own. -/
def twoCalls : List PrintAction :=
  [.call 0 ['a'], .call 1 ['b'], .step 0, .step 1, .step 0, .step 1, .step 0] ++
    List.replicate 23 (.step 1) ++ List.replicate 25 (.step 0)

theorem the_lines_of_two_cores_do_not_mix :
    ∃ s, run printStep start twoCalls = some s ∧
      s.lockedText = printLine 1 ['b'] ++ printLine 0 ['a'] := by
  have hrun : (run printStep start twoCalls).map
      (fun s => (s.lines, (List.finRange 4).map fun cpu => (s.pc cpu).prints)) =
        some ([(1, ['b']), (0, ['a'])], [false, false, false, false]) := by
    decide +kernel
  obtain ⟨s, hs, hend⟩ := Option.map_eq_some_iff.mp hrun
  obtain ⟨hlines, hprints⟩ := Prod.mk.inj hend
  have hnone : ∀ cpu, (s.pc cpu).prints = false := by
    intro cpu
    have hall : ∀ b ∈ (List.finRange 4).map fun cpu => (s.pc cpu).prints, b = false := by
      rw [hprints]
      decide
    exact hall _ (List.mem_map_of_mem (List.mem_finRange cpu))
  obtain ⟨-, -, -, hwhole⟩ := the_lines_of_the_cores_do_not_mix (by decide +kernel) hs
  refine ⟨s, hs, ?_⟩
  rw [hwhole hnone, hlines]
  rfl

/-- A core that stores its number after the other one has ended its reads prints as well. -/
example : (run printStep start ([.call 0 [], .call 1 [], .step 0, .step 1] ++
    List.replicate 11 (.step 1) ++ List.replicate 11 (.step 0))).map
      (fun s => ((s.pc 0).prints, (s.pc 1).prints)) = some (true, true) := by
  decide +kernel

end S4Sim
