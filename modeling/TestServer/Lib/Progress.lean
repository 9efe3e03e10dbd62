import TestServer.Lib.System

/-! # Runs that come to an end

    Some of the labels of a system stand for work, the others (a call that a
    signal interrupts, say) for steps that change nothing that matters. A
    measure of the states bounds the work a run can do, and what is left is to
    look at the states in which no work can be done.

    * `work`: the number of steps of a run that do work.
    * `System.AtRest`: no step that does work can be taken.
    * `Run.work_le`: a measure that work uses up bounds the work of every run.
    * `Reachable.rests`: from every reachable state, work leads to a state at
      rest.
-/

namespace LTS

variable {State Label : Type*}

/-- The number of steps of a run that do work. -/
def work (Works : Label → Prop) [DecidablePred Works] (tr : List (State × Label)) : Nat :=
  tr.countP fun p => Works p.2

section work

variable (Works : Label → Prop) [DecidablePred Works]

@[simp] theorem work_nil : work Works ([] : List (State × Label)) = 0 := rfl

theorem work_snoc (tr : List (State × Label)) (s : State) (l : Label) :
    work Works (tr ++ [(s, l)]) = work Works tr + if Works l then 1 else 0 := by
  simp [work, List.countP_append, List.countP_cons]

end work

namespace System

variable {sys : System State Label} {Works : Label → Prop}

/-- No step that does work can be taken. -/
def AtRest (sys : System State Label) (Works : Label → Prop) (s : State) : Prop :=
  ∀ l s', Works l → ¬ sys.step s l s'

/-- If no step makes the measure more and those that do work make it less, then the measure at the
    beginning bounds the work of the run. -/
theorem Run.work_le [DecidablePred Works] (measure : State → Nat) {bound : Nat}
    (hinit : ∀ s, sys.init s → measure s ≤ bound)
    (hstep : ∀ s l s', sys.Reachable s → sys.step s l s' →
      measure s' + (if Works l then 1 else 0) ≤ measure s)
    {tr : List (State × Label)} {s : State} (h : sys.Run tr s) :
    work Works tr + measure s ≤ bound := by
  induction h with
  | start hs => simpa using hinit _ hs
  | @next tr s s' l hrun hl ih =>
    have hless := hstep s l s' ⟨tr, hrun⟩ hl
    rw [work_snoc]
    omega

/-- From every reachable state a run goes on with work only, until there is none left to do. -/
theorem Reachable.rests (measure : State → Nat)
    (hstep : ∀ s l s', sys.Reachable s → Works l → sys.step s l s' → measure s' < measure s)
    {s : State} (h : sys.Reachable s) : ∃ s', sys.Reachable s' ∧ sys.AtRest Works s' := by
  -- induction on the measure
  induction hn : measure s using Nat.strongRecOn generalizing s with
  | _ n ih =>
    by_cases hrest : sys.AtRest Works s
    · exact ⟨s, h, hrest⟩
    · obtain ⟨l, s', hworks, hl⟩ : ∃ l s', Works l ∧ sys.step s l s' := by
        by_contra hnone
        exact hrest fun l s' hworks hl => hnone ⟨l, s', hworks, hl⟩
      have hless := hstep s l s' h hworks hl
      exact ih (measure s') (hn ▸ hless) (h.next hl) rfl

end System

end LTS
