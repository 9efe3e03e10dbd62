import Mathlib.Data.List.Infix

/-! # Labelled transition systems

    A system is given by its initial states and its labelled steps. A run
    records, for every step, the state it was taken in and its label, so that
    a property of runs can speak about what each step did and where.

    * `Run`, `Reachable`: finite runs from an initial state.
    * `System.ofFun`, `replay`, `trace`: a system whose steps are computed, and
      the state after given steps (`Run.trace`).
    * `Along`: every step of a run meets a condition.
    * `Run.invariant`: what the initial states satisfy and the steps that
      meet a condition preserve holds after every run that meets it.
    * `Run.broken`: what a step that does not meet a condition brings about.
    * `Run.simulates`: a simulation takes a run to a run with the same labels.
    * `Reachable.map`: a simulation takes reachable states to reachable states.
-/

namespace LTS

/-- A labelled transition system. -/
structure System (State Label : Type*) where
  init : State → Prop
  step : State → Label → State → Prop

variable {State Label : Type*}

/-- The finite runs of a system: the steps taken, each with the state it was taken in, and the
    state reached. -/
inductive System.Run (sys : System State Label) : List (State × Label) → State → Prop where
  | start {s : State} : sys.init s → Run sys [] s
  | next {tr : List (State × Label)} {s s' : State} {l : Label} :
      Run sys tr s → sys.step s l s' → Run sys (tr ++ [(s, l)]) s'

/-- The states some run reaches. -/
def System.Reachable (sys : System State Label) (s : State) : Prop := ∃ tr, sys.Run tr s

/-- Every step of the run meets the condition `ok` on the state it is taken in and its label. -/
def Along (ok : State → Label → Prop) (tr : List (State × Label)) : Prop :=
  ∀ p ∈ tr, ok p.1 p.2

@[simp] theorem along_nil (ok : State → Label → Prop) : Along ok [] := by simp [Along]

@[simp] theorem along_snoc {ok : State → Label → Prop} {tr : List (State × Label)} {s : State}
    {l : Label} : Along ok (tr ++ [(s, l)]) ↔ Along ok tr ∧ ok s l := by
  simp only [Along, List.mem_append, List.mem_singleton]
  constructor
  · intro h
    exact ⟨fun p hp => h p (Or.inl hp), h (s, l) (Or.inr rfl)⟩
  · intro h p hp
    obtain ⟨htr, hlast⟩ := h
    rcases hp with hp | rfl
    · exact htr p hp
    · exact hlast

/-- Some step of the run has a label of a kind that no step should have. -/
theorem not_along_label {P : Label → Prop} {tr : List (State × Label)} :
    ¬ Along (fun _ l => ¬ P l) tr ↔ ∃ l ∈ tr.map Prod.snd, P l := by
  constructor
  · intro hno
    by_contra hnone
    exact hno fun p hp hbad => hnone ⟨p.2, List.mem_map_of_mem hp, hbad⟩
  · intro hbad hok
    obtain ⟨l, hl, hP⟩ := hbad
    obtain ⟨p, hp, rfl⟩ := List.mem_map.mp hl
    exact hok p hp hP

namespace System

variable {sys : System State Label}

/-! ### Systems whose steps are computed -/

/-- The system in which `f` computes the state after a step, or that there is no such step. -/
def ofFun (init : State → Prop) (f : State → Label → Option State) : System State Label where
  init := init
  step := fun s l s' => f s l = some s'

/-- The state after the steps `ls`. -/
def replay (f : State → Label → Option State) : State → List Label → Option State
  | s, [] => some s
  | s, l :: ls => (f s l).bind fun s' => replay f s' ls

/-- The steps a replay takes, each with the state it is taken in. -/
def trace (f : State → Label → Option State) : State → List Label → List (State × Label)
  | _, [] => []
  | s, l :: ls => (s, l) :: ((f s l).elim [] fun s' => trace f s' ls)

theorem replay_append (f : State → Label → Option State) (s : State) (ls ls' : List Label) :
    replay f s (ls ++ ls') = (replay f s ls).bind fun s' => replay f s' ls' := by
  induction ls generalizing s with
  | nil => rfl
  | cons l ls ih => simp only [List.cons_append, replay, ih, Option.bind_assoc]

/-- Steps that can be taken continue a run. -/
theorem Run.trace {init : State → Prop} {f : State → Label → Option State}
    {tr : List (State × Label)} {s s' : State} (hs : (ofFun init f).Run tr s) (ls : List Label)
    (h : System.replay f s ls = some s') : (ofFun init f).Run (tr ++ System.trace f s ls) s' := by
  induction ls generalizing tr s with
  | nil =>
    obtain rfl := Option.some.inj h
    rwa [System.trace, List.append_nil]
  | cons l ls ih =>
    obtain ⟨t, ht, hrest⟩ := Option.bind_eq_some_iff.mp h
    have htail : (f s l).elim [] (fun t => System.trace f t ls) = System.trace f t ls := by
      rw [ht, Option.elim_some]
    have hrun := ih (hs.next ht) hrest
    rwa [List.append_assoc, List.singleton_append, ← htail] at hrun

theorem trace_labels {f : State → Label → Option State} {s s' : State} (ls : List Label)
    (h : System.replay f s ls = some s') : (System.trace f s ls).map Prod.snd = ls := by
  induction ls generalizing s with
  | nil => rfl
  | cons l ls ih =>
    obtain ⟨t, ht, hrest⟩ := Option.bind_eq_some_iff.mp h
    rw [System.trace, ht, Option.elim_some, List.map_cons, ih hrest]

/-- The same, for the labels of the steps. -/
theorem Run.replay {init : State → Prop} {f : State → Label → Option State}
    {tr : List (State × Label)} {s s' : State} (hs : (ofFun init f).Run tr s) (ls : List Label)
    (h : System.replay f s ls = some s') :
    ∃ tr', (ofFun init f).Run (tr ++ tr') s' ∧ tr'.map Prod.snd = ls :=
  ⟨System.trace f s ls, hs.trace ls h, trace_labels ls h⟩

/-- Steps that can be taken lead from a reachable state to a reachable state. -/
theorem replay_reachable {init : State → Prop} {f : State → Label → Option State} {s s' : State}
    (hs : (ofFun init f).Reachable s) (ls : List Label) (h : replay f s ls = some s') :
    (ofFun init f).Reachable s' := by
  obtain ⟨tr, htr⟩ := hs
  obtain ⟨tr', hrun, -⟩ := htr.replay ls h
  exact ⟨tr ++ tr', hrun⟩

/-- Every recorded step was taken. -/
theorem Run.step_of_mem {tr : List (State × Label)} {s : State} (h : sys.Run tr s)
    {p : State × Label} (hp : p ∈ tr) : ∃ s', sys.step p.1 p.2 s' := by
  induction h with
  | start _ => cases hp
  | @next tr s s' l _ hstep ih =>
    rcases List.mem_append.mp hp with htr | hlast
    · exact ih htr
    · obtain rfl := List.mem_singleton.mp hlast
      exact ⟨s', hstep⟩

/-! ### Invariants -/

/-- The invariant rule, for runs whose steps meet a condition. -/
theorem Run.invariant {ok : State → Label → Prop} {I : State → Prop}
    (hinit : ∀ s, sys.init s → I s)
    (hstep : ∀ s l s', I s → ok s l → sys.step s l s' → I s')
    {tr : List (State × Label)} {s : State} (h : sys.Run tr s) (hok : Along ok tr) : I s := by
  induction h with
  | start hs => exact hinit _ hs
  | next _ hlast ih =>
    obtain ⟨htr, hl⟩ := along_snoc.mp hok
    exact hstep _ _ _ (ih htr) hl hlast

/-- The invariant rule, for all reachable states. -/
theorem Reachable.invariant {I : State → Prop} (hinit : ∀ s, sys.init s → I s)
    (hstep : ∀ s l s', I s → sys.step s l s' → I s') {s : State} (h : sys.Reachable s) : I s := by
  obtain ⟨tr, htr⟩ := h
  have hok : Along (fun _ _ => True) tr := fun _ _ => trivial
  exact htr.invariant hinit (fun s l s' hI _ => hstep s l s' hI) hok

theorem Reachable.next {s s' : State} {l : Label} (h : sys.Reachable s) (hstep : sys.step s l s') :
    sys.Reachable s' := by
  obtain ⟨tr, htr⟩ := h
  exact ⟨_, htr.next hstep⟩

/-- The rule for runs with a step that does not meet a condition: what the first such step brings
    about and every step preserves holds after the run. -/
theorem Run.broken {ok : State → Label → Prop} {Q : State → Prop}
    (hbad : ∀ tr s l s', sys.Run tr s → Along ok tr → sys.step s l s' → ¬ ok s l → Q s')
    (hkeep : ∀ s l s', sys.step s l s' → Q s → Q s')
    {tr : List (State × Label)} {s : State} (h : sys.Run tr s) (hno : ¬ Along ok tr) : Q s := by
  induction h with
  | start _ => simp at hno
  | @next tr s s' l hrun hstep ih =>
    by_cases htr : Along ok tr
    · -- the last step is the first that does not meet the condition
      exact hbad tr s l s' hrun htr hstep fun hl => hno (along_snoc.mpr ⟨htr, hl⟩)
    · exact hkeep s l s' hstep (ih htr)

/-! ### Simulation -/

/-- If related states take steps with the same label to related states, then every run of `sys` has
    a run of `abs` with the same labels beside it. -/
theorem Run.simulates {AState : Type*} {abs : System AState Label} {R : State → AState → Prop}
    (hinit : ∀ s, sys.init s → ∃ a, abs.init a ∧ R s a)
    (hstep : ∀ s l s' a, R s a → sys.step s l s' → ∃ a', abs.step a l a' ∧ R s' a')
    {tr : List (State × Label)} {s : State} (h : sys.Run tr s) :
    ∃ atr a, abs.Run atr a ∧ atr.map Prod.snd = tr.map Prod.snd ∧ R s a := by
  induction h with
  | start hs =>
    obtain ⟨a, ha, hR⟩ := hinit _ hs
    exact ⟨[], a, .start ha, rfl, hR⟩
  | @next tr s s' l _ hl ih =>
    obtain ⟨atr, a, hrun, hlabels, hR⟩ := ih
    obtain ⟨a', ha', hR'⟩ := hstep s l s' a hR hl
    refine ⟨atr ++ [(a, l)], a', hrun.next ha', ?_, hR'⟩
    rw [List.map_append, List.map_append, hlabels]
    rfl

/-- If every step of `sys`, seen through `f`, is a step of `abs` or changes nothing there, then
    every run of `sys` reaches, through `f`, a state `abs` reaches. -/
theorem Reachable.map {AState ALabel : Type*} {abs : System AState ALabel} (f : State → AState)
    (hinit : ∀ s, sys.init s → abs.init (f s))
    (hstep : ∀ s l s', sys.step s l s' → (∃ a, abs.step (f s) a (f s')) ∨ f s = f s')
    {s : State} (h : sys.Reachable s) : abs.Reachable (f s) := by
  apply h.invariant (I := fun s => abs.Reachable (f s))
  · intro s hs
    exact ⟨[], .start (hinit s hs)⟩
  · intro s l s' hreach hl
    rcases hstep s l s' hl with ⟨a, ha⟩ | heq
    · exact hreach.next ha
    · -- a step that changes nothing in `abs`
      exact heq ▸ hreach

end System

end LTS
