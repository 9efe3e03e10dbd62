import Mathlib.Logic.Relation

/-! # Deterministic loops

    A loop is a body that, from the values of the loop's variables, either
    goes round again with new values or leaves the loop with a result.

    * `run`: the loop with a bound on the number of passes.
    * `Returns`: the loop ends with a result, after some number of passes.
    * `Visits`: the variables take a value at the head of some pass.
    * `ReturnsFrom`: a function that does something else before it loops.

    The rules below are the ones a proof about a particular body needs: one
    pass at a time (`returns_again`, `returns_leave`), induction over a run
    that ends (`Returns.induct`), an invariant of all passes
    (`Visits.invariant`), a postcondition of all exits (`Returns.ensures`,
    `ReturnsFrom.ensures`), a loop inside another (`Visits.map`) and a set of
    states it never gets out of (`not_returns_of_recurrent`).
-/

namespace Loop

/-- What one pass through the body of a loop does. -/
inductive Pass (σ ρ : Type*) where
  /-- Go round again with these values of the loop's variables. -/
  | again (s : σ)
  /-- Leave the loop with this result. -/
  | leave (r : ρ)

variable {σ ρ : Type*} (body : σ → Pass σ ρ)

/-- The loop, given up after `fuel` passes. -/
def run : Nat → σ → Option ρ
  | 0, _ => none
  | fuel + 1, s =>
    match body s with
    | .again s' => run fuel s'
    | .leave r => some r

/-- The loop started from `s` ends with the result `r`. -/
def Returns (s : σ) (r : ρ) : Prop := ∃ fuel, run body fuel s = some r

/-- What comes before the loop leaves the function with the result `r`, or the loop does that. -/
def ReturnsFrom (start : Pass σ ρ) (r : ρ) : Prop :=
  match start with
  | .again s => Returns body s r
  | .leave r' => r' = r

/-- A pass goes round with variables that satisfy `I`, or leaves with a result that satisfies
    `Q`. -/
def Pass.Ensures (I : σ → Prop) (Q : ρ → Prop) : Pass σ ρ → Prop
  | .again s => I s
  | .leave r => Q r

/-- One pass takes `s` to `s'`. -/
def Next (s s' : σ) : Prop := body s = .again s'

/-- The loop started from `s` is at the head of a pass with `s'`. -/
def Visits : σ → σ → Prop := Relation.ReflTransGen (Next body)

variable {body}

/-! ### One pass -/

theorem Returns.leave {s : σ} {r : ρ} (h : body s = .leave r) : Returns body s r :=
  ⟨1, by simp [run, h]⟩

theorem Returns.again {s s' : σ} {r : ρ} (h : body s = .again s') (hr : Returns body s' r) :
    Returns body s r := by
  obtain ⟨fuel, hfuel⟩ := hr
  exact ⟨fuel + 1, by simp [run, h, hfuel]⟩

theorem returns_leave {s : σ} {r r' : ρ} (h : body s = .leave r) :
    Returns body s r' ↔ r' = r := by
  constructor
  · intro hr
    obtain ⟨fuel, hfuel⟩ := hr
    cases fuel with
    | zero => cases hfuel
    | succ fuel => simpa [run, h, eq_comm] using hfuel
  · intro heq
    subst heq
    exact Returns.leave h

theorem returns_again {s s' : σ} {r : ρ} (h : body s = .again s') :
    Returns body s r ↔ Returns body s' r := by
  refine ⟨?_, Returns.again h⟩
  intro hr
  obtain ⟨fuel, hfuel⟩ := hr
  cases fuel with
  | zero => cases hfuel
  | succ fuel => exact ⟨fuel, by simpa [run, h] using hfuel⟩

/-! ### Whole runs -/

/-- Induction over a run that ends, from its last pass back to its first. -/
theorem Returns.induct {P : σ → ρ → Prop}
    (leave : ∀ s r, body s = .leave r → P s r)
    (again : ∀ s s' r, body s = .again s' → Returns body s' r → P s' r → P s r)
    {s : σ} {r : ρ} (h : Returns body s r) : P s r := by
  obtain ⟨fuel, hfuel⟩ := h
  induction fuel generalizing s with
  | zero => cases hfuel
  | succ fuel ih =>
    cases hb : body s with
    | leave r' =>
      have hr : r' = r := by simpa [run, hb] using hfuel
      exact hr ▸ leave s r' hb
    | again s' =>
      have hrun : run body fuel s' = some r := by simpa [run, hb] using hfuel
      exact again s s' r hb ⟨fuel, hrun⟩ (ih hrun)

theorem Returns.unique {s : σ} {r r' : ρ} (h : Returns body s r) (h' : Returns body s r') :
    r = r' := by
  refine Returns.induct (P := fun s r => ∀ r', Returns body s r' → r = r') ?_ ?_ h r' h'
  · intro s r hb r' hr'
    exact ((returns_leave hb).mp hr').symm
  · intro s s' r hb _ ih r' hr'
    exact ih r' ((returns_again hb).mp hr')

theorem Visits.returns {s s' : σ} (hv : Visits body s s') {r : ρ} :
    Returns body s r ↔ Returns body s' r := by
  -- induction from the last pass back to the first
  refine Relation.ReflTransGen.head_induction_on hv Iff.rfl ?_
  intro a b hab _ ih
  exact (returns_again hab).trans ih

/-- A loop that runs as part of another one. -/
theorem Visits.map {σ' ρ' : Type*} {body' : σ' → Pass σ' ρ'} (f : σ → σ')
    (hf : ∀ s s', body s = .again s' → body' (f s) = .again (f s')) {s s' : σ}
    (hv : Visits body s s') : Visits body' (f s) (f s') :=
  Relation.ReflTransGen.lift f (fun a b hab => hf a b hab) _ _ hv

/-- The result of a run is the one its last pass leaves with. -/
theorem Returns.last {s : σ} {r : ρ} (h : Returns body s r) :
    ∃ s', Visits body s s' ∧ body s' = .leave r := by
  refine Returns.induct (P := fun s r => ∃ s', Visits body s s' ∧ body s' = .leave r) ?_ ?_ h
  · intro s r hb
    exact ⟨s, Relation.ReflTransGen.refl, hb⟩
  · intro s s' r hb _ ih
    obtain ⟨t, ht, hlast⟩ := ih
    exact ⟨t, Relation.ReflTransGen.head hb ht, hlast⟩

/-- No pass follows the last one. -/
theorem Visits.eq_of_leave {s s' : σ} {r : ρ} (hv : Visits body s s') (h : body s = .leave r) :
    s' = s := by
  rcases hv.cases_head with rfl | ⟨t, hpass, -⟩
  · rfl
  · unfold Next at hpass
    rw [h] at hpass
    cases hpass

/-- The heads of a loop are the first one and those after the first pass. -/
theorem Visits.eq_or_again {s s' t : σ} (hv : Visits body s s') (h : body s = .again t) :
    s' = s ∨ Visits body t s' := by
  rcases hv.cases_head with rfl | ⟨t', hpass, hrest⟩
  · exact Or.inl rfl
  · unfold Next at hpass
    rw [h] at hpass
    cases hpass
    exact Or.inr hrest

/-- What every pass preserves holds at the head of every pass. -/
theorem Visits.invariant {I : σ → Prop} (hstep : ∀ s s', I s → body s = .again s' → I s')
    {s s' : σ} (hv : Visits body s s') (h : I s) : I s' := by
  induction hv with
  | refl => exact h
  | tail _ hb ih => exact hstep _ _ ih hb

/-- If every pass keeps the invariant or leaves with the postcondition, so does the loop. -/
theorem Returns.ensures {I : σ → Prop} {Q : ρ → Prop}
    (hpass : ∀ s, I s → (body s).Ensures I Q) {s : σ} {r : ρ} (h : Returns body s r) (hs : I s) :
    Q r := by
  refine Returns.induct (P := fun s r => I s → Q r) ?_ ?_ h hs
  · intro s r hb hs
    have hens := hpass s hs
    rwa [hb] at hens
  · intro s s' r hb _ ih hs
    have hens := hpass s hs
    rw [hb] at hens
    exact ih hens

theorem ReturnsFrom.ensures {I : σ → Prop} {Q : ρ → Prop} {start : Pass σ ρ}
    (hstart : start.Ensures I Q) (hpass : ∀ s, I s → (body s).Ensures I Q) {r : ρ}
    (h : ReturnsFrom body start r) : Q r := by
  cases start with
  | again s => exact Returns.ensures hpass h hstart
  | leave r' =>
    obtain rfl := h
    exact hstart

/-- A loop that keeps coming back to a set of states never ends. -/
theorem not_returns_of_recurrent (S : σ → Prop)
    (hrec : ∀ s, S s → ∃ s', S s' ∧ Relation.TransGen (Next body) s s')
    {s : σ} (h : S s) (r : ρ) : ¬ Returns body s r := by
  -- every pass on the way uses up some of the bound
  have hless : ∀ {a b : σ}, Relation.TransGen (Next body) a b → ∀ fuel,
      run body fuel a = some r → ∃ fuel' < fuel, run body fuel' b = some r := by
    intro a b hab
    induction hab with
    | single hb =>
      intro fuel hfuel
      cases fuel with
      | zero => cases hfuel
      | succ fuel =>
        unfold Next at hb
        exact ⟨fuel, Nat.lt_succ_self fuel, by simpa [run, hb] using hfuel⟩
    | tail _ hb ih =>
      intro fuel hfuel
      obtain ⟨fuel', hlt, hrun⟩ := ih fuel hfuel
      cases fuel' with
      | zero => cases hrun
      | succ n =>
        unfold Next at hb
        exact ⟨n, by omega, by simpa [run, hb] using hrun⟩
  intro hr
  obtain ⟨fuel, hfuel⟩ := hr
  -- so a run of least length from `S` leads to a shorter one
  induction fuel using Nat.strongRecOn generalizing s with
  | _ fuel ih =>
    obtain ⟨s', hS, htrans⟩ := hrec s h
    obtain ⟨fuel', hlt, hrun⟩ := hless htrans fuel hfuel
    exact ih fuel' hlt hS hrun

end Loop
