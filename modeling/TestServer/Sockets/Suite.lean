import TestServer.Sockets.Listen

/-! # Tests that listen on one port, one after the other

    The tests of a program run in one process and share its table of
    descriptors. They listen on the port of the program first, and fail if they
    cannot; some may do without the port.

    * `Suite`: what such tests have in common.
    * `Suite.runAll`: running some of them.
    * `Suite.holds_runAll_iff`: when a socket that listens is left behind.
    * `Suite.fails_behind`: from then on, all tests fail that need the port.
-/

open Descriptors

namespace Sockets

/-- The tests of a program. -/
structure Suite (Case : Type) where
  /-- Whether the test passes, and the table behind it. -/
  run : Case → Table File → Bool × Table File
  /-- The test leaves its socket listening. -/
  Leaves : Case → Table File → Prop
  /-- The test does without the port. -/
  NoPort : Case → Prop
  kept : ∀ (c : Case) (t : Table File), t.Kept (run c t).2
  port : ∀ (c : Case) (t : Table File),
    (run c t).2.holds .listening = true ↔ t.holds .listening = true ∨ Leaves c t
  taken : ∀ (c : Case) (t : Table File), t.holds .listening = true →
    ((run c t).1 = true ↔ NoPort c)

namespace Suite

variable {Case : Type} (suite : Suite Case) {t : Table File}

/-- `RUN_ALL_TESTS()`: which tests pass, and the table behind them. -/
def runAll : List Case → Table File → List Bool × Table File
  | [], t => ([], t)
  | c :: cs, t =>
    let (passed, t) := suite.run c t
    let (results, t) := runAll cs t
    (passed :: results, t)

theorem runAll_cons (c : Case) (cs : List Case) (t : Table File) :
    suite.runAll (c :: cs) t
      = ((suite.run c t).1 :: (suite.runAll cs (suite.run c t).2).1,
        (suite.runAll cs (suite.run c t).2).2) := rfl

theorem runAll_append (before rest : List Case) (t : Table File) :
    suite.runAll (before ++ rest) t
      = ((suite.runAll before t).1 ++ (suite.runAll rest (suite.runAll before t).2).1,
        (suite.runAll rest (suite.runAll before t).2).2) := by
  induction before generalizing t with
  | nil => rfl
  | cons c before ih =>
    rw [List.cons_append, runAll_cons, ih, runAll_cons]
    rfl

@[simp] theorem runAll_length (cs : List Case) (t : Table File) :
    (suite.runAll cs t).1.length = cs.length := by
  induction cs generalizing t with
  | nil => rfl
  | cons c cs ih => simp [runAll_cons, ih]

/-- What the process had open is open behind the tests. -/
theorem runAll_kept (cs : List Case) (t : Table File) : t.Kept (suite.runAll cs t).2 := by
  induction cs generalizing t with
  | nil => exact .refl t
  | cons c cs ih => exact (suite.kept c t).trans (ih (suite.run c t).2)

/-- While some socket listens, the tests that do without the port pass, and no others. -/
theorem fails_of_holds (cs : List Case) (h : t.holds .listening = true) :
    ∀ p ∈ cs.zip (suite.runAll cs t).1, p.2 = true ↔ suite.NoPort p.1 := by
  induction cs generalizing t with
  | nil => exact fun p hp => by cases hp
  | cons c cs ih =>
    intro p hp
    rw [runAll_cons, List.zip_cons_cons] at hp
    rcases List.mem_cons.mp hp with rfl | hp
    · exact suite.taken c t h
    · exact ih ((suite.port c t).mpr (Or.inl h)) p hp

/-- A socket that listens is left behind the tests exactly when one of them left it. -/
theorem holds_runAll_iff (cs : List Case) (hport : t.holds .listening = false) :
    (suite.runAll cs t).2.holds .listening = true ↔
      ∃ before c rest, cs = before ++ c :: rest ∧ suite.Leaves c (suite.runAll before t).2 := by
  induction cs generalizing t with
  | nil =>
    rw [show (suite.runAll [] t).2 = t from rfl, hport]
    refine ⟨nofun, fun hleft => ?_⟩
    obtain ⟨before, c, rest, hnil, -⟩ := hleft
    simp at hnil
  | cons c cs ih =>
    have hiff : (suite.run c t).2.holds .listening = true ↔ suite.Leaves c t := by
      rw [suite.port, hport]
      exact or_iff_right (by simp)
    rw [runAll_cons]
    show (suite.runAll cs (suite.run c t).2).2.holds .listening = true ↔ _
    cases hc : (suite.run c t).2.holds .listening with
    | true =>
      have hholds := (suite.runAll_kept cs (suite.run c t).2).holds hc
      exact ⟨fun _ => ⟨[], c, cs, rfl, hiff.mp hc⟩, fun _ => hholds⟩
    | false =>
      rw [ih hc]
      constructor
      · intro hleft
        obtain ⟨before, d, rest, rfl, hd⟩ := hleft
        exact ⟨c :: before, d, rest, rfl, hd⟩
      · intro hleft
        obtain ⟨before, d, rest, hcs, hd⟩ := hleft
        cases before with
        | nil =>
          obtain ⟨rfl, rfl⟩ := List.cons.inj hcs
          rw [hiff.mpr hd] at hc
          cases hc
        | cons c' before =>
          obtain ⟨rfl, rfl⟩ := List.cons.inj hcs
          exact ⟨before, d, rest, rfl, hd⟩

/-- Of the tests behind one that left its socket listening, those pass that do without the port, and
    no others. -/
theorem fails_behind (before rest : List Case) (c : Case)
    (hleft : suite.Leaves c (suite.runAll before t).2) :
    ∀ p ∈ rest.zip ((suite.runAll (before ++ c :: rest) t).1.drop (before.length + 1)),
      p.2 = true ↔ suite.NoPort p.1 := by
  have hsplit : before ++ c :: rest = (before ++ [c]) ++ rest := by simp
  have hlen : (suite.runAll (before ++ [c]) t).1.length = before.length + 1 := by simp
  rw [hsplit, runAll_append, List.drop_left' hlen]
  have hlast : (suite.runAll (before ++ [c]) t).2
      = (suite.run c (suite.runAll before t).2).2 := by
    rw [runAll_append]
    rfl
  rw [hlast]
  exact suite.fails_of_holds rest ((suite.port c _).mpr (Or.inr hleft))

end Suite

end Sockets
