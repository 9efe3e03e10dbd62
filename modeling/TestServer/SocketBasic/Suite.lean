import TestServer.Sockets.Suite

/-! # The tests of `socket_basic/server.cpp`, one after the other

    All tests run in one process and listen on one port. `ASSERT_GT` leaves a
    test, and with it the descriptors that are open then:

    ```
    int listening_fd = Listen();
    ASSERT_GT(listening_fd, 0);
    int linkage_fd = Accept(listening_fd);
    ASSERT_GT(linkage_fd, 0);
    int ret = write_char(linkage_fd);
    ASSERT_GT(ret, 0);
    ret = read_char(linkage_fd);
    ASSERT_GT(ret, 0);
    close(linkage_fd);
    close(listening_fd);
    ```

    The test of the suite `B` accepts three connections and forks a child for
    each, which goes on with the tests behind it when it is done with the
    connection. The one of the suite `C` makes three threads; an exception of
    `std::thread` ends it. The test `PROTOS` of the suite `A` is empty.

    * `testA`, `testB`, `testC`: the table of descriptors behind a test.
    * `suite_descriptors`: what the tests leave open.
    * `suite_fails_on`: when all tests behind a test fail but `PROTOS`.
    * `forked_tests_fail`: what the children of `B` come to.
-/

open Descriptors Sockets

namespace SocketBasic

/-! ### The tests -/

/-- Whether the calls for a connection succeed. In `PROTO` the server reads first. -/
structure Exchange where
  accept : Bool
  write : Bool
  read : Bool

/-- The two calls return positive numbers. -/
def Exchange.ok (e : Exchange) : Bool := e.write && e.read

/-- A test of the suite `A`: whether it passes, and the table behind it. -/
def testA (a : SetupAnswers) (e : Exchange) (t : Table File) : Bool × Table File :=
  let (listening_fd, t) := Listen a t
  if listening_fd ≤ 0 then (false, t)
  else
    let (linkage_fd, t) := Accept e.accept listening_fd t
    if linkage_fd ≤ 0 then (false, t)
    else if e.ok then (true, closed (closed t linkage_fd) listening_fd)
    else (false, t)

/-- The loop of the test of the suite `B`, with one connection and answer of `fork` for each pass:
    whether it passes, the table, and the tables the children leave the test with. -/
def loopB (listening_fd : Int) : List (Exchange × Bool) → Table File →
    Bool × Table File × List (Table File)
  | [], t => (true, closed t listening_fd, [])
  | (e, forks) :: es, t =>
    let (linkage_fd, t) := Accept e.accept listening_fd t
    if linkage_fd ≤ 0 then (false, t, [])
    else if !forks then (false, t, [])
    else
      -- the child has a table of its own, and the listening descriptor in it
      let child := if e.ok then closed t linkage_fd else t
      let (passed, t, children) := loopB listening_fd es (closed t linkage_fd)
      (passed, t, child :: children)

/-- The test of the suite `B`. -/
def testB (a : SetupAnswers) (es : List (Exchange × Bool)) (t : Table File) :
    Bool × Table File × List (Table File) :=
  let (listening_fd, t) := Listen a t
  if listening_fd ≤ 0 then (false, t, []) else loopB listening_fd es t

/-- The loop of the test of the suite `C`, with one connection for each pass, and whether the
    constructor of `std::thread` returns. A thread leaves its function behind a call that fails, and
    the test goes on. -/
def loopC (listening_fd : Int) : List (Exchange × Bool) → Table File → Bool × Table File
  | [], t => (true, closed t listening_fd)
  | (e, creates) :: es, t =>
    let (linkage_fd, t) := Accept e.accept listening_fd t
    if linkage_fd ≤ 0 then (false, t)
    else if !creates then (false, t)
    else
      let (passed, t) := loopC listening_fd es (if e.ok then closed t linkage_fd else t)
      (passed && e.ok, t)

/-- The test of the suite `C`. -/
def testC (a : SetupAnswers) (es : List (Exchange × Bool)) (t : Table File) :
    Bool × Table File :=
  let (listening_fd, t) := Listen a t
  if listening_fd ≤ 0 then (false, t) else loopC listening_fd es t

/-- A test with what its calls answer, a pass of its loop after the other. -/
inductive Case where
  | A (a : SetupAnswers) (e : Exchange)
  | PROTOS
  | B (a : SetupAnswers) (es : List (Exchange × Bool))
  | C (a : SetupAnswers) (es : List (Exchange × Bool))

/-- What `Listen` is answered, where it is called. -/
def Case.setup : Case → Option SetupAnswers
  | A a _ => some a
  | PROTOS => none
  | B a _ => some a
  | C a _ => some a

/-- Whether the test passes, and the table behind it. -/
def Case.run : Case → Table File → Bool × Table File
  | A a e, t => testA a e t
  | PROTOS, t => (true, t)
  | B a es, t => ((testB a es t).1, (testB a es t).2.1)
  | C a es, t => testC a es t

/-- A call fails behind which the test stops. -/
def Case.stops : Case → Bool
  | A _ e => !(e.accept && e.ok)
  | PROTOS => false
  | B _ es => !es.all fun e => e.1.accept && e.2
  | C _ es => !es.all fun e => e.1.accept && e.2

/-- `Listen` is called and succeeds. -/
def Case.Listens (c : Case) (t : Table File) : Prop :=
  ∃ a, c.setup = some a ∧ 0 < (Listen a t).1

/-! ### Behind `Listen` -/

/-- What the test leaves behind when `fd` listens in `t`: whether it passes, and whether it stops
    in front of `close(listening_fd)`. -/
structure Leaves (fd : Nat) (t : Table File) (passed stops : Bool) (t' : Table File) : Prop where
  kept : ∀ e file, e ≠ fd → t.get e = some file → t'.get e = some file
  port : ∀ e, e ≠ fd → t'.get e = some .listening → t.get e = some .listening
  listening : t'.get fd = if stops then some .listening else none
  same : passed = true → ∀ e, e ≠ fd → t'.get e = t.get e
  fails : stops = true → passed = false

variable {fd : Nat} {t t' t'' : Table File} {passed stops : Bool}

/-- `close(listening_fd)` and nothing else. -/
theorem leaves_closed (fd : Nat) (t : Table File) : Leaves fd t true false (closed t fd) := by
  have hget : ∀ e, (closed t fd).get e = if e = fd then none else t.get e :=
    fun e => t.get_close fd e
  constructor
  case kept =>
    intro e file hne he
    rw [hget, if_neg hne, he]
  case port =>
    intro e hne he
    rwa [hget, if_neg hne] at he
  case listening =>
    rw [hget]
    simp
  case same =>
    intro _ e hne
    rw [hget, if_neg hne]
  case fails => exact nofun

/-- The test stops. -/
theorem leaves_stops (h : t.get fd = some .listening) : Leaves fd t false true t where
  kept := fun _ _ _ he => he
  port := fun _ _ he => he
  listening := h
  same := by simp
  fails := fun _ => rfl

/-- Nothing is left of what came before. -/
theorem Leaves.of_same (h : Leaves fd t' passed stops t'') (hsame : t.Same t') :
    Leaves fd t passed stops t'' where
  kept := fun e file hne he => h.kept e file hne ((hsame e).trans he)
  port := fun e hne he => (hsame e).symm.trans (h.port e hne he)
  listening := h.listening
  same := fun hp e hne => (h.same hp e hne).trans (hsame e)
  fails := h.fails

/-- A connection came before, and stays open; the test does not pass. -/
theorem Leaves.of_opens (h : Leaves fd t' passed stops t'') {linkage_fd : Nat}
    (hopens : t.Opens linkage_fd .linkage t') : Leaves fd t false stops t'' where
  kept := fun e file hne he => h.kept e file hne (hopens.kept e file he)
  port := by
    intro e hne he
    have hlistens := h.port e hne he
    rw [hopens.get] at hlistens
    split at hlistens
    · cases hlistens
    · exact hlistens
  listening := h.listening
  same := by simp
  fails := fun _ => rfl

/-- The part of `testA` behind `Listen`. -/
theorem leaves_testA (a : SetupAnswers) (e : Exchange) (hfd : (Listen a t).1 = fd)
    (h : Listening (Listen a t).2 fd) :
    Leaves fd (Listen a t).2 (testA a e t).1 (!(e.accept && e.ok)) (testA a e t).2 := by
  have hpos : ¬ (fd : Int) ≤ 0 := by
    have := h.pos
    omega
  unfold testA
  simp only [hfd, if_neg hpos]
  rcases h.Accept_cases e.accept with ⟨haccept, link, t₁, hlink, hret, hopens⟩ | ⟨haccept, hret⟩
  · have hpos : ¬ (link : Int) ≤ 0 := by omega
    simp only [hret, if_neg hpos]
    rw [haccept, Bool.true_and]
    cases e.ok with
    | true => exact (leaves_closed fd _).of_same hopens.close
    | false => exact (leaves_stops (h.of_kept hopens.kept).listening).of_opens hopens
  · simp only [hret]
    rw [haccept, Bool.false_and]
    exact leaves_stops h.listening

/-- The loop of the suite `B`: a child is left with the socket that listens. -/
theorem leaves_loopB (es : List (Exchange × Bool)) (h : Listening t fd) :
    Leaves fd t (loopB fd es t).1 (!es.all fun e => e.1.accept && e.2) (loopB fd es t).2.1 ∧
    ∀ child ∈ (loopB fd es t).2.2, Listening child fd := by
  induction es generalizing t with
  | nil => exact ⟨leaves_closed fd t, by simp [loopB]⟩
  | cons e es ih =>
    obtain ⟨e, forks⟩ := e
    unfold loopB
    rcases h.Accept_cases e.accept with ⟨haccept, link, t₁, hlink, hret, hopens⟩ | ⟨haccept, hret⟩
    · have hpos : ¬ (link : Int) ≤ 0 := by omega
      simp only [hret, if_neg hpos, List.all_cons]
      rw [haccept, Bool.true_and]
      have hlinked := h.of_kept hopens.kept
      cases forks with
      | false => exact ⟨(leaves_stops hlinked.listening).of_opens hopens, by simp⟩
      | true =>
        have hclosed := h.of_kept (Table.Same.kept hopens.close)
        obtain ⟨hleaves, hchildren⟩ := ih hclosed
        refine ⟨hleaves.of_same hopens.close, ?_⟩
        intro child hchild
        rcases List.mem_cons.mp hchild with rfl | hchild
        · cases e.ok with
          | true => exact hclosed
          | false => exact hlinked
        · exact hchildren child hchild
    · simp only [hret, List.all_cons]
      rw [haccept, Bool.false_and]
      exact ⟨leaves_stops h.listening, by simp⟩

/-- The loop of the suite `C`: threads that fail do not stop it. -/
theorem leaves_loopC (es : List (Exchange × Bool)) (h : Listening t fd) :
    Leaves fd t (loopC fd es t).1 (!es.all fun e => e.1.accept && e.2) (loopC fd es t).2 := by
  induction es generalizing t with
  | nil => exact leaves_closed fd t
  | cons e es ih =>
    obtain ⟨e, creates⟩ := e
    unfold loopC
    rcases h.Accept_cases e.accept with ⟨haccept, link, t₁, hlink, hret, hopens⟩ | ⟨haccept, hret⟩
    · have hpos : ¬ (link : Int) ≤ 0 := by omega
      simp only [hret, if_neg hpos, List.all_cons]
      rw [haccept, Bool.true_and]
      have hlinked := h.of_kept hopens.kept
      cases creates with
      | false => exact (leaves_stops hlinked.listening).of_opens hopens
      | true =>
        cases e.ok with
        | true =>
          have hleaves := ih (h.of_kept (Table.Same.kept hopens.close))
          show Leaves fd t ((loopC fd es (closed t₁ link)).1 && true) _
            (loopC fd es (closed t₁ link)).2
          rw [Bool.and_true]
          exact hleaves.of_same hopens.close
        | false =>
          have hleaves := ih hlinked
          simpa using hleaves.of_opens hopens
    · simp only [hret, List.all_cons]
      rw [haccept, Bool.false_and]
      exact leaves_stops h.listening

/-! ### A whole test -/

/-- What a test comes to: whether it passes, and whether it leaves its socket listening. -/
structure Outcome (t : Table File) (passed : Bool) (left : Prop) (t' : Table File) : Prop where
  kept : t.Kept t'
  same : passed = true → t.Same t'
  port : t'.holds .listening = true ↔ t.holds .listening = true ∨ left
  fails : left → passed = false

/-- Behind a `Listen` that succeeded. -/
theorem Leaves.outcome (h : Leaves fd t' passed stops t'') (hopens : t.Opens fd .listening t')
    (hport : t.holds .listening = false) : Outcome t passed (stops = true) t'' := by
  have hother : ∀ e, e ≠ fd → t'.get e = t.get e := fun e hne => (hopens.get e).trans (if_neg hne)
  constructor
  case kept =>
    intro e file he
    have hne : e ≠ fd := by
      rintro rfl
      rw [hopens.free] at he
      cases he
    exact h.kept e file hne ((hother e hne).trans he)
  case same =>
    intro hp e
    by_cases he : e = fd
    · -- the test did not stop, so the socket is closed
      have hstops : stops = false := by
        cases hs : stops with
        | false => rfl
        | true => cases (h.fails hs).symm.trans hp
      rw [he, h.listening, hstops, hopens.free]
      rfl
    · rw [h.same hp e he, hother e he]
  case port =>
    rw [hport, Table.holds_iff]
    constructor
    · intro hholds
      obtain ⟨e, he⟩ := hholds
      by_cases hfd : e = fd
      · rw [hfd, h.listening] at he
        split at he
        · next hs => exact Or.inr hs
        · cases he
      · have hold := (hother e hfd).symm.trans (h.port e hfd he)
        have htaken : t.holds .listening = true := Table.holds_iff.mpr ⟨e, hold⟩
        rw [hport] at htaken
        cases htaken
    · intro hor
      rcases hor with hno | hs
      · cases hno
      · exact ⟨fd, by rw [h.listening, hs]; rfl⟩
  case fails => exact h.fails

/-- Every test does what `Leaves` says behind a `Listen` that succeeds, and nothing behind one that
    fails. -/
theorem Case.run_of_listening {c : Case} {a : SetupAnswers} (hc : c.setup = some a)
    (hfd : (Listen a t).1 = fd) (h : Listening (Listen a t).2 fd) :
    Leaves fd (Listen a t).2 (c.run t).1 c.stops (c.run t).2 := by
  have hpos : ¬ (fd : Int) ≤ 0 := by
    have := h.pos
    omega
  cases c with
  | PROTOS => cases hc
  | A a' e =>
    obtain rfl := Option.some.inj hc
    exact leaves_testA _ e hfd h
  | B a' es =>
    obtain rfl := Option.some.inj hc
    have hrun : testB a' es t = loopB fd es (Listen a' t).2 := by
      unfold testB
      simp only [hfd, if_neg hpos]
    show Leaves fd _ (testB a' es t).1 _ (testB a' es t).2.1
    rw [hrun]
    exact (leaves_loopB es h).1
  | C a' es =>
    obtain rfl := Option.some.inj hc
    have hrun : testC a' es t = loopC fd es (Listen a' t).2 := by
      unfold testC
      simp only [hfd, if_neg hpos]
    show Leaves fd _ (testC a' es t).1 _ (testC a' es t).2
    rw [hrun]
    exact leaves_loopC es h

theorem Case.run_of_failed {c : Case} {a : SetupAnswers} (hc : c.setup = some a)
    (hret : (Listen a t).1 = -1) : c.run t = (false, (Listen a t).2) := by
  cases c with
  | PROTOS => cases hc
  | A a' e =>
    obtain rfl := Option.some.inj hc
    simp [run, testA, hret]
  | B a' es =>
    obtain rfl := Option.some.inj hc
    simp [run, testB, hret]
  | C a' es =>
    obtain rfl := Option.some.inj hc
    simp [run, testC, hret]

theorem Case.setup_eq_none {c : Case} : c.setup = none ↔ c = .PROTOS := by
  cases c <;> simp [setup]

/-- What every test comes to. -/
theorem Case.outcome (c : Case) (t : Table File) :
    Outcome t (c.run t).1 (c.Listens t ∧ c.stops = true) (c.run t).2 := by
  cases hc : c.setup with
  | none =>
    obtain rfl := Case.setup_eq_none.mp hc
    exact ⟨.refl t, fun _ _ => rfl, by simp [run, stops], by simp [stops]⟩
  | some a =>
    have hiff : c.Listens t ↔ 0 < (Listen a t).1 := by simp [Case.Listens, hc]
    rcases Listen_cases a t with ⟨fd, hret, hlistening, hport, hopens⟩ | ⟨hret, hkept, hport⟩
    · have houtcome := (Case.run_of_listening hc hret hlistening).outcome hopens hport
      have hleft : (c.Listens t ∧ c.stops = true) ↔ c.stops = true := by
        rw [hiff, hret]
        have := hlistening.pos
        exact and_iff_right (by omega)
      exact ⟨houtcome.kept, houtcome.same, by rw [hleft]; exact houtcome.port,
        by rw [hleft]; exact houtcome.fails⟩
    · rw [Case.run_of_failed hc hret]
      refine ⟨hkept, by simp, ?_, fun _ => rfl⟩
      rw [hport, hiff, hret]
      simp

/-- While another socket listens, `PROTOS` passes and no other test. -/
theorem Case.passes_iff (c : Case) (t : Table File) (htaken : t.holds .listening = true) :
    (c.run t).1 = true ↔ c = .PROTOS := by
  cases hc : c.setup with
  | none =>
    obtain rfl := Case.setup_eq_none.mp hc
    exact iff_of_true rfl rfl
  | some a =>
    have hne : c ≠ .PROTOS := fun h => by simp [Case.setup_eq_none.mpr h] at hc
    rcases Listen_cases a t with ⟨-, -, -, hport, -⟩ | ⟨hret, -, -⟩
    · rw [hport] at htaken
      cases htaken
    · rw [Case.run_of_failed hc hret]
      exact iff_of_false Bool.false_ne_true hne

/-! ### All tests -/

/-- The tests of the program. -/
def suite : Suite Case where
  run := Case.run
  Leaves := fun c t => c.Listens t ∧ c.stops = true
  NoPort := fun c => c = .PROTOS
  kept := fun c t => (c.outcome t).kept
  port := fun c t => (c.outcome t).port
  taken := Case.passes_iff

/-- Whatever the tests are and their calls answer: what the process had open before them is still
    open behind them, on the same; and if all of them passed, nothing else is. -/
theorem suite_descriptors (cs : List Case) (t : Table File) :
    t.Kept (suite.runAll cs t).2 ∧
    ((∀ r ∈ (suite.runAll cs t).1, r = true) → t.Same (suite.runAll cs t).2) := by
  refine ⟨suite.runAll_kept cs t, ?_⟩
  induction cs generalizing t with
  | nil => exact fun _ _ => rfl
  | cons c cs ih =>
    intro hpassed
    exact ((c.outcome t).same (hpassed _ List.mem_cons_self)).trans
      (ih (c.run t).2 fun r hr => hpassed r (List.mem_cons_of_mem _ hr))

/-- A socket that listens is left behind the tests exactly when one of them stopped, behind a
    `Listen` that succeeded, at a call that failed: `accept`, in the suite `A` the exchange, in the
    suite `B` `fork`, in the suite `C` the constructor of `std::thread`, but not the exchange of a
    thread. That test fails, and so do all tests behind it but the empty one, whatever their calls
    answer. -/
theorem suite_fails_on (cs : List Case) (t : Table File) (hport : t.holds .listening = false) :
    ((suite.runAll cs t).2.holds .listening = true ↔
      ∃ before c rest, cs = before ++ c :: rest ∧ c.Listens (suite.runAll before t).2 ∧
        c.stops = true) ∧
    ∀ before c rest, cs = before ++ c :: rest → c.Listens (suite.runAll before t).2 →
      c.stops = true →
      (c.run (suite.runAll before t).2).1 = false ∧
        ∀ p ∈ rest.zip ((suite.runAll cs t).1.drop (before.length + 1)),
          p.2 = true ↔ p.1 = .PROTOS := by
  refine ⟨suite.holds_runAll_iff cs hport, ?_⟩
  intro before c rest hcs hlistens hstops
  subst hcs
  exact ⟨(c.outcome _).fails ⟨hlistens, hstops⟩,
    suite.fails_behind before rest c ⟨hlistens, hstops⟩⟩

/-- A process with three descriptors. -/
def tester : Table File where
  slots := [some (.other 0), some (.other 0), some (.other 0)]

/-- All system calls succeed. -/
def allWell : SetupAnswers where
  socket := true
  setsockopt := true
  bind := true
  listen := true

/-- The `read` of the first test fails: of the two tests behind it, the empty one passes and the
    other one fails. -/
theorem suite_fails_on_three :
    let rest : List Case := [.PROTOS, .A allWell ⟨true, true, true⟩]
    ∀ p ∈ rest.zip ((suite.runAll (.A allWell ⟨true, true, false⟩ :: rest) tester).1.drop 1),
      p.2 = true ↔ p.1 = .PROTOS := by
  intro rest
  exact ((suite_fails_on (.A allWell ⟨true, true, false⟩ :: rest) tester rfl).2 [] _ _ rfl
    ⟨allWell, rfl, by decide⟩ rfl).2

/-- All tests that a child of the suite `B` goes on with fail but the empty one, since the child
    keeps the socket that listens, however the exchange over its connection went. -/
theorem forked_tests_fail (a : SetupAnswers) (es : List (Exchange × Bool)) (t : Table File)
    (child : Table File) (hchild : child ∈ (testB a es t).2.2) (cs : List Case) :
    ∀ p ∈ cs.zip (suite.runAll cs child).1, p.2 = true ↔ p.1 = .PROTOS := by
  rcases Listen_cases a t with ⟨fd, hret, hlistening, -, -⟩ | ⟨hret, -, -⟩
  · have hnot : ¬ (fd : Int) ≤ 0 := by
      have := hlistening.pos
      omega
    have hrun : testB a es t = loopB fd es (Listen a t).2 := by
      unfold testB
      simp only [hret, if_neg hnot]
    rw [hrun] at hchild
    have hlistens := (leaves_loopB es hlistening).2 child hchild
    exact suite.fails_of_holds cs (Table.holds_iff.mpr ⟨fd, hlistens.listening⟩)
  · have hrun : (testB a es t).2.2 = [] := by
      unfold testB
      simp [hret]
    rw [hrun] at hchild
    cases hchild

/-- The only child of a loop with one pass runs the test of the suite `C`. -/
theorem forked_tests_fail_one :
    ∃ child ∈ (testB allWell [(⟨true, true, true⟩, true)] tester).2.2,
      ∀ p ∈ [Case.C allWell [(⟨true, true, true⟩, true)]].zip
          (suite.runAll [.C allWell [(⟨true, true, true⟩, true)]] child).1,
        p.2 = true ↔ p.1 = .PROTOS :=
  ⟨_, List.mem_cons_self,
    forked_tests_fail allWell [(⟨true, true, true⟩, true)] tester _ List.mem_cons_self _⟩

end SocketBasic
