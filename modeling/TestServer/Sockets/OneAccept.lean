import TestServer.Sockets.Suite

/-! # `one_accept` with its callbacks, and the tests that call it

    `one_accept` of `sample_socket/test_server.cpp`, and the tests `ONE`:

    ```
    linkage_fd = accept(listening_fd, ...);
    if (linkage_fd < 0) return -1;
    int ret = write_message(linkage_fd);
    ret = read_message(linkage_fd);
    close(linkage_fd);
    close(listening_fd);
    return 0;
    ```
    ```
    int ret = sample_listen(listening_fd);
    EXPECT_EQ(ret, 0);
    ret = one_accept(listening_fd, write_char, read_char);
    EXPECT_EQ(ret, 0);
    ```

    `EXPECT_EQ` goes on when it does not hold. What the callbacks return has no
    consequences.

    * `one_tests`: what any number of these tests leave behind.
-/

open Descriptors

namespace Sockets

/-- `one_accept(listening_fd, write_message, read_message)`. -/
def one_accept (succeeds : Bool) (listening_fd : Int) (t : Table File) : Int × Table File :=
  let (linkage_fd, t) := Accept succeeds listening_fd t
  if linkage_fd < 0 then (-1, t)
  else (0, closed (closed t linkage_fd) listening_fd)

/-- What the calls of a test `ONE` answer. -/
structure OneAnswers where
  setup : SetupAnswers
  accept : Bool

/-- A test `ONE`: whether it passes, and the table behind it. -/
def testOne (a : OneAnswers) (t : Table File) : Bool × Table File :=
  let (ret, listening_fd, t) := sample_listen a.setup t
  let (ret', t) := one_accept a.accept listening_fd t
  (ret == 0 && ret' == 0, t)

/-- What a test `ONE` comes to: it passes and leaves nothing open, or it fails, and then a socket
    listens behind it if one did before or `accept` failed. -/
theorem testOne_cases (a : OneAnswers) (t : Table File) :
    (testOne a t).1 = true ∧ t.holds .listening = false ∧ a.accept = true ∧
      t.Same (testOne a t).2 ∨
    (testOne a t).1 = false ∧ t.Kept (testOne a t).2 ∧
      ((testOne a t).2.holds .listening = true ↔
        t.holds .listening = true ∨ (sample_listen a.setup t).1 = 0 ∧ a.accept = false) := by
  unfold testOne
  rcases sample_listen_cases a.setup t with
    ⟨fd, t₁, hlisten, hlistening, hport, hopens⟩ | ⟨fd, t₁, hlisten, hkept, hport, hfails⟩
  · simp only [hlisten, one_accept]
    rcases hlistening.Accept_cases a.accept with
      ⟨haccept, link, t₂, -, hret, hlink⟩ | ⟨haccept, hret⟩
    · have hpos : ¬ (link : Int) < 0 := by omega
      simp only [hret, if_neg hpos]
      refine Or.inl ⟨rfl, hport, haccept, fun e => ?_⟩
      show ((closed t₂ link).close fd |>.getD (closed t₂ link)).get e = t.get e
      rw [Table.get_close]
      split
      · next he => rw [he, hopens.free]
      · next he =>
        rw [show (closed t₂ link).get e = t₁.get e from hlink.close e, hopens.get, if_neg he]
    · simp only [hret]
      refine Or.inr ⟨rfl, hopens.kept, fun _ => Or.inr ⟨trivial, haccept⟩, fun _ => ?_⟩
      exact Table.holds_iff.mpr ⟨fd, hlistening.listening⟩
  · simp only [hlisten, one_accept, hfails]
    refine Or.inr ⟨rfl, hkept, ?_⟩
    show t₁.holds .listening = true ↔ _
    rw [hport]
    simp

/-- The tests `ONE` of the program. -/
def oneSuite : Suite OneAnswers where
  run := testOne
  Leaves := fun a t => (sample_listen a.setup t).1 = 0 ∧ a.accept = false
  NoPort := fun _ => False
  kept := by
    intro a t
    rcases testOne_cases a t with ⟨-, -, -, hsame⟩ | ⟨-, hkept, -⟩
    · exact hsame.kept
    · exact hkept
  port := by
    intro a t
    rcases testOne_cases a t with ⟨-, hport, haccept, hsame⟩ | ⟨-, -, hport⟩
    · rw [hsame.holds, haccept]
      simp
    · exact hport
  taken := by
    intro a t h
    rcases testOne_cases a t with ⟨-, hport, -⟩ | ⟨hfails, -⟩
    · rw [hport] at h
      cases h
    · rw [hfails]
      simp

end Sockets
