import TestServer.Lib.DescriptorTable

/-! # How the servers come to listen

    `Listen` of `socket_basic/server.cpp`, `sample_listen` of
    `sample_socket/test_server.cpp` and the beginning of `main` in
    `sample_epoll/echo_server.cpp`, which return at the first call that fails
    and leave the socket open then:

    ```
    listening_fd = socket(AF_INET, SOCK_STREAM, 0);
    if (listening_fd <= 0) return -1;
    ret = setsockopt(listening_fd, SOL_SOCKET, SO_REUSEADDR, ...);
    if (ret < 0) return -1;
    ret = bind(listening_fd, ...);
    if (ret < 0) return -1;
    if (listen(listening_fd, 5) < 0) return -1;
    return listening_fd;
    ```

    * `createListening`: the table of descriptors behind it.
    * `Listen`, `sample_listen`, `Accept`: what the callers get.
    * `Created`, `created`: everything that can come of it. `Listen_cases` and
      `Listening.Accept_cases` say what that means for the callers.
-/

open Descriptors

namespace Sockets

/-- What a descriptor is open on. -/
inductive File where
  /-- What the process had open before. -/
  | other (k : Nat)
  /-- A socket that does not listen. -/
  | socket
  /-- A socket that listens on the port of the program. -/
  | listening
  | linkage
  deriving DecidableEq

/-- Whether the calls succeed, as far as the process itself does not prevent it. -/
structure SetupAnswers where
  socket : Bool
  setsockopt : Bool
  bind : Bool
  listen : Bool

/-- The calls behind `socket`. `SO_REUSEADDR` does not help `bind` while another socket listens on
    the port. -/
def bindAndListen (a : SetupAnswers) (listening_fd : Nat) (t : Table File) :
    Bool × Int × Table File :=
  if listening_fd = 0 then (false, listening_fd, t)
  else if !a.setsockopt then (false, listening_fd, t)
  else if !a.bind || t.holds .listening then (false, listening_fd, t)
  else if !a.listen then (false, listening_fd, t)
  else (true, listening_fd, t.put listening_fd (some .listening))

/-- The calls in front of `accept`: whether all succeeded, the variable `listening_fd`, and the
    table. -/
def createListening (a : SetupAnswers) (t : Table File) : Bool × Int × Table File :=
  if a.socket then bindAndListen a (t.openFile .socket).1 (t.openFile .socket).2
  else (false, -1, t)

/-- `Listen()`. -/
def Listen (a : SetupAnswers) (t : Table File) : Int × Table File :=
  let (ok, listening_fd, t) := createListening a t
  (if ok then listening_fd else -1, t)

/-- `sample_listen(listening_fd)`: what it returns, and the variable. -/
def sample_listen (a : SetupAnswers) (t : Table File) : Int × Int × Table File :=
  let (ok, listening_fd, t) := createListening a t
  (if ok then 0 else -1, listening_fd, t)

/-- `Accept(listening_fd)`, and `one_accept(listening_fd)` of `sample_socket`: `accept` fails unless
    the descriptor is one of a socket that listens. -/
def Accept (succeeds : Bool) (listening_fd : Int) (t : Table File) : Int × Table File :=
  if succeeds && t.get listening_fd.toNat == some .listening && 0 ≤ listening_fd then
    let (linkage_fd, t) := t.openFile .linkage
    ((linkage_fd : Int), t)
  else (-1, t)

/-- `close`, whose result is not looked at. -/
def closed (t : Table File) (fd : Int) : Table File := (t.close fd.toNat).getD t

/-! ### What can come of it -/

/-- Everything that can come of `createListening`. -/
inductive Created (t : Table File) : Bool → Int → Table File → Prop where
  | none : Created t false (-1) t
  /-- The socket is left open. -/
  | left {fd : Nat} {t' : Table File} : t.Opens fd .socket t' → Created t false fd t'
  | listens {fd : Nat} {t' : Table File} : fd ≠ 0 → t.get 0 ≠ none →
      t.holds .listening = false → t.Opens fd .listening t' → Created t true fd t'

theorem holds_socket {t t' : Table File} {fd : Nat} (h : t.Opens fd .socket t') :
    t'.holds .listening = t.holds .listening := by
  rw [Bool.eq_iff_iff, Table.holds_iff, Table.holds_iff]
  constructor
  · intro hholds
    obtain ⟨e, he⟩ := hholds
    rw [h.get] at he
    split at he
    · cases he
    · exact ⟨e, he⟩
  · intro hholds
    obtain ⟨e, he⟩ := hholds
    exact ⟨e, h.kept e _ he⟩

theorem created_of_opens (a : SetupAnswers) {t t' : Table File} {fd : Nat}
    (hlowest : fd = t.lowest) (h : t.Opens fd .socket t') :
    Created t (bindAndListen a fd t').1 (bindAndListen a fd t').2.1
      (bindAndListen a fd t').2.2 := by
  have hlistens : t.Opens fd .listening (t'.put fd (some .listening)) := by
    refine ⟨h.free, fun e => ?_⟩
    rw [Table.get_put, h.get]
    split <;> rfl
  unfold bindAndListen
  by_cases hzero : fd = 0
  · rw [if_pos hzero]
    exact .left h
  rw [if_neg hzero]
  by_cases hopt : (!a.setsockopt) = true
  · rw [if_pos hopt]
    exact .left h
  rw [if_neg hopt]
  by_cases hbind : (!a.bind || t'.holds .listening) = true
  · rw [if_pos hbind]
    exact .left h
  rw [if_neg hbind]
  by_cases hlisten : (!a.listen) = true
  · rw [if_pos hlisten]
    exact .left h
  rw [if_neg hlisten]
  rw [holds_socket h, Bool.or_eq_true, not_or] at hbind
  -- a lower descriptor would have been taken
  have hused : t.get 0 ≠ none := fun hfree =>
    hzero (hlowest.trans (Nat.le_zero.mp (Table.lowest_le hfree)))
  exact .listens hzero hused (by simpa using hbind.2) hlistens

theorem created (a : SetupAnswers) (t : Table File) :
    Created t (createListening a t).1 (createListening a t).2.1 (createListening a t).2.2 := by
  unfold createListening
  split
  · exact created_of_opens a rfl (t.opens_lowest .socket)
  · exact .none

/-- The descriptor `fd` listens, and 0 is not free. -/
structure Listening (t : Table File) (fd : Nat) : Prop where
  pos : 0 < fd
  listening : t.get fd = some .listening
  zero : t.get 0 ≠ none

/-- A listening socket goes on to listen while others are opened. -/
theorem Listening.of_kept {t t' : Table File} {fd : Nat} (h : Listening t fd) (hkept : t.Kept t') :
    Listening t' fd := by
  obtain ⟨file, hfile⟩ := Option.ne_none_iff_exists'.mp h.zero
  refine ⟨h.pos, hkept fd _ h.listening, ?_⟩
  rw [hkept 0 file hfile]
  simp

/-- A new socket listens at a descriptor that is not the lowest one. -/
theorem listening_of_opens {t t' : Table File} {fd : Nat} (h : t.Opens fd .listening t')
    (hzero : fd ≠ 0) (hused : t.get 0 ≠ none) : Listening t' fd := by
  obtain ⟨file, hfile⟩ := Option.ne_none_iff_exists'.mp hused
  refine ⟨Nat.pos_of_ne_zero hzero, (h.get fd).trans (if_pos rfl), ?_⟩
  rw [h.kept 0 file hfile]
  simp

/-- `Listen` returns a positive descriptor of a socket that listens, and then no other socket did,
    or -1; then it may have left its socket open. -/
theorem Listen_cases (a : SetupAnswers) (t : Table File) :
    (∃ fd : Nat, (Listen a t).1 = fd ∧ Listening (Listen a t).2 fd ∧
      t.holds .listening = false ∧ t.Opens fd .listening (Listen a t).2) ∨
    ((Listen a t).1 = -1 ∧ t.Kept (Listen a t).2 ∧
      (Listen a t).2.holds .listening = t.holds .listening) := by
  have hcreated := created a t
  unfold Listen
  generalize createListening a t = r at hcreated
  obtain ⟨ok, fd, t'⟩ := r
  cases hcreated with
  | none => exact Or.inr ⟨rfl, .refl _, rfl⟩
  | left h => exact Or.inr ⟨rfl, h.kept, holds_socket h⟩
  | listens hzero hused hport h =>
    exact Or.inl ⟨_, rfl, listening_of_opens h hzero hused, hport, h⟩

/-- `sample_listen` returns 0 when a socket listens, and -1 when none does at `listening_fd`; then
    `accept` fails. -/
theorem sample_listen_cases (a : SetupAnswers) (t : Table File) :
    (∃ (fd : Nat) (t' : Table File), sample_listen a t = (0, (fd : Int), t') ∧ Listening t' fd ∧
      t.holds .listening = false ∧ t.Opens fd .listening t') ∨
    ∃ (listening_fd : Int) (t' : Table File), sample_listen a t = (-1, listening_fd, t') ∧
      t.Kept t' ∧ t'.holds .listening = t.holds .listening ∧
      ∀ succeeds, Accept succeeds listening_fd t' = (-1, t') := by
  have hcreated := created a t
  unfold sample_listen
  generalize createListening a t = r at hcreated
  obtain ⟨ok, fd, t'⟩ := r
  cases hcreated with
  | none =>
    refine Or.inr ⟨-1, _, rfl, .refl _, rfl, fun succeeds => ?_⟩
    unfold Accept
    rw [if_neg (by simp)]
  | @left fd _ h =>
    refine Or.inr ⟨fd, _, rfl, h.kept, holds_socket h, fun succeeds => ?_⟩
    have hsocket := (h.get fd).trans (if_pos rfl)
    unfold Accept
    rw [if_neg (by simp [hsocket])]
  | listens hzero hused hport h =>
    exact Or.inl ⟨_, _, rfl, listening_of_opens h hzero hused, hport, h⟩

/-- `Accept` returns a positive descriptor that was free, or -1. -/
theorem Listening.Accept_cases {t : Table File} {fd : Nat} (h : Listening t fd) (succeeds : Bool) :
    (succeeds = true ∧ ∃ (linkage_fd : Nat) (t' : Table File), 0 < linkage_fd ∧
      Accept succeeds fd t = ((linkage_fd : Int), t') ∧ t.Opens linkage_fd .linkage t') ∨
    (succeeds = false ∧ Accept succeeds fd t = (-1, t)) := by
  cases succeeds with
  | false => exact Or.inr ⟨rfl, rfl⟩
  | true =>
    have haccept : Accept true fd t = ((t.lowest : Int), (t.openFile .linkage).2) := by
      unfold Accept
      rw [if_pos]
      · rfl
      · simp [h.listening]
    refine Or.inl ⟨rfl, t.lowest, _, ?_, haccept, t.opens_lowest .linkage⟩
    by_contra hzero
    have hfree := t.get_lowest
    rw [Nat.eq_zero_of_not_pos hzero] at hfree
    exact h.zero hfree

end Sockets
