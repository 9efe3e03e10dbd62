import TestServer.Client.Loops

/-! # Data that arrives late

    `poll_client` calls `poll` once, before its loop, and the loop tests the
    `revents` of that call in every pass.

    * `ReadableFrom`: the socket is readable from the `k`-th call of `poll` on.
    * `Serves`: `poll_client` calls each callback once, closes the socket and
      returns 0.
    * `serves_iff`: it does exactly when the socket is readable at once.
    * `not_pollReturns`: otherwise it never ends.
-/

open Loop

namespace Client

/-- The first `k` calls of `poll` find the socket not readable, and the later ones find it
    readable. None fails. -/
def PollAnswers.ReadableFrom (a : PollAnswers) (k : Nat) : Prop :=
  (∀ i, a.poll i ≠ -1) ∧ ∀ i, a.revents i &&& POLLIN = POLLIN ↔ k ≤ i

/-- Both callbacks succeed. -/
def PollAnswers.Succeeds (a : PollAnswers) : Prop := 0 ≤ a.read_message ∧ 0 ≤ a.write_message

instance (a : PollAnswers) : Decidable a.Succeeds :=
  inferInstanceAs (Decidable (0 ≤ a.read_message ∧ 0 ≤ a.write_message))

/-- `poll_client` ends with 0, and besides `poll` it called `read_message`, then `write_message`,
    then `close`. -/
def Serves (socket_fd : Int) (a : PollAnswers) : Prop :=
  ∃ r, PollReturns socket_fd a r ∧ r.ret = some 0 ∧
    r.calls.filter (· ≠ .poll socket_fd)
      = [.read_message socket_fd, .write_message socket_fd, .close socket_fd]

variable {socket_fd : Int} {a : PollAnswers} {k : Nat}

/-- The one call of `poll`. -/
theorem pollReturns_iff (h : ∀ i, a.poll i ≠ -1) {r : Outcome} : PollReturns socket_fd a r ↔
    Returns (pollPass socket_fd a) { revents := a.revents 0, calls := [.poll socket_fd] } r := by
  unfold PollReturns pollStart
  simp only [if_neg (h 0)]
  rfl

/-- A pass over a socket that is not readable changes nothing. -/
theorem pollPass_again {s : PollState} (h : ¬ s.revents &&& POLLIN = POLLIN) :
    pollPass socket_fd a s = .again s := by
  unfold pollPass
  rw [if_neg h]

/-- A pass over a readable socket, with callbacks that succeed, is the last. -/
theorem pollPass_leave (ha : a.Succeeds) {s : PollState} (h : s.revents &&& POLLIN = POLLIN) :
    pollPass socket_fd a s = .leave
      { calls := s.calls ++ [.read_message socket_fd, .write_message socket_fd, .close socket_fd]
        ret := some 0 } := by
  obtain ⟨hread, hwrite⟩ := ha
  unfold pollPass
  rw [if_pos h]
  simp only [if_neg (Int.not_lt.mpr hread), if_neg (Int.not_lt.mpr hwrite), leave,
    List.append_assoc]
  rfl

/-- The loop never ends if the socket was not readable when `poll` was called. -/
theorem not_pollReturns (h : ∀ i, a.poll i ≠ -1) (hlate : ¬ a.revents 0 &&& POLLIN = POLLIN)
    (r : Outcome) : ¬ PollReturns socket_fd a r := by
  rw [pollReturns_iff h]
  apply not_returns_of_recurrent (fun s => ¬ s.revents &&& POLLIN = POLLIN)
  · intro s hs
    exact ⟨s, hs, .single (pollPass_again hs)⟩
  · exact hlate

/-- With callbacks that succeed, `poll_client` serves a socket that becomes readable at the `k`-th
    call of `poll` exactly when `k` is 0; for every other `k` it does not end. -/
theorem serves_iff (socket_fd : Int) (hk : a.ReadableFrom k) (ha : a.Succeeds) :
    (Serves socket_fd a ↔ k = 0) ∧ (k ≠ 0 → ∀ r, ¬ PollReturns socket_fd a r) := by
  obtain ⟨hpoll, hrevents⟩ := hk
  have hend : k ≠ 0 → ∀ r, ¬ PollReturns socket_fd a r := by
    intro hne
    apply not_pollReturns hpoll
    rw [hrevents]
    omega
  refine ⟨⟨?_, ?_⟩, hend⟩
  · intro h
    obtain ⟨r, hr, -⟩ := h
    by_contra hne
    exact hend hne r hr
  · intro h
    subst h
    have hready : a.revents 0 &&& POLLIN = POLLIN := (hrevents 0).mpr (Nat.le_refl 0)
    refine ⟨_, (pollReturns_iff hpoll).mpr (.leave (pollPass_leave ha hready)), rfl, ?_⟩
    simp

/-- The answers where `poll` finds the socket readable from the `k`-th call on. -/
def PollAnswers.from (k : Nat) : PollAnswers where
  poll := fun i => if k ≤ i then 1 else 0
  revents := fun i => if k ≤ i then POLLIN else 0
  read_message := 0
  write_message := 0

theorem PollAnswers.from_readableFrom (k : Nat) : (PollAnswers.from k).ReadableFrom k := by
  constructor
  · intro i
    show (if k ≤ i then 1 else 0 : Int) ≠ -1
    split <;> decide
  · intro i
    show (if k ≤ i then POLLIN else 0) &&& POLLIN = POLLIN ↔ k ≤ i
    split
    case isTrue hle => exact iff_of_true (by decide) hle
    case isFalse hlt => exact iff_of_false (by decide) hlt

/-- A server that has written before the client polls. -/
theorem serves_at_once : Serves 4 (PollAnswers.from 0) :=
  (serves_iff 4 (PollAnswers.from_readableFrom 0) (by decide)).1.mpr rfl

/-- A server that writes between the first and the second call of `poll`. -/
theorem late_data_missed : (PollAnswers.from 1).ReadableFrom 1 ∧ (PollAnswers.from 1).Succeeds ∧
    ∀ r, ¬ PollReturns 4 (PollAnswers.from 1) r := by
  have hfrom := PollAnswers.from_readableFrom 1
  refine ⟨hfrom, by decide, not_pollReturns hfrom.1 ?_⟩
  rw [hfrom.2]
  decide

end Client
