import Mathlib.Data.List.Nodup
import Mathlib.Data.Nat.Find
import TestServer.Client.Loops

/-! # What the client loops release

    Each exit closes the descriptors by hand before it returns. `select_client`
    has one exit that does not: `break`, when `select` returns 0 or fails, leads
    to the end of the function.

    * `Released`: the descriptors were closed once each, and the value is 0
      or -1.
    * `epollReturns_released`, `pollReturns_released`: every exit of these two
      functions releases.
    * `selectReturns_released_iff`: `select_client` does exactly when a callback
      fails before `select` returns 0 or less.
-/

open Loop

namespace Client

/-- The function closed each of the descriptors exactly once, and returned 0 or -1. -/
structure Released (fds : List Int) (r : Outcome) : Prop where
  closed : ∀ fd ∈ fds, r.calls.count (.close fd) = 1
  value : r.ret = some 0 ∨ r.ret = some (-1)

/-- Nothing was closed so far. -/
def NoClose (calls : List Call) : Prop := ∀ fd, .close fd ∉ calls

variable {socket_fd : Int} {calls : List Call} {fds : List Int}

@[simp] theorem noClose_nil : NoClose [] := fun _ => List.not_mem_nil

theorem noClose_snoc {c : Call} :
    NoClose (calls ++ [c]) ↔ NoClose calls ∧ ∀ fd, c ≠ .close fd := by
  simp only [NoClose, List.mem_append, List.mem_singleton, not_or, forall_and, ne_eq, eq_comm]

/-- A call that may have been made. -/
theorem NoClose.ite (h : NoClose calls) {c : Call} (hc : ∀ fd, c ≠ .close fd) (b : Bool) :
    NoClose (if b then calls ++ [c] else calls) := by
  split
  · exact noClose_snoc.mpr ⟨h, hc⟩
  · exact h

/-- An exit that cleans up releases the descriptors, if none was closed before. -/
theorem released_leave {σ : Type} {I : σ → Prop} (h : NoClose calls) (hfds : fds.Nodup) {ret : Int}
    (hret : ret = 0 ∨ ret = -1) : (leave calls fds ret).Ensures I (Released fds) := by
  constructor
  · intro fd hfd
    have hclose : (fds.map Call.close).count (.close fd) = 1 := by
      rw [List.count_map_of_injective _ _ fun _ _ heq => Call.close.inj heq]
      exact List.count_eq_one_of_mem hfds hfd
    show (calls ++ fds.map Call.close).count (.close fd) = 1
    rw [List.count_append, List.count_eq_zero.mpr (h fd), hclose]
  · exact hret.imp (congrArg some) (congrArg some)

/-! ### `epoll_client` and `poll_client` -/

theorem epollStart_ensures (a : EpollAnswers socket_fd) :
    (epollStart a).Ensures (fun s => NoClose s.calls) (Released [a.epoll_fd, socket_fd]) := by
  have hfds : [a.epoll_fd, socket_fd].Nodup := by simpa using a.epoll_fd_ne
  have hcreate : NoClose ([] ++ [.epoll_create]) := noClose_snoc.mpr ⟨noClose_nil, nofun⟩
  have hctl := noClose_snoc.mpr ⟨hcreate, (nofun : ∀ fd, Call.epoll_ctl_add socket_fd ≠ .close fd)⟩
  have hwrite := noClose_snoc.mpr ⟨hctl, (nofun : ∀ fd, Call.write_message socket_fd ≠ .close fd)⟩
  unfold epollStart
  simp only
  split
  · exact released_leave hctl hfds (Or.inr rfl)
  split
  · exact released_leave hwrite hfds (Or.inr rfl)
  · exact hwrite

theorem epollPass_ensures (a : EpollAnswers socket_fd) {s : State} (h : NoClose s.calls) :
    (epollPass a s).Ensures (fun s => NoClose s.calls) (Released [a.epoll_fd, socket_fd]) := by
  have hfds : [a.epoll_fd, socket_fd].Nodup := by simpa using a.epoll_fd_ne
  have hwait : NoClose (s.calls ++ [.epoll_wait]) := noClose_snoc.mpr ⟨h, nofun⟩
  have hread := noClose_snoc.mpr ⟨hwait, (nofun : ∀ fd, Call.read_message socket_fd ≠ .close fd)⟩
  unfold epollPass
  simp only
  split
  · exact released_leave hwait hfds (Or.inr rfl)
  split
  · exact hwait
  split
  · exact released_leave hread hfds (Or.inr rfl)
  · exact released_leave hread hfds (Or.inl rfl)

theorem epollReturns_released {a : EpollAnswers socket_fd} {r : Outcome} (h : EpollReturns a r) :
    Released [a.epoll_fd, socket_fd] r :=
  ReturnsFrom.ensures (epollStart_ensures a) (fun _ => epollPass_ensures a) h

theorem pollStart_ensures (socket_fd : Int) (a : PollAnswers) :
    (pollStart socket_fd a).Ensures (fun s => NoClose s.calls) (Released [socket_fd]) := by
  have hpoll : NoClose ([] ++ [.poll socket_fd]) := noClose_snoc.mpr ⟨noClose_nil, nofun⟩
  unfold pollStart
  simp only
  split
  · exact released_leave hpoll (List.nodup_singleton _) (Or.inr rfl)
  · exact hpoll

theorem pollPass_ensures (a : PollAnswers) {s : PollState} (h : NoClose s.calls) :
    (pollPass socket_fd a s).Ensures (fun s => NoClose s.calls) (Released [socket_fd]) := by
  have hfds : [socket_fd].Nodup := List.nodup_singleton _
  have hread : NoClose (s.calls ++ [.read_message socket_fd]) := noClose_snoc.mpr ⟨h, nofun⟩
  have hwrite := noClose_snoc.mpr ⟨hread, (nofun : ∀ fd, Call.write_message socket_fd ≠ .close fd)⟩
  unfold pollPass
  simp only
  split
  case isFalse => exact h
  case isTrue =>
    split
    · exact released_leave hread hfds (Or.inr rfl)
    split
    · exact released_leave hwrite hfds (Or.inr rfl)
    · exact released_leave hwrite hfds (Or.inl rfl)

theorem pollReturns_released {a : PollAnswers} {r : Outcome} (h : PollReturns socket_fd a r) :
    Released [socket_fd] r :=
  ReturnsFrom.ensures (pollStart_ensures socket_fd a) (fun _ => pollPass_ensures a) h

/-! ### `select_client` -/

/-- A callback of pass `i` is called and fails. -/
def SelectAnswers.Fails (a : SelectAnswers) (i : Nat) : Prop :=
  a.rfds i ∧ a.read_message i < 0 ∨ a.wfds i ∧ a.write_message i < 0

instance (a : SelectAnswers) (i : Nat) : Decidable (a.Fails i) :=
  inferInstanceAs (Decidable (_ ∨ _))

/-- A callback fails before `select` returns 0 or less. -/
def SelectAnswers.FailsFirst (a : SelectAnswers) : Prop :=
  ∀ k, a.select k ≤ 0 → ∃ j < k, a.Fails j

/-- What a pass does: it leaves without a value, it cleans up and returns, or it goes round. -/
theorem selectPass_cases (socket_fd : Int) (a : SelectAnswers) {s : State} (h : NoClose s.calls) :
    (a.select s.i ≤ 0 ∧ ∃ calls, selectPass socket_fd a s = .leave { calls, ret := none }) ∨
    (0 < a.select s.i ∧ a.Fails s.i ∧
      ∃ calls, NoClose calls ∧ selectPass socket_fd a s = leave calls [socket_fd] (-1)) ∨
    (0 < a.select s.i ∧ ¬ a.Fails s.i ∧
      ∃ calls, NoClose calls ∧ selectPass socket_fd a s = .again { i := s.i + 1, calls }) := by
  have hselect : NoClose (s.calls ++ [.select socket_fd]) := noClose_snoc.mpr ⟨h, nofun⟩
  have hread := hselect.ite (c := .read_message socket_fd) nofun (a.rfds s.i)
  have hwrite := hread.ite (c := .write_message socket_fd) nofun (a.wfds s.i)
  unfold selectPass
  simp only
  split
  case isTrue hret => exact Or.inl ⟨hret, _, rfl⟩
  case isFalse hret =>
    have hpos : 0 < a.select s.i := Int.not_le.mp hret
    split
    case isTrue hfails => exact Or.inr (Or.inl ⟨hpos, Or.inl hfails, _, hread, rfl⟩)
    case isFalse hreadOk =>
      split
      case isTrue hfails => exact Or.inr (Or.inl ⟨hpos, Or.inr hfails, _, hwrite, rfl⟩)
      case isFalse hwriteOk =>
        exact Or.inr (Or.inr ⟨hpos, not_or.mpr ⟨hreadOk, hwriteOk⟩, _, hwrite, rfl⟩)

/-- If a callback fails before `select` returns 0 or less, the exit is one that cleans up. -/
theorem selectReturns_released {a : SelectAnswers} (ha : a.FailsFirst) {r : Outcome}
    (h : SelectReturns socket_fd a r) : Released [socket_fd] r := by
  -- no callback failed in the passes before
  let I : State → Prop := fun s => NoClose s.calls ∧ ∀ j < s.i, ¬ a.Fails j
  have hstart : I { i := 0, calls := [] } := ⟨noClose_nil, by simp⟩
  refine Returns.ensures (I := I) ?_ h hstart
  intro s hs
  obtain ⟨hclose, hok⟩ := hs
  rcases selectPass_cases socket_fd a hclose with
    ⟨hret, -⟩ | ⟨-, -, calls, hcalls, hpass⟩ | ⟨-, hlast, calls, hcalls, hpass⟩
  · obtain ⟨j, hj, hfails⟩ := ha s.i hret
    exact absurd hfails (hok j hj)
  · rw [hpass]
    exact released_leave hcalls (List.nodup_singleton _) (Or.inr rfl)
  · rw [hpass]
    refine ⟨hcalls, ?_⟩
    intro j hj
    rcases Nat.lt_succ_iff_lt_or_eq.mp hj with hlt | rfl
    · exact hok j hlt
    · exact hlast

/-- The passes go round as long as `select` returns more than 0 and no callback fails. -/
theorem selectPass_reaches (socket_fd : Int) (a : SelectAnswers) {k : Nat}
    (h : ∀ j < k, 0 < a.select j ∧ ¬ a.Fails j) :
    ∃ calls, NoClose calls ∧ Visits (selectPass socket_fd a) { i := 0, calls := [] }
      { i := k, calls } := by
  induction k with
  | zero => exact ⟨[], noClose_nil, Relation.ReflTransGen.refl⟩
  | succ k ih =>
    obtain ⟨calls, hcalls, hvisit⟩ := ih fun j hj => h j (by omega)
    obtain ⟨hret, hok⟩ := h k (by omega)
    rcases selectPass_cases socket_fd a (s := { i := k, calls }) hcalls with
      ⟨hend, -⟩ | ⟨-, hfails, -⟩ | ⟨-, -, calls', hcalls', hpass⟩
    · exact absurd hret (Int.not_lt.mpr hend)
    · exact absurd hfails hok
    · exact ⟨calls', hcalls', hvisit.tail hpass⟩

/-- Otherwise `select_client` ends without a value. -/
theorem selectReturns_none (socket_fd : Int) {a : SelectAnswers} (ha : ¬ a.FailsFirst) :
    ∃ calls, SelectReturns socket_fd a { calls, ret := none } := by
  have hends : ∃ k, a.select k ≤ 0 ∧ ∀ j < k, ¬ a.Fails j := by
    simpa [SelectAnswers.FailsFirst] using ha
  -- the first `select` that returns 0 or less
  obtain ⟨hret, hok⟩ := Nat.find_spec hends
  have hfirst : ∀ j < Nat.find hends, 0 < a.select j ∧ ¬ a.Fails j := by
    intro j hj
    refine ⟨Int.not_le.mp fun hle => Nat.find_min hends hj ⟨hle, ?_⟩, hok j hj⟩
    exact fun i hi => hok i (by omega)
  obtain ⟨calls, hcalls, hvisit⟩ := selectPass_reaches socket_fd a hfirst
  rcases selectPass_cases socket_fd a (s := { i := Nat.find hends, calls }) hcalls
    with ⟨-, calls', hpass⟩ | ⟨hpos, -, -⟩ | ⟨hpos, -, -⟩
  · exact ⟨calls', hvisit.returns.mpr (.leave hpass)⟩
  · exact absurd hret (Int.not_le.mpr hpos)
  · exact absurd hret (Int.not_le.mpr hpos)

theorem selectReturns_released_iff (socket_fd : Int) (a : SelectAnswers) :
    (∀ r, SelectReturns socket_fd a r → Released [socket_fd] r) ↔ a.FailsFirst := by
  constructor
  · intro h
    by_contra ha
    obtain ⟨calls, hr⟩ := selectReturns_none socket_fd ha
    rcases (h _ hr).value with hret | hret <;> cases hret
  · intro ha r hr
    exact selectReturns_released ha hr

/-! ### All three -/

/-- Every way out of the three functions closes each descriptor once and returns 0 or -1 exactly
    when, in `select_client`, a callback fails before `select` returns 0 or less. -/
theorem clients_release_iff (socket_fd : Int) (epoll : EpollAnswers socket_fd)
    (select : SelectAnswers) (poll : PollAnswers) :
    ((∀ r, EpollReturns epoll r → Released [epoll.epoll_fd, socket_fd] r) ∧
      (∀ r, SelectReturns socket_fd select r → Released [socket_fd] r) ∧
      ∀ r, PollReturns socket_fd poll r → Released [socket_fd] r) ↔
    select.FailsFirst := by
  rw [selectReturns_released_iff]
  constructor
  · intro h
    exact h.2.1
  · intro h
    exact ⟨fun _ => epollReturns_released, h, fun _ => pollReturns_released⟩

/-- The server resets the connection: in all three functions `read_message` fails. -/
theorem clients_release_iff_reset :
    ∃ (epoll : EpollAnswers 4) (select : SelectAnswers) (poll : PollAnswers),
      epoll.epoll_fd = 5 ∧ (∀ r, EpollReturns epoll r → Released [5, 4] r) ∧
      (∀ r, SelectReturns 4 select r → Released [4] r) ∧
      ∀ r, PollReturns 4 poll r → Released [4] r := by
  let epoll : EpollAnswers 4 :=
    { epoll_fd := 5, epoll_ctl := 0, write_message := 0, epoll_wait := fun _ => 1,
      read_message := -1, epoll_fd_ne := by decide }
  let select : SelectAnswers :=
    { select := fun i => if i = 0 then 1 else 0, rfds := fun _ => true, wfds := fun _ => false,
      read_message := fun _ => -1, write_message := fun _ => 0 }
  let poll : PollAnswers :=
    { poll := fun _ => 1, revents := fun _ => POLLIN, read_message := -1, write_message := 0 }
  have hfails : select.FailsFirst := by
    intro k hk
    cases k with
    | zero => exact absurd hk (by decide)
    | succ k => exact ⟨0, Nat.succ_pos k, by decide⟩
  exact ⟨epoll, select, poll, rfl, (clients_release_iff 4 epoll select poll).mpr hfails⟩

/-- `select` times out in the second pass. -/
theorem select_leaks : ∃ a : SelectAnswers, ∃ r, SelectReturns 4 a r ∧
    r = { calls := [.select 4, .write_message 4, .select 4], ret := none } ∧
    ¬ Released [4] r := by
  let a : SelectAnswers :=
    { select := fun i => if i = 0 then 1 else 0, rfds := fun _ => false, wfds := fun _ => true,
      read_message := fun _ => 0, write_message := fun _ => 0 }
  refine ⟨a, _, ⟨2, rfl⟩, rfl, ?_⟩
  intro h
  exact absurd (h.closed 4 (by decide)) (by decide)

end Client
