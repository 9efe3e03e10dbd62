import TestServer.Echo.Descriptors

/-! # What the echo server does with a connection

    * `Serving`: the calls about a descriptor, as a language.
    * `connection_calls`: in every reachable state, the calls made so far about
      a descriptor are in it, and say whether the descriptor is open.
-/

open CMemory LTS

namespace Echo

variable {s s' : State} {l : Label}

/-! ### One descriptor -/

/-- The call takes the descriptor `fd` of a connection. -/
def Call.About (c : Call) (fd : Int) : Bool :=
  match c with
  | .epoll_wait _ => false
  | .accept _ => false
  | .epoll_ctl_add e => e = fd
  | .read e => e = fd
  | .close e => e = fd
  | .epoll_ctl_del e => e = fd
  | .write e _ => e = fd

/-- The calls about `fd`, in their order. -/
def State.callsAbout (s : State) (fd : Int) : List Call := s.calls.filter (·.About fd)

/-- What can be written back: 100 bytes that begin with the greeting. -/
def IsReply (bytes : List UInt8) : Prop := bytes.length = 100 ∧ greeting <+: bytes

/-- The calls about the descriptor of one connection after the other, and whether the last of them
    is open: it is registered, every `read` is followed by a `write` of a reply, until one is
    followed by `close`, and by a call of `epoll_ctl` that takes a closed descriptor. -/
inductive Serving (fd : Int) : List Call → Bool → Prop where
  | nil : Serving fd [] false
  | accepted {cs : List Call} : Serving fd cs false → Serving fd (cs ++ [.epoll_ctl_add fd]) true
  | answered {cs : List Call} {bytes : List UInt8} : Serving fd cs true → IsReply bytes →
      Serving fd (cs ++ [.read fd, .write fd bytes]) true
  | hungUp {cs : List Call} : Serving fd cs true →
      Serving fd (cs ++ [.read fd, .close fd, .epoll_ctl_del fd]) false

theorem isReply_of_reply {buff bytes : Mem} (hlen : buff.length = 50)
    (h : reply buff = some bytes) : IsReply bytes := by
  obtain ⟨bytes', hbytes', hlength⟩ := reply_length hlen
  obtain rfl := Option.some.inj (hbytes'.symm.trans h)
  refine ⟨hlength, ?_⟩
  rw [reply_eq hlen] at h
  rw [← Option.some.inj h]
  exact List.prefix_append _ _

/-- The bytes read, and what the stack held behind them, fill the buffer. -/
theorem buff_length {bytes stack : List UInt8} (hread : bytes.length ≤ 50)
    (hstack : stack.length = 50) : (bytes ++ stack.drop bytes.length).length = 50 := by
  rw [List.length_append, List.length_drop]
  omega

/-- The calls made so far about `fd` are those of connections, the last of them is open as long as
    its descriptor is, and it is the last one that is registered. -/
structure Connection (s : State) (fd : Int) (isOpen : Bool) : Prop where
  serving : Serving fd (s.callsAbout fd) isOpen
  opened : isOpen = true → fd ∈ s.opened
  closed : isOpen = false → s.callsAbout fd ≠ [] → fd ∉ s.opened
  registered : fd ∈ s.registered → isOpen = true

/-- Calls about other descriptors do not matter. -/
theorem State.callsAbout_append {fd : Int} {new : List Call} (hcalls : s'.calls = s.calls ++ new) :
    s'.callsAbout fd = s.callsAbout fd ++ new.filter (·.About fd) := by
  rw [callsAbout, callsAbout, hcalls, List.filter_append]

/-- Nothing happens to `fd`. -/
theorem Connection.unchanged {fd : Int} {isOpen : Bool} (h : Connection s fd isOpen)
    {new : List Call} (hcalls : s'.calls = s.calls ++ new) (hnew : ∀ c ∈ new, c.About fd = false)
    (hopened : fd ∈ s'.opened ↔ fd ∈ s.opened)
    (hregistered : fd ∈ s'.registered → fd ∈ s.registered) : Connection s' fd isOpen := by
  have hsame : s'.callsAbout fd = s.callsAbout fd := by
    rw [State.callsAbout_append hcalls, List.filter_eq_nil_iff.mpr (by simpa using hnew),
      List.append_nil]
  constructor
  case serving => rw [hsame]; exact h.serving
  case opened => exact fun ho => hopened.mpr (h.opened ho)
  case closed =>
    intro ho hne
    rw [hsame] at hne
    exact fun hin => h.closed ho hne (hopened.mp hin)
  case registered => exact fun hin => h.registered (hregistered hin)

/-- A connection comes in, and gets the descriptor `linkage_fd`. -/
theorem Connection.acceptOk {fd linkage_fd : Int} {isOpen : Bool} (h : Connection s fd isOpen)
    (hfresh : linkage_fd ∉ s.opened) : ∃ isOpen', Connection (s.acceptOk linkage_fd) fd isOpen' ∧
      (fd = linkage_fd → isOpen' = true) := by
  have hcalls : (s.acceptOk linkage_fd).calls
      = s.calls ++ [.accept s.listening_fd, .epoll_ctl_add linkage_fd] := rfl
  by_cases hfd : fd = linkage_fd
  · subst hfd
    -- the descriptor was free, so the last connection that had it is closed
    have hclosed : isOpen = false := by
      by_contra ho
      exact hfresh (h.opened (by simpa using ho))
    subst hclosed
    have habout : (s.acceptOk fd).callsAbout fd = s.callsAbout fd ++ [.epoll_ctl_add fd] := by
      rw [State.callsAbout_append hcalls]
      simp [Call.About]
    refine ⟨true, ⟨?_, ?_, by simp, fun _ => rfl⟩, fun _ => rfl⟩
    · rw [habout]
      exact h.serving.accepted
    · exact fun _ => Finset.mem_insert_self _ _
  · refine ⟨isOpen, h.unchanged hcalls ?_ ?_ id, fun heq => absurd heq hfd⟩
    · simp [Call.About, Ne.symm hfd]
    · show fd ∈ insert linkage_fd s.opened ↔ fd ∈ s.opened
      rw [Finset.mem_insert, or_iff_right hfd]

/-- A connection ends. -/
theorem Connection.hangUp {fd e : Int} {isOpen : Bool} (h : Connection s fd isOpen)
    (hexact : Exact s) (he : e ∈ s.registered) : ∃ isOpen', Connection (s.hangUp e) fd isOpen' := by
  have hcalls : (s.hangUp e).calls = s.calls ++ [.read e, .close e, .epoll_ctl_del e] := by
    simp [State.hangUp, State.epollCtlDel, State.close]
  have hopened : (s.hangUp e).opened = s.opened.erase e := rfl
  by_cases hfd : fd = e
  · subst hfd
    obtain rfl : isOpen = true := h.registered he
    have habout : (s.hangUp fd).callsAbout fd
        = s.callsAbout fd ++ [.read fd, .close fd, .epoll_ctl_del fd] := by
      rw [State.callsAbout_append hcalls]
      simp [Call.About]
    refine ⟨false, ?_, by simp, ?_, ?_⟩
    · rw [habout]
      exact h.serving.hungUp
    · intro _ _
      rw [hopened]
      exact Finset.notMem_erase _ _
    · intro hin
      rw [State.hangUp_registered] at hin
      exact absurd rfl (hexact.nodup.mem_erase_iff.mp hin).1
  · refine ⟨isOpen, h.unchanged hcalls ?_ ?_ ?_⟩
    · simp [Call.About, Ne.symm hfd]
    · rw [hopened, Finset.mem_erase, and_iff_right hfd]
    · rw [State.hangUp_registered]
      exact List.mem_of_mem_erase

/-- Bytes of a connection are answered. -/
theorem Connection.answer {fd e : Int} {isOpen : Bool} (h : Connection s fd isOpen)
    (he : e ∈ s.registered) {bytes : List UInt8} (hbytes : IsReply bytes) :
    Connection (s.answer e bytes) fd isOpen := by
  have hcalls : (s.answer e bytes).calls = s.calls ++ [.read e, .write e bytes] := rfl
  by_cases hfd : fd = e
  · subst hfd
    obtain rfl : isOpen = true := h.registered he
    have habout : (s.answer fd bytes).callsAbout fd
        = s.callsAbout fd ++ [.read fd, .write fd bytes] := by
      rw [State.callsAbout_append hcalls]
      simp [Call.About]
    refine ⟨?_, h.opened, by simp, h.registered⟩
    rw [habout]
    exact h.serving.answered hbytes
  · refine h.unchanged hcalls ?_ Iff.rfl id
    simp [Call.About, Ne.symm hfd]

/-- The rest of a batch. -/
theorem Connection.tail {fd : Int} {isOpen : Bool} (h : Connection s fd isOpen)
    (rest : List Int) : Connection { s with evs := rest } fd isOpen :=
  ⟨h.serving, h.opened, h.closed, h.registered⟩

/-- Every step keeps the calls about every connection in order. -/
theorem Connection.step {fd : Int} {isOpen : Bool} (h : Connection s fd isOpen) (hexact : Exact s)
    (hstep : step s l = some s') : ∃ isOpen', Connection s' fd isOpen' := by
  obtain ⟨-, hsteps⟩ := steps_of_step hstep
  cases hsteps with
  | wait _ _ => exact ⟨isOpen, h.unchanged rfl (by simp [Call.About]) Iff.rfl id⟩
  | waitFails _ => exact ⟨isOpen, h.unchanged rfl (by simp [Call.About]) Iff.rfl id⟩
  | @accept _ linkage_fd rest hevs hacc _ hfresh =>
    obtain ⟨isOpen', h', hnew⟩ := (h.tail rest).acceptOk hfresh
    refine ⟨isOpen', h'.serving, h'.opened, h'.closed, ?_⟩
    intro hin
    rcases List.mem_append.mp hin with hold | hlinkage
    · exact h'.registered hold
    · exact hnew (List.mem_singleton.mp hlinkage)
  | acceptFails _ _ => exact ⟨isOpen, h.unchanged rfl (by simp [Call.About]) Iff.rfl id⟩
  | @addFails _ linkage_fd rest hevs hacc _ hfresh =>
    -- the descriptor is open for good
    obtain ⟨isOpen', h', -⟩ := (h.tail rest).acceptOk hfresh
    exact ⟨isOpen', h'.serving, h'.opened, h'.closed, h'.registered⟩
  | @hangUp e rest received stack hevs _ _ _ _ =>
    obtain ⟨hrest, he, -⟩ := hexact.tail hevs
    exact (h.tail rest).hangUp hrest he
  | @answer e rest bytes stack answer hevs _ hread hstack _ hreply =>
    obtain ⟨-, he, -⟩ := hexact.tail hevs
    have hbytes := isReply_of_reply (buff_length hread.2 hstack) hreply
    exact ⟨isOpen, (h.tail rest).answer he hbytes⟩

theorem listening_fd_of_step (hstep : step s l = some s') : s'.listening_fd = s.listening_fd :=
  (calls_of_step hstep).1

/-- Whatever the clients do and the kernel answers, the calls made so far about a descriptor other
    than the listening one are those of connections that came one after the other: registered once,
    every `read` followed by a `write` of 100 bytes that begin with the greeting, or by a `close`
    and nothing more. The last of them is open exactly when its descriptor is, so that no call but
    the `epoll_ctl` behind `close` takes a descriptor that is closed, or was never this server's;
    and every registered descriptor is one of them. -/
theorem connection_calls (h : server.Reachable s) (fd : Int) (hfd : fd ≠ s.listening_fd) :
    ∃ isOpen, Serving fd (s.callsAbout fd) isOpen ∧
      (s.callsAbout fd ≠ [] → (fd ∈ s.opened ↔ isOpen = true)) ∧
      (fd ∈ s.registered → isOpen = true) := by
  have hinv : Exact s ∧ (fd ≠ s.listening_fd → ∃ isOpen, Connection s fd isOpen) := by
    apply h.invariant (I := fun s => Exact s ∧ (fd ≠ s.listening_fd → ∃ o, Connection s fd o))
    · intro s hs
      obtain ⟨listening_fd, others, -, rfl⟩ := hs
      refine ⟨exact_start listening_fd others, fun hne => ⟨false, .nil, by simp, ?_, ?_⟩⟩
      · exact fun _ hcalls => absurd rfl hcalls
      · exact fun hin => absurd (List.mem_singleton.mp hin) hne
    · intro s l s' ⟨hexact, hconnection⟩ (hstep : step s l = some s')
      refine ⟨hexact.step hstep, fun hne => ?_⟩
      rw [listening_fd_of_step hstep] at hne
      obtain ⟨isOpen, hopen⟩ := hconnection hne
      exact hopen.step hexact hstep
  obtain ⟨isOpen, hserving, hopened, hclosed, hregistered⟩ := hinv.2 hfd
  refine ⟨isOpen, hserving, fun hne => ⟨fun hin => ?_, hopened⟩, hregistered⟩
  by_contra hno
  exact hclosed (by simpa using hno) hne hin

/-- A connection that comes in and hangs up. -/
theorem connection_calls_one :
    ∃ s, System.replay step (.start 3 ∅)
        [.wait [3], .accept 5, .wait [5], .read none (List.replicate 50 0)] = some s ∧
      ∃ isOpen, Serving 5 (s.callsAbout 5) isOpen ∧
        (s.callsAbout 5 ≠ [] → (5 ∈ s.opened ↔ isOpen = true)) ∧
        (5 ∈ s.registered → isOpen = true) := by
  have hstart : server.Reachable (.start 3 ∅) := ⟨[], .start ⟨3, ∅, by decide, rfl⟩⟩
  refine ⟨_, rfl, connection_calls (System.replay_reachable hstart
    [.wait [3], .accept 5, .wait [5], .read none (List.replicate 50 0)] rfl) 5 (by decide)⟩

end Echo
