import Mathlib.Data.Finset.Basic
import TestServer.Lib.CMemory
import TestServer.Lib.System

/-! # The event loop of the echo server

    `main` of `sample_epoll/echo_server.cpp`, from the first `epoll_wait` on:

    ```
    int cur_fds = 1;
    while (true) {
        if ((wait_fds = epoll_wait(epoll_fd, evs, cur_fds, -1)) == -1) return 0;
        for (int i = 0; i < wait_fds; i++) {
            if (evs[i].data.fd == listening_fd && cur_fds < 1000) {
                linkage_fd = accept(listening_fd, ...);
                if (linkage_fd < 0) return 0;
                if (epoll_ctl(epoll_fd, EPOLL_CTL_ADD, linkage_fd, &ev) < 0) return 0;
                cur_fds++;
                continue;
            }
            count = read(evs[i].data.fd, &buff, 50);
            if (count <= 0) {
                close(evs[i].data.fd);
                epoll_ctl(epoll_fd, EPOLL_CTL_DEL, evs[i].data.fd, &ev);
                cur_fds--;
                continue;
            }
            char buff2[100] = "hahahahha";
            strncat(buff2, buff, sizeof(buff));
            count = write(evs[i].data.fd, &buff2, sizeof(buff2));
        }
    }
    ```

    * `reply`: what is written back for what was read, 100 bytes (`reply_eq`,
      `reply_length`).
    * `step`: the loop as steps, one `epoll_wait` or one event each, with the
      system calls it makes. What the calls answer is the step's label.
    * `Steps`, `steps_of_step`, `step_of_steps`: everything one step can do.
-/

open CMemory LTS

namespace Echo

/-! ### The reply -/

/-- The text of `buff2`. -/
def greeting : List UInt8 := [104, 97, 104, 97, 104, 97, 104, 104, 97]

/-- `buff2` before anything is appended. -/
def buff2 : Mem := greeting ++ List.replicate 91 0

/-- `strncat(buff2, buff, sizeof(buff))`. -/
def reply (buff : Mem) : Option Mem := strncat buff2 buff 50

/-- The text is copied behind the greeting, in front of NULs. -/
theorem reply_eq {buff : Mem} (h : buff.length = 50) :
    reply buff = some (greeting ++ (beforeNul buff
      ++ List.replicate (91 - (beforeNul buff).length) 0)) := by
  have hnul : 0 ∉ greeting := by decide
  have hcat := strncat_zeros (m := 91) hnul (le_of_eq h.symm) (by omega)
  rwa [List.take_of_length_le (le_of_eq h)] at hcat

/-- The reply fits in `buff2`. -/
theorem reply_length {buff : Mem} (h : buff.length = 50) :
    ∃ bytes, reply buff = some bytes ∧ bytes.length = 100 := by
  have htext : (beforeNul buff).length ≤ 50 := h ▸ (List.takeWhile_prefix _).length_le
  have hgreeting : greeting.length = 9 := rfl
  refine ⟨_, reply_eq h, ?_⟩
  simp only [List.length_append, List.length_replicate]
  omega

/-! ### The loop -/

/-- A system call of the loop, with what it is about. -/
inductive Call where
  | epoll_wait (maxevents : Int)
  | accept (fd : Int)
  | epoll_ctl_add (fd : Int)
  | read (fd : Int)
  | close (fd : Int)
  | epoll_ctl_del (fd : Int)
  | write (fd : Int) (bytes : List UInt8)
  deriving DecidableEq

/-- The variables of the loop and what the kernel keeps for the process. -/
structure State where
  listening_fd : Int
  cur_fds : Int
  /-- The descriptors of the reported events that were not handled yet. -/
  evs : List Int
  /-- `main` has not returned. -/
  running : Bool
  /-- The open descriptors. -/
  opened : Finset Int
  /-- The descriptors registered with `epoll_fd`. -/
  registered : List Int
  /-- The calls made so far. -/
  calls : List Call

/-- What the system calls of a step answer. -/
inductive Label where
  /-- `epoll_wait` reports events of these descriptors. -/
  | wait (evs : List Int)
  | waitFails
  /-- `accept` returns `linkage_fd`, and it is registered. -/
  | accept (linkage_fd : Int)
  | acceptFails
  /-- `accept` returns `linkage_fd`, but `epoll_ctl` fails. -/
  | addFails (linkage_fd : Int)
  /-- `read` fails, or returns these bytes; the uninitialised `buff` holds `stack`. -/
  | read (received : Option (List UInt8)) (stack : Mem)

/-- The first test of the loop body: whether the event is answered by `accept`. -/
def State.Accepts (s : State) (fd : Int) : Prop := fd = s.listening_fd ∧ s.cur_fds < 1000

instance (s : State) (fd : Int) : Decidable (s.Accepts fd) :=
  inferInstanceAs (Decidable (fd = s.listening_fd ∧ s.cur_fds < 1000))

/-- `epoll_wait` reports distinct registered descriptors, no more than it was asked for. -/
def State.MayReport (s : State) (evs : List Int) : Prop :=
  0 < s.cur_fds ∧ (evs.length : Int) ≤ s.cur_fds ∧ evs.Nodup ∧ ∀ fd ∈ evs, fd ∈ s.registered

instance (s : State) (evs : List Int) : Decidable (s.MayReport evs) :=
  inferInstanceAs (Decidable
    (0 < s.cur_fds ∧ (evs.length : Int) ≤ s.cur_fds ∧ evs.Nodup ∧ ∀ fd ∈ evs, fd ∈ s.registered))

/-- `read` answers with at most 50 bytes, and fails on the listening socket. -/
def State.MayRead (s : State) (fd : Int) : Option (List UInt8) → Prop
  | none => True
  | some bytes => fd ≠ s.listening_fd ∧ bytes.length ≤ 50

instance (s : State) (fd : Int) : (received : Option (List UInt8)) →
    Decidable (s.MayRead fd received)
  | none => .isTrue trivial
  | some bytes => inferInstanceAs (Decidable (fd ≠ s.listening_fd ∧ bytes.length ≤ 50))

/-- `close` also deregisters the descriptor. -/
def State.close (s : State) (fd : Int) : State :=
  { s with opened := s.opened.erase fd, registered := s.registered.erase fd,
           calls := s.calls ++ [.close fd] }

/-- `epoll_ctl(epoll_fd, EPOLL_CTL_DEL, fd, _)`, which fails on a closed descriptor. -/
def State.epollCtlDel (s : State) (fd : Int) : State :=
  { s with registered := if fd ∈ s.opened then s.registered.erase fd else s.registered
           calls := s.calls ++ [.epoll_ctl_del fd] }

/-- `accept` returned `linkage_fd`. -/
def State.acceptOk (s : State) (linkage_fd : Int) : State :=
  { s with opened := insert linkage_fd s.opened
           calls := s.calls ++ [.accept s.listening_fd, .epoll_ctl_add linkage_fd] }

/-- The connection is registered and counted. -/
def State.addOk (s : State) (linkage_fd : Int) : State :=
  { s with registered := s.registered ++ [linkage_fd], cur_fds := s.cur_fds + 1 }

/-- The branch for `count <= 0`. -/
def State.hangUp (s : State) (fd : Int) : State :=
  { (({ s with calls := s.calls ++ [.read fd] } : State).close fd).epollCtlDel fd with
    cur_fds := s.cur_fds - 1 }

/-- The descriptor is deregistered by `close`; the call of `epoll_ctl` finds it closed. -/
theorem State.hangUp_registered (s : State) (fd : Int) :
    (s.hangUp fd).registered = s.registered.erase fd := by
  simp [hangUp, epollCtlDel, close]

/-- The branch for `count > 0`. -/
def State.answer (s : State) (fd : Int) (bytes : Mem) : State :=
  { s with calls := s.calls ++ [.read fd, .write fd bytes] }

/-- `epoll_wait` reports events of the descriptors `evs`. -/
def State.report (s : State) (evs : List Int) : State :=
  { s with evs, calls := s.calls ++ [.epoll_wait s.cur_fds] }

/-- The call of `epoll_wait`. -/
def waitStep (s : State) : Label → Option State
  | .wait evs => if s.MayReport evs then some (s.report evs) else none
  | .waitFails => some { s with running := false, calls := s.calls ++ [.epoll_wait s.cur_fds] }
  | _ => none

/-- The branch that accepts a connection. -/
def acceptStep (s : State) : Label → Option State
  | .accept linkage_fd =>
    -- the kernel gives out a descriptor that is not open
    if 0 ≤ linkage_fd ∧ linkage_fd ∉ s.opened then some ((s.acceptOk linkage_fd).addOk linkage_fd)
    else none
  | .acceptFails => some { s with running := false, calls := s.calls ++ [.accept s.listening_fd] }
  | .addFails linkage_fd =>
    if 0 ≤ linkage_fd ∧ linkage_fd ∉ s.opened then
      some { s.acceptOk linkage_fd with running := false }
    else none
  | _ => none

/-- The branch that reads from the descriptor of the event. -/
def readStep (s : State) (fd : Int) : Label → Option State
  | .read received stack =>
    if s.MayRead fd received ∧ stack.length = 50 then
      match received with
      | none => some (s.hangUp fd)
      | some bytes =>
        -- `read` returning 0 is treated like a failure
        if bytes.length = 0 then some (s.hangUp fd)
        -- the bytes read go over the beginning of what the stack held
        else (reply (bytes ++ stack.drop bytes.length)).map (s.answer fd)
    else none
  | _ => none

/-- One step of the loop: the call of `epoll_wait`, or the next event. -/
def step (s : State) (l : Label) : Option State :=
  if s.running then
    match s.evs with
    | [] => waitStep s l
    | fd :: rest =>
      -- at the limit an event of the listening descriptor goes the way of the others
      if s.Accepts fd then acceptStep { s with evs := rest } l
      else readStep { s with evs := rest } fd l
  else none

/-- The loop starts with the listening descriptor registered; other descriptors may be open. -/
def State.start (listening_fd : Int) (others : Finset Int) : State where
  listening_fd := listening_fd
  cur_fds := 1
  evs := []
  running := true
  opened := insert listening_fd others
  registered := [listening_fd]
  calls := []

/-- The echo server's event loop. -/
def server : System State Label :=
  .ofFun (fun s => ∃ listening_fd others, 0 < listening_fd ∧ s = .start listening_fd others) step

/-! ### What one step can do -/

/-- Everything a step can do. -/
inductive Steps (s : State) : Label → State → Prop where
  | wait {evs : List Int} : s.evs = [] → s.MayReport evs →
      Steps s (.wait evs) (s.report evs)
  | waitFails : s.evs = [] →
      Steps s .waitFails { s with running := false, calls := s.calls ++ [.epoll_wait s.cur_fds] }
  | accept {fd linkage_fd : Int} {rest : List Int} : s.evs = fd :: rest → s.Accepts fd →
      0 ≤ linkage_fd → linkage_fd ∉ s.opened →
      Steps s (.accept linkage_fd)
        ((({ s with evs := rest } : State).acceptOk linkage_fd).addOk linkage_fd)
  | acceptFails {fd : Int} {rest : List Int} : s.evs = fd :: rest → s.Accepts fd →
      Steps s .acceptFails { s with evs := rest, running := false,
                                    calls := s.calls ++ [.accept s.listening_fd] }
  | addFails {fd linkage_fd : Int} {rest : List Int} : s.evs = fd :: rest → s.Accepts fd →
      0 ≤ linkage_fd → linkage_fd ∉ s.opened →
      Steps s (.addFails linkage_fd)
        { ({ s with evs := rest } : State).acceptOk linkage_fd with running := false }
  | hangUp {fd : Int} {rest : List Int} {received : Option (List UInt8)} {stack : Mem} :
      s.evs = fd :: rest → ¬ s.Accepts fd → s.MayRead fd received → stack.length = 50 →
      (∀ bytes, received = some bytes → bytes = []) →
      Steps s (.read received stack) (({ s with evs := rest } : State).hangUp fd)
  | answer {fd : Int} {rest : List Int} {bytes stack answer : List UInt8} :
      s.evs = fd :: rest → ¬ s.Accepts fd → s.MayRead fd (some bytes) → stack.length = 50 →
      bytes ≠ [] → reply (bytes ++ stack.drop bytes.length) = some answer →
      Steps s (.read (some bytes) stack) (({ s with evs := rest } : State).answer fd answer)

theorem steps_of_step {s s' : State} {l : Label} (h : step s l = some s') :
    s.running = true ∧ Steps s l s' := by
  unfold step at h
  split at h
  case isFalse => cases h
  case isTrue hrun =>
    refine ⟨hrun, ?_⟩
    cases hevs : s.evs with
    | nil =>
      -- no event is left: only `epoll_wait` can be called
      simp only [hevs] at h
      cases l <;> simp only [waitStep, Option.ite_none_right_eq_some, Option.some.injEq,
        reduceCtorEq] at h
      case wait evs =>
        obtain ⟨hreport, rfl⟩ := h
        exact .wait hevs hreport
      case waitFails =>
        obtain rfl := h
        exact .waitFails hevs
    | cons fd rest =>
      simp only [hevs] at h
      split at h
      case isTrue hacc =>
        -- the branch that accepts
        cases l <;> simp only [acceptStep, Option.ite_none_right_eq_some, Option.some.injEq,
          reduceCtorEq] at h
        case accept linkage_fd =>
          obtain ⟨⟨hnonneg, hfresh⟩, rfl⟩ := h
          exact .accept hevs hacc hnonneg hfresh
        case acceptFails =>
          obtain rfl := h
          exact .acceptFails hevs hacc
        case addFails linkage_fd =>
          obtain ⟨⟨hnonneg, hfresh⟩, rfl⟩ := h
          exact .addFails hevs hacc hnonneg hfresh
      case isFalse hacc =>
        -- the branch that reads
        cases l <;> simp only [readStep, Option.ite_none_right_eq_some, reduceCtorEq] at h
        case read received stack =>
          obtain ⟨⟨hread, hstack⟩, h⟩ := h
          cases received with
          | none =>
            obtain rfl := Option.some.inj h
            exact .hangUp hevs hacc hread hstack (by simp)
          | some bytes =>
            simp only at h
            split at h
            case isTrue hempty =>
              obtain rfl := Option.some.inj h
              exact .hangUp hevs hacc hread hstack (by simpa using hempty)
            case isFalse hne =>
              obtain ⟨answer, hanswer, rfl⟩ := Option.map_eq_some_iff.mp h
              exact .answer hevs hacc hread hstack (by simpa using hne) hanswer

theorem step_of_steps {s s' : State} {l : Label} (hrun : s.running = true) (h : Steps s l s') :
    step s l = some s' := by
  unfold step
  rw [if_pos hrun]
  cases h with
  | wait hevs hreport => simp only [hevs, waitStep, if_pos hreport]
  | waitFails hevs => simp only [hevs, waitStep]
  | accept hevs hacc hnonneg hfresh =>
    simp only [hevs, if_pos hacc, acceptStep, if_pos (And.intro hnonneg hfresh)]
  | acceptFails hevs hacc => simp only [hevs, if_pos hacc, acceptStep]
  | addFails hevs hacc hnonneg hfresh =>
    simp only [hevs, if_pos hacc, acceptStep, if_pos (And.intro hnonneg hfresh)]
  | @hangUp fd rest received stack hevs hacc hread hstack hempty =>
    have hread' : ({ s with evs := rest } : State).MayRead fd received := hread
    simp only [hevs, if_neg hacc, readStep, if_pos (And.intro hread' hstack)]
    cases received with
    | none => rfl
    | some bytes => simp [hempty bytes rfl]
  | @answer fd rest bytes stack answer hevs hacc hread hstack hne hanswer =>
    have hread' : ({ s with evs := rest } : State).MayRead fd (some bytes) := hread
    have hlen : bytes.length ≠ 0 := by simpa using hne
    simp only [hevs, if_neg hacc, readStep, if_pos (And.intro hread' hstack), if_neg hlen, hanswer,
      Option.map_some]

end Echo
