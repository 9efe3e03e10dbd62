import Mathlib.Data.List.Nodup
import TestServer.Lib.System

/-! # `process_accept` and its processes

    `process_accept` of `sample_socket/test_server.cpp` hands every connection
    to a grandchild, by two calls of `fork`:

    ```
    while (1) {
        linkage_fd = accept(listening_fd, ...);
        if (linkage_fd < 0) return -1;
        pid = fork();
        if (pid < 0) return -1;
        if (pid > 0) {
            waitpid(pid, NULL, 0);
            close(linkage_fd);
            continue;
        }
        close(listening_fd);
        pid = fork();
        if (pid < 0) { close(linkage_fd); exit(1); }
        if (pid > 0) {
            close(linkage_fd);
            exit(0);
        } else {
            func_data.fd = linkage_fd;
            pthread_func(&func_data);
            close(linkage_fd);
            exit(0);
        }
    }
    ```

    `pthread_func` calls `write_message`, `read_message` and `close` with the
    descriptor. Every process has a table of open descriptors of its own, a copy
    of its parent's at first.

    * `Process.step`: what one process does, a system call or callback each.
    * `Process.Steps`, `Process.steps_of_step`: everything one process can do.
    * `State`, `step`: all processes, interleaved. `steps_of_step`: one of them
      takes a step, and the others stay as they are.
-/

open LTS

namespace ProcessAccept

/-! ### One process -/

/-- What a descriptor is open on. Connections are numbered in the order of `accept`. -/
inductive Desc where
  | listening
  | connection (c : Nat)
  deriving DecidableEq

/-- The connection behind a descriptor. -/
def Desc.connection? : Desc → Option Nat
  | listening => none
  | connection c => some c

/-- The next thing a process does. -/
inductive Pc where
  | accepting
  /-- The first `fork`. -/
  | forking (linkage_fd : Int)
  /-- `waitpid` in the server. -/
  | waiting (linkage_fd : Int) (child : Nat)
  /-- `close(linkage_fd)` in the server. -/
  | closing (linkage_fd : Int)
  | returned
  /-- `close(listening_fd)` in the child. -/
  | childClosing (linkage_fd : Int)
  /-- The second `fork`. -/
  | childForking (linkage_fd : Int)
  /-- `close(linkage_fd)` in the child, whatever `fork` returned. -/
  | childLeaving (linkage_fd : Int)
  /-- The calls of `pthread_func` in the grandchild. -/
  | writing (linkage_fd : Int)
  | reading (linkage_fd : Int)
  | funcClosing (linkage_fd : Int)
  /-- `close(linkage_fd)` behind `pthread_func`. -/
  | leaving (linkage_fd : Int)
  | exited
  deriving DecidableEq

/-- A process: its open descriptors, the connections it accepted or was forked with, and its calls
    of `close`, each with what the descriptor was open on. -/
structure Process where
  pc : Pc
  table : List (Int × Desc)
  held : List Nat
  closes : List (Int × Option Desc)

/-- What a process does in a step, with what the system call answers. -/
inductive Action where
  | accept (linkage_fd : Int)
  | acceptFails
  | fork
  | forkFails
  /-- A `waitpid`, a `close` or a callback. -/
  | go
  deriving DecidableEq

/-- The process goes on to `pc`. -/
def Process.goTo (p : Process) (pc : Pc) : Process := { p with pc }

/-- `close(fd)`. -/
def Process.close (p : Process) (fd : Int) : Process :=
  { p with table := p.table.eraseP (·.1 = fd), closes := p.closes ++ [(fd, p.table.lookup fd)] }

/-- `accept` returned `linkage_fd`, for the connection `c`. -/
def Process.acceptOk (p : Process) (linkage_fd : Int) (c : Nat) : Process :=
  { p with pc := .forking linkage_fd, table := (linkage_fd, .connection c) :: p.table
           held := c :: p.held }

/-- The new process of a `fork`. -/
def Process.forked (p : Process) (pc : Pc) : Process where
  pc := pc
  table := p.table
  held := (p.table.map Prod.snd).filterMap Desc.connection?
  closes := []

/-- One step of a process, and the process it forks. `c` is the next connection, `child` the next
    process. -/
def Process.step (listening_fd : Int) (c child : Nat) (p : Process) :
    Action → Option (Process × List Process)
  | .accept linkage_fd =>
    -- the kernel gives out a descriptor that is not open
    if p.pc = .accepting ∧ 0 ≤ linkage_fd ∧ p.table.lookup linkage_fd = none then
      some (p.acceptOk linkage_fd c, [])
    else none
  | .acceptFails => if p.pc = .accepting then some (p.goTo .returned, []) else none
  | .fork =>
    match p.pc with
    | .forking linkage_fd =>
      some (p.goTo (.waiting linkage_fd child), [p.forked (.childClosing linkage_fd)])
    | .childForking linkage_fd =>
      some (p.goTo (.childLeaving linkage_fd), [p.forked (.writing linkage_fd)])
    | _ => none
  | .forkFails =>
    match p.pc with
    | .forking _ => some (p.goTo .returned, [])
    | .childForking linkage_fd => some (p.goTo (.childLeaving linkage_fd), [])
    | _ => none
  | .go =>
    match p.pc with
    | .waiting linkage_fd _ => some (p.goTo (.closing linkage_fd), [])
    | .closing linkage_fd => some ((p.close linkage_fd).goTo .accepting, [])
    | .childClosing linkage_fd =>
      some ((p.close listening_fd).goTo (.childForking linkage_fd), [])
    | .childLeaving linkage_fd => some ((p.close linkage_fd).goTo .exited, [])
    | .writing linkage_fd => some (p.goTo (.reading linkage_fd), [])
    | .reading linkage_fd => some (p.goTo (.funcClosing linkage_fd), [])
    | .funcClosing linkage_fd => some ((p.close linkage_fd).goTo (.leaving linkage_fd), [])
    | .leaving linkage_fd => some ((p.close linkage_fd).goTo .exited, [])
    | _ => none

/-- Everything a process can do. -/
inductive Process.Steps (listening_fd : Int) (c child : Nat) (p : Process) :
    Action → Process → List Process → Prop where
  | accept {fd : Int} : p.pc = .accepting → p.table.lookup fd = none →
      Steps _ _ _ p (.accept fd) (p.acceptOk fd c) []
  | acceptFails : p.pc = .accepting → Steps _ _ _ p .acceptFails (p.goTo .returned) []
  | fork {fd : Int} : p.pc = .forking fd →
      Steps _ _ _ p .fork (p.goTo (.waiting fd child)) [p.forked (.childClosing fd)]
  | forkFails {fd : Int} : p.pc = .forking fd → Steps _ _ _ p .forkFails (p.goTo .returned) []
  | waited {fd : Int} {i : Nat} : p.pc = .waiting fd i →
      Steps _ _ _ p .go (p.goTo (.closing fd)) []
  | closed {fd : Int} : p.pc = .closing fd →
      Steps _ _ _ p .go ((p.close fd).goTo .accepting) []
  | childClosed {fd : Int} : p.pc = .childClosing fd →
      Steps _ _ _ p .go ((p.close listening_fd).goTo (.childForking fd)) []
  | childForks {fd : Int} : p.pc = .childForking fd →
      Steps _ _ _ p .fork (p.goTo (.childLeaving fd)) [p.forked (.writing fd)]
  | childForkFails {fd : Int} : p.pc = .childForking fd →
      Steps _ _ _ p .forkFails (p.goTo (.childLeaving fd)) []
  | childExits {fd : Int} : p.pc = .childLeaving fd →
      Steps _ _ _ p .go ((p.close fd).goTo .exited) []
  | writes {fd : Int} : p.pc = .writing fd → Steps _ _ _ p .go (p.goTo (.reading fd)) []
  | reads {fd : Int} : p.pc = .reading fd → Steps _ _ _ p .go (p.goTo (.funcClosing fd)) []
  | funcCloses {fd : Int} : p.pc = .funcClosing fd →
      Steps _ _ _ p .go ((p.close fd).goTo (.leaving fd)) []
  | exits {fd : Int} : p.pc = .leaving fd →
      Steps _ _ _ p .go ((p.close fd).goTo .exited) []

theorem Process.steps_of_step {listening_fd : Int} {c child : Nat} {p p' : Process} {a : Action}
    {forked : List Process} (h : p.step listening_fd c child a = some (p', forked)) :
    p.Steps listening_fd c child a p' forked := by
  cases a with
  | accept fd =>
    simp only [Process.step, Option.ite_none_right_eq_some, Option.some.injEq, Prod.mk.injEq] at h
    obtain ⟨⟨hpc, -, hnew⟩, rfl, rfl⟩ := h
    exact .accept hpc hnew
  | acceptFails =>
    simp only [Process.step, Option.ite_none_right_eq_some, Option.some.injEq, Prod.mk.injEq] at h
    obtain ⟨hpc, rfl, rfl⟩ := h
    exact .acceptFails hpc
  | fork =>
    simp only [Process.step] at h
    split at h <;> simp only [Option.some.injEq, Prod.mk.injEq, reduceCtorEq] at h
    · next fd hpc =>
      obtain ⟨rfl, rfl⟩ := h
      exact .fork hpc
    · next fd hpc =>
      obtain ⟨rfl, rfl⟩ := h
      exact .childForks hpc
  | forkFails =>
    simp only [Process.step] at h
    split at h <;> simp only [Option.some.injEq, Prod.mk.injEq, reduceCtorEq] at h
    · next fd hpc =>
      obtain ⟨rfl, rfl⟩ := h
      exact .forkFails hpc
    · next fd hpc =>
      obtain ⟨rfl, rfl⟩ := h
      exact .childForkFails hpc
  | go =>
    simp only [Process.step] at h
    split at h <;> simp only [Option.some.injEq, Prod.mk.injEq, reduceCtorEq] at h
    all_goals obtain ⟨rfl, rfl⟩ := h
    · next hpc => exact .waited hpc
    · next hpc => exact .closed hpc
    · next hpc => exact .childClosed hpc
    · next hpc => exact .childExits hpc
    · next hpc => exact .writes hpc
    · next hpc => exact .reads hpc
    · next hpc => exact .funcCloses hpc
    · next hpc => exact .exits hpc

/-! ### All processes -/

/-- The processes, the server first, and the descriptor `accept` returned for each connection. -/
structure State where
  listening_fd : Int
  procs : List Process
  accepted : List Int

/-- A step of process `i`. -/
structure Label where
  i : Nat
  action : Action
  deriving DecidableEq

/-- The descriptor an action accepts. -/
def Action.accepts : Action → List Int
  | .accept linkage_fd => [linkage_fd]
  | _ => []

/-- A process in `waitpid` goes on when its child has exited. -/
def State.ready (s : State) (p : Process) : Bool :=
  match p.pc with
  | .waiting _ child => (s.procs[child]?).any (·.pc = .exited)
  | _ => true

/-- One step of one of the processes. -/
def step (s : State) (l : Label) : Option State :=
  match s.procs[l.i]? with
  | none => none
  | some p =>
    if s.ready p then
      (p.step s.listening_fd s.accepted.length s.procs.length l.action).map fun r =>
        { s with procs := s.procs.set l.i r.1 ++ r.2, accepted := s.accepted ++ l.action.accepts }
    else none

/-- `process_accept` is called. -/
def State.start (listening_fd : Int) : State where
  listening_fd := listening_fd
  procs := [{ pc := .accepting, table := [(listening_fd, .listening)], held := [], closes := [] }]
  accepted := []

/-- `process_accept` and the processes it forks. -/
def server : System State Label :=
  .ofFun (fun s => ∃ listening_fd, s = .start listening_fd) step

/-- One process takes a step; the process it forks comes behind the others. -/
theorem steps_of_step {s s' : State} {l : Label} (h : step s l = some s') :
    ∃ p p' forked, s.procs[l.i]? = some p ∧
      p.Steps s.listening_fd s.accepted.length s.procs.length l.action p' forked ∧
      s' = { s with procs := s.procs.set l.i p' ++ forked
                    accepted := s.accepted ++ l.action.accepts } := by
  unfold step at h
  split at h
  · cases h
  · next p hp =>
    rw [Option.ite_none_right_eq_some] at h
    obtain ⟨⟨p', forked⟩, hstep, rfl⟩ := Option.map_eq_some_iff.mp h.2
    exact ⟨p, p', forked, hp, Process.steps_of_step hstep, rfl⟩

variable {procs forked : List Process} {p' : Process} {i : Nat} {P : Process → Prop}

/-- What holds of the process that took the step, of the one it forked and held of all before. -/
theorem forall_procs (h : ∀ p ∈ procs, P p) (hp' : P p') (hforked : ∀ p ∈ forked, P p) :
    ∀ p ∈ procs.set i p' ++ forked, P p := by
  intro p hp
  rcases List.mem_append.mp hp with hp | hp
  · rcases List.mem_or_eq_of_mem_set hp with hp | rfl
    · exact h p hp
    · exact hp'
  · exact hforked p hp

/-- What held of some process and is kept by the process that took the step. -/
theorem exists_procs {p : Process} (hi : procs[i]? = some p) (h : ∃ q ∈ procs, P q)
    (hkeep : P p → P p') : ∃ q ∈ procs.set i p' ++ forked, P q := by
  obtain ⟨q, hq, hP⟩ := h
  obtain ⟨j, hj⟩ := List.getElem?_of_mem hq
  by_cases hij : i = j
  · subst hij
    obtain rfl : p = q := Option.some.inj (hi.symm.trans hj)
    have hlt := (List.getElem?_eq_some_iff.mp hi).1
    exact ⟨p', List.mem_append_left _ (List.mem_set hlt _), hkeep hP⟩
  · have hq' : (procs.set i p')[j]? = some q := by rw [List.getElem?_set_ne hij, hj]
    exact ⟨q, List.mem_append_left _ (List.mem_of_getElem? hq'), hP⟩

end ProcessAccept
