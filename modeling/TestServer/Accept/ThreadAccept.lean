import Mathlib.Logic.Function.Basic
import TestServer.Lib.System

/-! # `thread_accept` and its threads

    `thread_accept` and `pthread_func` of `sample_socket/test_server.cpp`. The
    main loop hands every connection to a thread of its own, through a pointer
    to a variable declared in the loop body:

    ```
    while (1) {
        linkage_fd = accept(listening_fd, ...);
        if (linkage_fd < 0) return 0;
        FuncData func_data;
        func_data.fd = linkage_fd;
        func_data.write_func = write_message;
        func_data.read_func = read_message;
        if (pthread_create(&tid, NULL, pthread_func, &func_data) != 0) return 0;
    }
    ```

    The thread reads the variable when it runs:

    ```
    int linkage_fd = func_data->fd;
    write_message = func_data->write_func;
    read_message = func_data->read_func;
    write_message(linkage_fd);
    read_message(linkage_fd);
    close(linkage_fd);
    ```

    * `State`, `step`: the main loop and its threads, interleaved step by step.
      `func_data` has the same storage in every iteration.
    * `Steps`, `steps_of_step`: everything one step can do.
-/

open LTS

namespace ThreadAccept

variable {F : Type}

/-! ### State -/

/-- `struct FuncData`. The functions are known by what they are, not by what they do. -/
structure FuncData (F : Type) where
  fd : Int
  write_func : F
  read_func : F

/-- Where a thread is in `pthread_func`, with what it read from `func_data`. -/
inductive Thread (F : Type) where
  | created
  | loaded (d : FuncData F)
  | wrote (d : FuncData F)
  | served (d : FuncData F)
  | closed (d : FuncData F)

/-- What the thread read from `func_data`. -/
def Thread.data? : Thread F → Option (FuncData F)
  | created => none
  | loaded d => some d
  | wrote d => some d
  | served d => some d
  | closed d => some d

/-- Where the main loop is. -/
inductive Pc where
  /-- About to call `accept`. -/
  | accepting
  /-- About to fill `func_data`. -/
  | storing (linkage_fd : Int)
  /-- About to call `pthread_create`. -/
  | creating
  | returned
  deriving DecidableEq

/-- What a thread does with a descriptor. -/
inductive Op (F : Type) where
  | call (func : F)
  | close

/-- A thread used a descriptor: the connection that was open under it, if any. -/
structure Use (F : Type) where
  thread : Nat
  op : Op F
  conn : Option Nat

/-- The main loop, its threads and the descriptors. Connections and threads are numbered in the
    order of `accept` and of `pthread_create`. -/
structure State (F : Type) where
  pc : Pc
  func_data : FuncData F
  /-- The descriptor `accept` returned for each connection. -/
  accepted : List Int
  /-- The connection open under each descriptor. -/
  table : Int → Option Nat
  threads : List (Thread F)
  log : List (Use F)

/-- A step of the main loop, or of a thread. -/
inductive Label (F : Type) where
  /-- `accept` returns `linkage_fd`. -/
  | accept (linkage_fd : Int)
  | acceptFails
  | store
  | create
  | createFails
  /-- Thread `i` reads `func_data`. When `thread_accept` has returned, it finds `junk` there. -/
  | load (i : Nat) (junk : FuncData F)
  | write (i : Nat)
  | read (i : Nat)
  | close (i : Nat)

/-! ### Steps -/

/-- Thread `i` goes on to `t`. -/
def State.goTo (s : State F) (i : Nat) (t : Thread F) : State F :=
  { s with threads := s.threads.set i t }

/-- Thread `i` uses the descriptor `fd`. -/
def State.use (s : State F) (i : Nat) (op : Op F) (fd : Int) : State F :=
  { s with log := s.log ++ [{ thread := i, op, conn := s.table fd }] }

/-- The descriptor `fd` is closed. -/
def State.closeFd (s : State F) (fd : Int) : State F :=
  { s with table := Function.update s.table fd none }

/-- `accept` returned `linkage_fd`. -/
def State.acceptOk (s : State F) (linkage_fd : Int) : State F :=
  { s with pc := .storing linkage_fd, accepted := s.accepted ++ [linkage_fd]
           table := Function.update s.table linkage_fd (some s.accepted.length) }

/-- One step of `thread_accept(_, write_message, read_message)` or of a thread. -/
def step (write_message read_message : F) (s : State F) : Label F → Option (State F)
  | .accept linkage_fd =>
    -- the kernel gives out a descriptor that is not open
    if s.pc = .accepting ∧ 0 ≤ linkage_fd ∧ s.table linkage_fd = none then
      some (s.acceptOk linkage_fd)
    else none
  | .acceptFails => if s.pc = .accepting then some { s with pc := .returned } else none
  | .store =>
    match s.pc with
    | .storing linkage_fd =>
      some { s with pc := .creating, func_data := { fd := linkage_fd, write_func := write_message,
                                                    read_func := read_message } }
    | _ => none
  | .create =>
    -- the thread gets the address of `func_data`, not what it holds
    if s.pc = .creating then
      some { s with pc := .accepting, threads := s.threads ++ [.created] }
    else none
  | .createFails => if s.pc = .creating then some { s with pc := .returned } else none
  | .load i junk =>
    -- all threads read the same storage, whatever the main loop has put there by now
    match s.threads[i]? with
    | some .created => some (s.goTo i (.loaded (if s.pc = .returned then junk else s.func_data)))
    | _ => none
  | .write i =>
    match s.threads[i]? with
    | some (.loaded d) => some ((s.use i (.call d.write_func) d.fd).goTo i (.wrote d))
    | _ => none
  | .read i =>
    match s.threads[i]? with
    | some (.wrote d) => some ((s.use i (.call d.read_func) d.fd).goTo i (.served d))
    | _ => none
  | .close i =>
    match s.threads[i]? with
    | some (.served d) => some (((s.use i .close d.fd).closeFd d.fd).goTo i (.closed d))
    | _ => none

/-- `thread_accept` is called: no connection was accepted, no thread created. -/
def State.start (func_data : FuncData F) : State F where
  pc := .accepting
  func_data := func_data
  accepted := []
  table := fun _ => none
  threads := []
  log := []

/-- `thread_accept` and the threads it creates. -/
def server (write_message read_message : F) : System (State F) (Label F) :=
  .ofFun (fun s => ∃ func_data, s = .start func_data) (step write_message read_message)

/-- Everything a step can do. -/
inductive Steps (write_message read_message : F) (s : State F) : Label F → State F → Prop where
  | accept {linkage_fd : Int} : s.pc = .accepting → s.table linkage_fd = none →
      Steps _ _ s (.accept linkage_fd) (s.acceptOk linkage_fd)
  | acceptFails : s.pc = .accepting → Steps _ _ s .acceptFails { s with pc := .returned }
  | store {linkage_fd : Int} : s.pc = .storing linkage_fd →
      Steps _ _ s .store
        { s with pc := .creating, func_data := { fd := linkage_fd, write_func := write_message,
                                                 read_func := read_message } }
  | create : s.pc = .creating →
      Steps _ _ s .create { s with pc := .accepting, threads := s.threads ++ [.created] }
  | createFails : s.pc = .creating → Steps _ _ s .createFails { s with pc := .returned }
  | load {i : Nat} {junk : FuncData F} : s.threads[i]? = some .created →
      Steps _ _ s (.load i junk)
        (s.goTo i (.loaded (if s.pc = .returned then junk else s.func_data)))
  | write {i : Nat} {d : FuncData F} : s.threads[i]? = some (.loaded d) →
      Steps _ _ s (.write i) ((s.use i (.call d.write_func) d.fd).goTo i (.wrote d))
  | read {i : Nat} {d : FuncData F} : s.threads[i]? = some (.wrote d) →
      Steps _ _ s (.read i) ((s.use i (.call d.read_func) d.fd).goTo i (.served d))
  | close {i : Nat} {d : FuncData F} : s.threads[i]? = some (.served d) →
      Steps _ _ s (.close i)
        (((s.use i .close d.fd).closeFd d.fd).goTo i (.closed d))

theorem steps_of_step {write_message read_message : F} {s s' : State F} {l : Label F}
    (h : step write_message read_message s l = some s') :
    Steps write_message read_message s l s' := by
  cases l with
  | accept linkage_fd =>
    simp only [step, Option.ite_none_right_eq_some, Option.some.injEq] at h
    obtain ⟨⟨hpc, -, hfresh⟩, rfl⟩ := h
    exact .accept hpc hfresh
  | acceptFails =>
    simp only [step, Option.ite_none_right_eq_some, Option.some.injEq] at h
    obtain ⟨hpc, rfl⟩ := h
    exact .acceptFails hpc
  | store =>
    simp only [step] at h
    split at h
    · next linkage_fd hpc =>
      obtain rfl := Option.some.inj h
      exact .store hpc
    · cases h
  | create =>
    simp only [step, Option.ite_none_right_eq_some, Option.some.injEq] at h
    obtain ⟨hpc, rfl⟩ := h
    exact .create hpc
  | createFails =>
    simp only [step, Option.ite_none_right_eq_some, Option.some.injEq] at h
    obtain ⟨hpc, rfl⟩ := h
    exact .createFails hpc
  | load i junk =>
    simp only [step] at h
    split at h
    · next hi =>
      obtain rfl := Option.some.inj h
      exact .load hi
    · cases h
  | write i =>
    simp only [step] at h
    split at h
    · next d hi =>
      obtain rfl := Option.some.inj h
      exact .write hi
    · cases h
  | read i =>
    simp only [step] at h
    split at h
    · next d hi =>
      obtain rfl := Option.some.inj h
      exact .read hi
    · cases h
  | close i =>
    simp only [step] at h
    split at h
    · next d hi =>
      obtain rfl := Option.some.inj h
      exact .close hi
    · cases h

end ThreadAccept
