import TestServer.Lib.DescriptorTable
import TestServer.Lib.System

/-! # The processes of `deamon`

    `deamon` of `deamon/deamon.cpp` forks twice, and the last process becomes
    the daemon:

    ```
    pid = fork();
    if (pid == -1) return -1;
    if (pid > 0) {
        wait(&status);
    } else if (pid == 0) {
        pid2 = fork();
        if (pid2 == -1) return -1;
        if (pid2 > 0) {
            exit(0);
        } else if (pid2 == 0) {
            pid_t sid = setsid();
            if (chdir("/") < 0) exit(1);
            umask(0);
            close(0);
            int t = open("/dev/null", O_RDWR);
            dup2(0, 1);
            dup2(0, 2);
            callback();
            exit(0);
        }
    }
    ```

    * `Process`: what the kernel keeps for a process.
    * `Host`: what is assumed of the system, who takes orphans for one.
    * `State`, `step`: the three processes, interleaved.
    * `Inv`, `inv_of_reachable`: what each of them has done so far.
-/

open Descriptors LTS

namespace Deamon

variable {δ : Type*}

/-! ### The model -/

/-- What the kernel keeps for a process; `δ` is what descriptors are open on. -/
structure Process (δ : Type*) where
  pid : Nat
  ppid : Nat
  pgid : Nat
  sid : Nat
  cwd : String
  umask : Nat
  table : Table δ

/-- What `deamon` finds where it is called. -/
structure Host (δ : Type*) where
  /-- What `open("/dev/null", O_RDWR)` opens. -/
  devNull : δ
  /-- The process that becomes the parent of an orphan: the nearest subreaper above it, `init` if
      there is none. It outlives the run. -/
  reaper : Nat
  /-- Whether the first process has other children, for which `wait` may return. -/
  others : Bool

/-- The next thing the first process does. -/
inductive FatherPc where
  | fork
  | wait
  /-- `deamon` is over, by `return -1` or at its end, which has no `return`. What the process does
      from there on is left open; it is taken to be still there. -/
  | ended
  deriving DecidableEq

/-- The next thing its child does. -/
inductive ChildPc where
  | fork
  /-- `exit(0)`, or the end of `main` behind `return -1`. -/
  | exit
  | exited
  deriving DecidableEq

/-- The next thing the child of the child does. -/
inductive DaemonPc where
  | setsid
  | chdir
  | umask
  | close
  | open_
  | dup2
  | dup2'
  | callback
  | exit
  | exited
  deriving DecidableEq

/-- The child of the child, with its variable `t`. -/
structure Daemon (δ : Type*) where
  pc : DaemonPc
  process : Process δ
  t : Int

/-- The processes there are. -/
structure State (δ : Type*) where
  fatherPc : FatherPc
  father : Process δ
  child : Option (ChildPc × Process δ)
  daemon : Option (Daemon δ)

/-- Which process takes a step, and what the kernel answers. -/
inductive Label where
  /-- `fork` in the first process gives the child this process ID. -/
  | fork (pid : Nat)
  | forkFails
  /-- `wait` returns for the child of `deamon`. -/
  | wait
  /-- `wait` returns for another child. -/
  | waitOther
  | childForks (pid : Nat)
  | childForkFails
  | childExits
  /-- A system call of the daemon succeeds, or fails. -/
  | daemon (ok : Bool)
  deriving DecidableEq

/-- The copy of a process that `fork` makes. -/
def Process.forked (p : Process δ) (pid : Nat) : Process δ := { p with pid, ppid := p.pid }

/-- A new process ID is neither one of a process nor one of a process group or session. -/
def Process.Fresh (p : Process δ) (pid : Nat) : Prop :=
  pid ≠ p.pid ∧ pid ≠ p.pgid ∧ pid ≠ p.sid

instance (p : Process δ) (pid : Nat) : Decidable (p.Fresh pid) :=
  inferInstanceAs (Decidable (pid ≠ p.pid ∧ pid ≠ p.pgid ∧ pid ≠ p.sid))

/-- `setsid()`, which fails for the leader of a process group. -/
def Process.setsid (p : Process δ) : Process δ :=
  if p.pgid = p.pid then p else { p with pgid := p.pid, sid := p.pid }

/-- The process `parent` has exited. Its children go to the reaper. -/
def Process.orphan (reaper : Nat) (p : Process δ) (parent : Nat) : Process δ :=
  { p with ppid := if p.ppid = parent then reaper else p.ppid }

/-- The daemon goes on to `pc`. -/
def Daemon.next (d : Daemon δ) (pc : DaemonPc) (p : Process δ) : Daemon δ :=
  { d with pc, process := p }

/-- One step of the daemon. -/
def Daemon.step (devNull : δ) (d : Daemon δ) (ok : Bool) : Option (Daemon δ) :=
  match d.pc, ok with
  | .setsid, true => some (d.next .chdir d.process.setsid)
  | .chdir, true => some (d.next .umask { d.process with cwd := "/" })
  | .chdir, false => some (d.next .exited d.process)
  | .umask, true => some (d.next .close { d.process with umask := 0 })
  | .close, true =>
    some (d.next .open_
      { d.process with table := (d.process.table.close 0).getD d.process.table })
  | .open_, true =>
    some { pc := .dup2
           process := { d.process with table := (d.process.table.openFile devNull).2 }
           t := (d.process.table.openFile devNull).1 }
  | .open_, false => some { d with pc := .dup2, t := -1 }
  | .dup2, true =>
    some (d.next .dup2'
      { d.process with table := (d.process.table.dup2 0 1).getD d.process.table })
  | .dup2', true =>
    some (d.next .callback
      { d.process with table := (d.process.table.dup2 0 2).getD d.process.table })
  | .callback, true => some (d.next .exit d.process)
  | .exit, true => some (d.next .exited d.process)
  | _, _ => none

/-- One step of one of the processes. -/
def step (host : Host δ) (s : State δ) : Label → Option (State δ)
  | .fork pid =>
    if s.fatherPc = .fork ∧ s.father.Fresh pid then
      some { s with fatherPc := .wait, child := some (.fork, s.father.forked pid) }
    else none
  | .forkFails => if s.fatherPc = .fork then some { s with fatherPc := .ended } else none
  | .wait =>
    match s.child with
    | some (.exited, _) =>
      if s.fatherPc = .wait then some { s with fatherPc := .ended } else none
    | _ => none
  | .waitOther =>
    if s.fatherPc = .wait ∧ host.others then some { s with fatherPc := .ended } else none
  | .childForks pid =>
    match s.child with
    | some (.fork, c) =>
      if s.father.Fresh pid ∧ c.Fresh pid then
        some { s with child := some (.exit, c)
                      daemon := some { pc := .setsid, process := c.forked pid, t := 0 } }
      else none
    | _ => none
  | .childForkFails =>
    match s.child with
    | some (.fork, c) => some { s with child := some (.exit, c) }
    | _ => none
  | .childExits =>
    match s.child with
    | some (.exit, c) =>
      some { s with child := some (.exited, c)
                    daemon := s.daemon.map fun d =>
                      { d with process := d.process.orphan host.reaper c.pid } }
    | _ => none
  | .daemon ok =>
    match s.daemon with
    | some d => (d.step host.devNull ok).map fun d' => { s with daemon := some d' }
    | none => none

/-- The process `p` calls `deamon`. -/
def State.start (p : Process δ) : State δ where
  fatherPc := .fork
  father := p
  child := none
  daemon := none

/-- `deamon`, called by the process `p`. -/
def processes (host : Host δ) (p : Process δ) : System (State δ) Label :=
  .ofFun (fun s => s = .start p) (step host)

/-! ### What the daemon has done -/

/-- Behind `setsid`, `chdir` and `umask`. -/
structure Settled (p : Process δ) : Prop where
  pgid : p.pgid = p.pid
  sid : p.sid = p.pid
  cwd : p.cwd = "/"
  umask : p.umask = 0

/-- The descriptors up to `n` were redirected, if `open` succeeded. -/
structure Redirected (devNull : δ) (inherited : Table δ) (n : Nat) (d : Daemon δ) : Prop where
  settled : Settled d.process
  opened : (d.t = 0 ∧ ∀ fd ≤ n, d.process.table.get fd = some devNull) ∨
    (d.t = -1 ∧ d.process.table.get 0 = none ∧
      ∀ fd ≤ n, fd ≠ 0 → d.process.table.get fd = inherited.get fd)
  others : ∀ fd, n < fd → d.process.table.get fd = inherited.get fd

/-- What holds of the daemon, by the call that is next. -/
def Daemon.At (devNull : δ) (inherited : Table δ) (d : Daemon δ) : Prop :=
  match d.pc with
  | .setsid => d.process.pgid ≠ d.process.pid ∧ d.process.table = inherited
  | .chdir =>
    d.process.pgid = d.process.pid ∧ d.process.sid = d.process.pid ∧ d.process.table = inherited
  | .umask =>
    d.process.pgid = d.process.pid ∧ d.process.sid = d.process.pid ∧ d.process.cwd = "/" ∧
      d.process.table = inherited
  | .close => Settled d.process ∧ d.process.table = inherited
  | .open_ =>
    Settled d.process ∧ d.process.table.get 0 = none ∧
      ∀ fd ≠ 0, d.process.table.get fd = inherited.get fd
  | .dup2 => Redirected devNull inherited 0 d
  | .dup2' => Redirected devNull inherited 1 d
  | .callback | .exit => Redirected devNull inherited 2 d
  | .exited => True

variable {devNull : δ} {inherited : Table δ} {d d' : Daemon δ} {p : Process δ} {s s' : State δ}

/-- `dup2(0, n + 1)` redirects one more descriptor, or fails like `open` before it. -/
theorem Redirected.dup2 {n : Nat} (h : Redirected devNull inherited n d) (pc : DaemonPc) :
    Redirected devNull inherited (n + 1) (d.next pc { d.process with
      table := (d.process.table.dup2 0 (n + 1)).getD d.process.table }) := by
  have hsettled := h.settled
  rcases h.opened with ⟨ht, hnull⟩ | ⟨ht, hfree, hsame⟩
  · have hget := Table.get_dup2 (hnull 0 (Nat.zero_le _)) (n + 1)
    refine ⟨⟨hsettled.pgid, hsettled.sid, hsettled.cwd, hsettled.umask⟩, Or.inl ⟨ht, ?_⟩, ?_⟩
    · intro fd hfd
      show ((d.process.table.dup2 0 (n + 1)).getD d.process.table).get fd = _
      rw [hget]
      split
      · rfl
      · exact hnull fd (by omega)
    · intro fd hfd
      show ((d.process.table.dup2 0 (n + 1)).getD d.process.table).get fd = _
      rw [hget, if_neg (by omega)]
      exact h.others fd (by omega)
  · rw [Table.dup2_none hfree]
    refine ⟨⟨hsettled.pgid, hsettled.sid, hsettled.cwd, hsettled.umask⟩,
      Or.inr ⟨ht, hfree, ?_⟩, fun fd hfd => h.others fd (by omega)⟩
    intro fd hfd hne
    by_cases hle : fd ≤ n
    · exact hsame fd hle hne
    · exact h.others fd (by omega)

/-- A step of the daemon does the next call. -/
theorem Daemon.At.step {ok : Bool} (h : d.At devNull inherited)
    (hstep : d.step devNull ok = some d') : d'.At devNull inherited := by
  unfold Daemon.step at hstep
  split at hstep
  case h_1 hpc =>
    -- the process is not the leader of its group
    obtain rfl := Option.some.inj hstep
    simp only [Daemon.At, hpc] at h
    have hsetsid : d.process.setsid
        = { d.process with pgid := d.process.pid, sid := d.process.pid } := if_neg h.1
    rw [hsetsid]
    exact ⟨rfl, rfl, h.2⟩
  case h_2 hpc =>
    obtain rfl := Option.some.inj hstep
    simp only [Daemon.At, hpc] at h
    exact ⟨h.1, h.2.1, rfl, h.2.2⟩
  case h_3 hpc =>
    obtain rfl := Option.some.inj hstep
    trivial
  case h_4 hpc =>
    obtain rfl := Option.some.inj hstep
    simp only [Daemon.At, hpc] at h
    exact ⟨⟨h.1, h.2.1, h.2.2.1, rfl⟩, h.2.2.2⟩
  case h_5 hpc =>
    obtain rfl := Option.some.inj hstep
    simp only [Daemon.At, hpc] at h
    obtain ⟨hsettled, htable⟩ := h
    refine ⟨⟨hsettled.pgid, hsettled.sid, hsettled.cwd, hsettled.umask⟩, ?_, fun fd hfd => ?_⟩
    · exact (Table.get_close ..).trans (if_pos rfl)
    · rw [← htable]
      exact (Table.get_close ..).trans (if_neg hfd)
  case h_6 hpc =>
    -- 0 is free, so it is the descriptor that `open` returns
    obtain rfl := Option.some.inj hstep
    simp only [Daemon.At, hpc] at h
    obtain ⟨hsettled, hfree, hsame⟩ := h
    have hzero : d.process.table.lowest = 0 := Nat.le_zero.mp (Table.lowest_le hfree)
    have hget : ∀ fd, (d.process.table.openFile devNull).2.get fd
        = if fd = 0 then some devNull else d.process.table.get fd := by
      intro fd
      show (d.process.table.put d.process.table.lowest (some devNull)).get fd = _
      rw [hzero, Table.get_put]
    refine ⟨⟨hsettled.pgid, hsettled.sid, hsettled.cwd, hsettled.umask⟩,
      Or.inl ⟨?_, fun fd hfd => ?_⟩, fun fd hfd => ?_⟩
    · show ((d.process.table.lowest : Nat) : Int) = 0
      rw [hzero]
      rfl
    · exact (hget fd).trans (if_pos (by omega))
    · exact ((hget fd).trans (if_neg (by omega))).trans (hsame fd (by omega))
  case h_7 hpc =>
    obtain rfl := Option.some.inj hstep
    simp only [Daemon.At, hpc] at h
    obtain ⟨hsettled, hfree, hsame⟩ := h
    exact ⟨hsettled, Or.inr ⟨rfl, hfree, fun fd _ hne => hsame fd hne⟩,
      fun fd hfd => hsame fd (by omega)⟩
  case h_8 hpc =>
    obtain rfl := Option.some.inj hstep
    simp only [Daemon.At, hpc] at h
    exact h.dup2 .dup2'
  case h_9 hpc =>
    obtain rfl := Option.some.inj hstep
    simp only [Daemon.At, hpc] at h
    exact h.dup2 .callback
  case h_10 hpc =>
    obtain rfl := Option.some.inj hstep
    simp only [Daemon.At, hpc] at h
    exact ⟨h.settled, h.opened, h.others⟩
  case h_11 hpc =>
    obtain rfl := Option.some.inj hstep
    trivial
  case h_12 => cases hstep

/-- It stays the same process. -/
theorem Daemon.step_pid {ok : Bool} (hstep : d.step devNull ok = some d') :
    d'.process.pid = d.process.pid ∧ d'.process.ppid = d.process.ppid := by
  unfold Daemon.step at hstep
  split at hstep
  case h_1 =>
    obtain rfl := Option.some.inj hstep
    show d.process.setsid.pid = _ ∧ d.process.setsid.ppid = _
    unfold Process.setsid
    split <;> exact ⟨rfl, rfl⟩
  case h_12 => cases hstep
  all_goals
    obtain rfl := Option.some.inj hstep
    exact ⟨rfl, rfl⟩

theorem Settled.orphan (h : Settled p) (reaper parent : Nat) : Settled (p.orphan reaper parent) :=
  ⟨h.pgid, h.sid, h.cwd, h.umask⟩

theorem Redirected.orphan {n : Nat} (h : Redirected devNull inherited n d) (reaper parent : Nat) :
    Redirected devNull inherited n { d with process := d.process.orphan reaper parent } :=
  ⟨h.settled.orphan reaper parent, h.opened, h.others⟩

/-- It does not matter to the daemon that its parent exits. -/
theorem Daemon.At.orphan (h : d.At devNull inherited) (reaper parent : Nat) :
    Daemon.At devNull inherited { d with process := d.process.orphan reaper parent } := by
  obtain ⟨pc, q, t⟩ := d
  cases pc with
  | setsid => exact h
  | chdir => exact h
  | umask => exact h
  | close => exact ⟨h.1.orphan reaper parent, h.2⟩
  | open_ => exact ⟨h.1.orphan reaper parent, h.2⟩
  | dup2 => exact Redirected.orphan h reaper parent
  | dup2' => exact Redirected.orphan h reaper parent
  | callback => exact Redirected.orphan h reaper parent
  | exit => exact Redirected.orphan h reaper parent
  | exited => trivial

/-! ### What holds of all three -/

variable {host : Host δ}

/-- What holds of the child `c` and the daemon `d`. -/
structure Forked (host : Host δ) (p : Process δ) (pc : ChildPc) (c : Process δ) (d : Daemon δ) :
    Prop where
  childPc : pc ≠ .fork
  fresh : p.Fresh d.process.pid
  pid : d.process.pid ≠ c.pid
  parent : d.process.ppid = if pc = .exited then host.reaper else c.pid
  at_ : d.At host.devNull p.table

/-- What holds of the processes when `p` has called `deamon`. -/
structure Inv (host : Host δ) (p : Process δ) (s : State δ) : Prop where
  father : s.father = p
  forking : s.fatherPc = .fork → s.child = none
  ended : s.fatherPc = .ended → ∀ pc c, s.child = some (pc, c) → host.others ∨ pc = .exited
  child : ∀ pc c, s.child = some (pc, c) → ∃ pid, p.Fresh pid ∧ c = p.forked pid
  daemon : ∀ d, s.daemon = some d → ∃ pc c, s.child = some (pc, c) ∧ Forked host p pc c d

theorem inv_start (host : Host δ) (p : Process δ) : Inv host p (.start p) where
  father := rfl
  forking := fun _ => rfl
  ended := by simp [State.start]
  child := by simp [State.start]
  daemon := by simp [State.start]

/-- There is a child only when the first process has forked. -/
theorem Inv.not_fork (h : Inv host p s) {c : ChildPc × Process δ} (hchild : s.child = some c) :
    s.fatherPc ≠ .fork := by
  intro hf
  rw [h.forking hf] at hchild
  cases hchild

/-- What the child of `deamon` does next makes no difference to the first process, unless it is the
    end of the child. -/
theorem Inv.others_of_child (h : Inv host p s) {pc : ChildPc} {c : Process δ}
    (hchild : s.child = some (pc, c)) (hpc : pc ≠ .exited) (hended : s.fatherPc = .ended) :
    host.others :=
  (h.ended hended pc c hchild).resolve_right hpc

/-- The child forks. -/
theorem Inv.childForks (h : Inv host p s) {c : Process δ} (hchild : s.child = some (.fork, c))
    {pid : Nat} (hfresh : s.father.Fresh pid) (hother : c.Fresh pid) :
    Inv host p { s with child := some (.exit, c)
                        daemon := some { pc := .setsid, process := c.forked pid, t := 0 } } where
  father := h.father
  forking := fun hf => absurd hf (h.not_fork hchild)
  ended := fun hended _ _ _ => Or.inl (h.others_of_child hchild (by simp) hended)
  child := by
    intro pc c' hc
    obtain ⟨rfl, rfl⟩ := Prod.mk.inj (Option.some.inj hc)
    exact h.child _ _ hchild
  daemon := by
    intro d hd
    obtain rfl := Option.some.inj hd
    obtain ⟨cpid, -, rfl⟩ := h.child _ _ hchild
    rw [h.father] at hfresh
    -- the process group is the one of the first process
    have hgroup : p.pgid ≠ pid := hfresh.2.1.symm
    exact ⟨.exit, p.forked cpid, rfl, by simp, hfresh, hother.1, rfl, hgroup, rfl⟩

/-- The child fails to fork, so there is no daemon. -/
theorem Inv.childForkFails (h : Inv host p s) {c : Process δ}
    (hchild : s.child = some (.fork, c)) : Inv host p { s with child := some (.exit, c) } where
  father := h.father
  forking := fun hf => absurd hf (h.not_fork hchild)
  ended := fun hended _ _ _ => Or.inl (h.others_of_child hchild (by simp) hended)
  child := by
    intro pc c' hc
    obtain ⟨rfl, rfl⟩ := Prod.mk.inj (Option.some.inj hc)
    exact h.child _ _ hchild
  daemon := by
    intro d hd
    obtain ⟨pc, c', hc, hforked⟩ := h.daemon d hd
    exact absurd (Prod.mk.inj (Option.some.inj (hc.symm.trans hchild))).1 hforked.childPc

/-- The child exits, and the daemon gets another parent. -/
theorem Inv.childExits (h : Inv host p s) {c : Process δ} (hchild : s.child = some (.exit, c)) :
    Inv host p { s with child := some (.exited, c)
                        daemon := s.daemon.map fun d =>
                          { d with process := d.process.orphan host.reaper c.pid } } where
  father := h.father
  forking := fun hf => absurd hf (h.not_fork hchild)
  ended := fun _ pc c' hc => Or.inr (Prod.mk.inj (Option.some.inj hc)).1.symm
  child := by
    intro pc c' hc
    obtain ⟨rfl, rfl⟩ := Prod.mk.inj (Option.some.inj hc)
    exact h.child _ _ hchild
  daemon := by
    intro d hd
    obtain ⟨d', hd', rfl⟩ := Option.map_eq_some_iff.mp hd
    obtain ⟨pc, c', hc, hforked⟩ := h.daemon d' hd'
    obtain ⟨rfl, rfl⟩ := Prod.mk.inj (Option.some.inj (hc.symm.trans hchild))
    have hparent : d'.process.ppid = c'.pid := hforked.parent
    exact ⟨.exited, c', rfl, by simp, hforked.fresh, hforked.pid, if_pos hparent,
      hforked.at_.orphan host.reaper c'.pid⟩

/-- The daemon does its next call. -/
theorem Inv.daemonStep (h : Inv host p s) {d d' : Daemon δ} {ok : Bool} (hd : s.daemon = some d)
    (hstep : d.step host.devNull ok = some d') : Inv host p { s with daemon := some d' } where
  father := h.father
  forking := h.forking
  ended := h.ended
  child := h.child
  daemon := by
    intro e he
    obtain rfl := Option.some.inj he
    obtain ⟨pc, c, hc, hforked⟩ := h.daemon d hd
    obtain ⟨hpid, hppid⟩ := Daemon.step_pid hstep
    exact ⟨pc, c, hc, hforked.childPc, hpid ▸ hforked.fresh, hpid ▸ hforked.pid,
      hppid.trans hforked.parent, hforked.at_.step hstep⟩

/-- Every step keeps the invariant. -/
theorem Inv.step {l : Label} (h : Inv host p s) (hstep : step host s l = some s') :
    Inv host p s' := by
  cases l with
  | fork pid =>
    obtain ⟨⟨hpc, hfresh⟩, hs⟩ := Option.ite_none_right_eq_some.mp hstep
    obtain rfl := Option.some.inj hs
    rw [h.father] at hfresh
    refine ⟨h.father, by simp, by simp, ?_, fun d hd => ?_⟩
    · intro pc c hc
      obtain ⟨rfl, rfl⟩ := Prod.mk.inj (Option.some.inj hc)
      exact ⟨pid, hfresh, by rw [h.father]⟩
    · obtain ⟨pc, c, hc, -⟩ := h.daemon d hd
      exact absurd hpc (h.not_fork hc)
  | forkFails =>
    obtain ⟨hpc, hs⟩ := Option.ite_none_right_eq_some.mp hstep
    obtain rfl := Option.some.inj hs
    refine ⟨h.father, by simp, fun _ pc c hc => ?_, h.child, h.daemon⟩
    exact absurd hpc (h.not_fork hc)
  | wait =>
    simp only [Deamon.step] at hstep
    split at hstep
    case h_1 c hchild =>
      obtain ⟨-, hs⟩ := Option.ite_none_right_eq_some.mp hstep
      obtain rfl := Option.some.inj hs
      refine ⟨h.father, by simp, fun _ pc c' hc => Or.inr ?_, h.child, h.daemon⟩
      exact (Prod.mk.inj (Option.some.inj (hc.symm.trans hchild))).1
    case h_2 => cases hstep
  | waitOther =>
    obtain ⟨⟨-, hothers⟩, hs⟩ := Option.ite_none_right_eq_some.mp hstep
    obtain rfl := Option.some.inj hs
    exact ⟨h.father, by simp, fun _ _ _ _ => Or.inl hothers, h.child, h.daemon⟩
  | childForks pid =>
    simp only [Deamon.step] at hstep
    split at hstep
    case h_1 c hchild =>
      obtain ⟨⟨hfresh, hother⟩, hs⟩ := Option.ite_none_right_eq_some.mp hstep
      obtain rfl := Option.some.inj hs
      exact h.childForks hchild hfresh hother
    case h_2 => cases hstep
  | childForkFails =>
    simp only [Deamon.step] at hstep
    split at hstep
    case h_1 c hchild =>
      obtain rfl := Option.some.inj hstep
      exact h.childForkFails hchild
    case h_2 => cases hstep
  | childExits =>
    simp only [Deamon.step] at hstep
    split at hstep
    case h_1 c hchild =>
      obtain rfl := Option.some.inj hstep
      exact h.childExits hchild
    case h_2 => cases hstep
  | daemon ok =>
    simp only [Deamon.step] at hstep
    split at hstep
    case h_1 d hd =>
      obtain ⟨d', hd', rfl⟩ := Option.map_eq_some_iff.mp hstep
      exact h.daemonStep hd hd'
    case h_2 => cases hstep

theorem inv_of_reachable (h : (processes host p).Reachable s) : Inv host p s := by
  apply h.invariant
  · intro s hs
    subst hs
    exact inv_start host p
  · intro s l s' hinv (hstep : Deamon.step host s l = some s')
    exact hinv.step hstep

end Deamon
