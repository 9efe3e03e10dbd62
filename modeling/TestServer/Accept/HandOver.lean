import Mathlib.Algebra.BigOperators.Group.List.Basic
import Mathlib.Algebra.GroupWithZero.Nat
import TestServer.Accept.Balanced
import TestServer.Lib.Progress

/-! # From `accept` to the callbacks

    `process_accept` forks twice, so that the server waits for a child that exits
    at once and not for the grandchild with the callbacks.

    * `Process.hands`, `Process.givesUp`: the `fork` of a grandchild, and a `fork`
      that fails, each for a connection.
    * `Handed`: a connection that was accepted is on its way to a grandchild, was
      given to one, or was given up.
    * `handed_over_once`: one of the three, and no connection is given to two.
    * `handOver`: the steps between `accept` and the grandchild.
    * `OneByOne`: at most one connection is on its way.
    * `not_delayed`: the server is back in `accept` after six of these steps,
      whatever the grandchildren do.
-/

open LTS

namespace ProcessAccept

variable {p p' : Process} {s s' : State} {l : Label} {a : Action} {forks procs : List Process}
  {listening_fd fd : Int} {c n child i : Nat} {tr : List (State × Label)}

/-! ### What the processes add up to -/

/-- What a quantity adds up to over all processes. -/
def State.total (f : Process → Nat) (s : State) : Nat := (s.procs.map f).sum

/-- The process that took a step and the one it forked count anew. -/
theorem sum_procs (f : Process → Nat) (hi : procs[i]? = some p) :
    ((procs.set i p' ++ forks).map f).sum + f p =
      (procs.map f).sum + f p' + (forks.map f).sum := by
  induction procs generalizing i with
  | nil => simp at hi
  | cons q rest ih =>
    cases i with
    | zero =>
      obtain rfl : q = p := by simpa using hi
      simp only [List.set_cons_zero, List.cons_append, List.map_cons, List.map_append,
        List.sum_cons, List.sum_append]
      omega
    | succ i =>
      have hrest := ih (i := i) (by simpa using hi)
      simp only [List.set_cons_succ, List.cons_append, List.map_cons, List.sum_cons]
      omega

/-- The state after a step. -/
def State.after (s : State) (l : Label) (p' : Process) (forks : List Process) : State :=
  { s with procs := s.procs.set l.i p' ++ forks, accepted := s.accepted ++ l.action.accepts }

theorem State.total_after (f : Process → Nat) (hi : s.procs[l.i]? = some p) :
    (s.after l p' forks).total f + f p = s.total f + f p' + (forks.map f).sum :=
  sum_procs f hi

/-! ### One grandchild for a connection -/

/-- The process has the connection and is on the way to the `fork` of a grandchild. -/
def Process.pending (c : Nat) (p : Process) : Bool :=
  match p.pc with
  | .forking fd | .childClosing fd | .childForking fd => p.table.lookup fd = some (.connection c)
  | _ => false

/-- The process is in the callbacks with the connection. -/
def Process.serves (c : Nat) (p : Process) : Bool :=
  match p.pc with
  | .writing fd | .reading fd | .funcClosing fd => p.table.lookup fd = some (.connection c)
  | _ => false

/-- The step starts a process with the callbacks for the connection. -/
def Process.hands (c : Nat) (a : Action) (p : Process) : Bool :=
  match a, p.pc with
  | .fork, .childForking fd => p.table.lookup fd = some (.connection c)
  | _, _ => false

/-- A `fork` for the connection fails. -/
def Process.givesUp (c : Nat) (a : Action) (p : Process) : Bool :=
  match a, p.pc with
  | .forkFails, .forking fd | .forkFails, .childForking fd =>
    p.table.lookup fd = some (.connection c)
  | _, _ => false

/-- How often a run started a process with the callbacks for the connection. -/
def handed (c : Nat) (tr : List (State × Label)) : Nat :=
  tr.countP fun e => (e.1.procs[e.2.i]?).any (·.hands c e.2.action)

/-- How often a `fork` for the connection failed in a run. -/
def givenUp (c : Nat) (tr : List (State × Label)) : Nat :=
  tr.countP fun e => (e.1.procs[e.2.i]?).any (·.givesUp c e.2.action)

theorem handed_snoc (hi : s.procs[l.i]? = some p) :
    handed c (tr ++ [(s, l)]) = handed c tr + (p.hands c l.action).toNat := by
  cases hhands : p.hands c l.action <;>
    simp [handed, List.countP_append, hi, hhands]

theorem givenUp_snoc (hi : s.procs[l.i]? = some p) :
    givenUp c (tr ++ [(s, l)]) = givenUp c tr + (p.givesUp c l.action).toNat := by
  cases hgives : p.givesUp c l.action <;>
    simp [givenUp, List.countP_append, hi, hgives]

/-- A step takes a connection from `accept` to a child, and from a child to a grandchild or to
    nobody. -/
theorem Process.pending_step (hshape : p.Shape listening_fd)
    (hstep : p.Steps listening_fd n child a p' forks) (c : Nat) :
    (p.hands c a).toNat + (p.givesUp c a).toNat + (p'.pending c).toNat
        + (forks.map fun q => (q.pending c).toNat).sum + (if c < n then 1 else 0)
      = (p.pending c).toNat + if c < n + a.accepts.length then 1 else 0 := by
  unfold Process.Shape at hshape
  cases hstep with
  | @accept fd hpc _ =>
    have hnew : (p.acceptOk fd n).pending c = decide (n = c) := by
      simp [pending, acceptOk, List.lookup_cons_self]
    have hold : p.pending c = false := by simp [pending, hpc]
    rw [hnew, hold]
    by_cases hc : n = c
    · simp [hands, givesUp, Action.accepts, hc]
    · have hlt : c < n + 1 ↔ c < n := by omega
      simp [hands, givesUp, Action.accepts, hc, hlt]
  | childClosed hpc =>
    -- the connection's descriptor is not the one that is closed
    rw [hpc] at hshape
    obtain ⟨hne, d, htable⟩ := hshape
    have hclosed := close_listening hne htable
    simp [hands, givesUp, pending, goTo, hpc, htable, hclosed, Action.accepts]
  | _ => simp [hands, givesUp, pending, goTo, forked, *, Action.accepts]

/-- Only a `fork` of a child starts callbacks. -/
theorem Process.serves_step (hstep : p.Steps listening_fd n child a p' forks) (c : Nat) :
    (p'.serves c).toNat + (forks.map fun q => (q.serves c).toNat).sum ≤
      (p.serves c).toNat + (p.hands c a).toNat := by
  cases hstep with
  | writes hpc | reads hpc =>
    simp only [serves, hands, goTo, hpc, List.map_nil, List.sum_nil]
    exact Nat.le_refl _
  | _ => simp [hands, serves, goTo, forked, acceptOk, *]

/-- Where the connection is after a run. -/
structure Handed (c : Nat) (tr : List (State × Label)) (s : State) : Prop where
  once : handed c tr + givenUp c tr + s.total (fun p => (p.pending c).toNat) =
    if c < s.accepted.length then 1 else 0
  served : s.total (fun p => (p.serves c).toNat) ≤ handed c tr

theorem handed_start (listening_fd : Int) (c : Nat) : Handed c [] (.start listening_fd) where
  once := rfl
  served := Nat.le_refl 0

theorem Handed.step (h : Handed c tr s) (hinv : Inv s) (hstep : step s l = some s') :
    Handed c (tr ++ [(s, l)]) s' := by
  obtain ⟨p, p', forks, hi, hsteps, rfl⟩ := steps_of_step hstep
  have hshape := (hinv p (List.mem_of_getElem? hi)).2
  change Handed c _ (s.after l p' forks)
  refine ⟨?_, ?_⟩
  · have hone := Process.pending_step hshape hsteps c
    have hsum : (s.after l p' forks).total (fun q => (q.pending c).toNat) + _ = _ :=
      State.total_after _ hi
    have hlength : (s.after l p' forks).accepted.length
        = s.accepted.length + l.action.accepts.length := List.length_append
    have hbefore := h.once
    rw [handed_snoc hi, givenUp_snoc hi, hlength]
    omega
  · have hone := Process.serves_step hsteps c
    have hsum : (s.after l p' forks).total (fun q => (q.serves c).toNat) + _ = _ :=
      State.total_after _ hi
    have hbefore := h.served
    rw [handed_snoc hi]
    omega

theorem handed_of_run (h : server.Run tr s) (c : Nat) : Handed c tr s := by
  induction h with
  | start hs =>
    obtain ⟨listening_fd, rfl⟩ := hs
    exact handed_start listening_fd c
  | next hrun hstep ih => exact ih.step (inv_of_reachable ⟨_, hrun⟩) hstep

/-! ### One connection at a time -/

/-- The server is at `pc`. -/
def Pc.ofServer : Pc → Bool
  | .accepting | .forking _ | .waiting .. | .closing _ | .returned => true
  | _ => false

/-- A child the server waits for may be at `pc`. -/
def Pc.awaited : Pc → Bool
  | .childClosing _ | .childForking _ | .childLeaving _ | .exited => true
  | _ => false

/-- A process nobody waits for may be at `pc`. -/
def Pc.detached : Pc → Bool
  | .writing _ | .reading _ | .funcClosing _ | .leaving _ | .exited => true
  | _ => false

/-- The child a server at `pc` waits for. -/
def Pc.child? : Pc → Option Nat
  | .waiting _ child => some child
  | _ => none

/-- The first process is the server. It waits for at most one child, and no other child is on its
    way. -/
structure OneByOne (server : Process) (s : State) : Prop where
  first : s.procs[0]? = some server
  ofServer : server.pc.ofServer
  child : ∀ i, server.pc.child? = some i → i ≠ 0 ∧ ∃ q, s.procs[i]? = some q ∧ q.pc.awaited
  others : ∀ i q, s.procs[i]? = some q → i ≠ 0 → server.pc.child? ≠ some i → q.pc.detached

/-- A process after a step is the one that took it, one that did not, or one it forked. -/
theorem getElem?_procs {q : Process} {j : Nat} (h : (procs.set i p' ++ forks)[j]? = some q)
    (hi : procs[i]? = some p) :
    (j = i ∧ q = p') ∨ (j ≠ i ∧ procs[j]? = some q) ∨ (procs.length ≤ j ∧ q ∈ forks) := by
  by_cases hj : j < procs.length
  · rw [List.getElem?_append_left (by simpa using hj)] at h
    by_cases hij : j = i
    · subst hij
      rw [List.getElem?_set_self hj] at h
      exact Or.inl ⟨rfl, (Option.some.inj h).symm⟩
    · rw [List.getElem?_set_ne (Ne.symm hij)] at h
      exact Or.inr (Or.inl ⟨hij, h⟩)
  · have hle : procs.length ≤ j := Nat.le_of_not_lt hj
    rw [List.getElem?_append_right (by simpa using hle)] at h
    exact Or.inr (Or.inr ⟨hle, List.mem_of_getElem? h⟩)

/-- Processes that take no step stay where they are. -/
theorem getElem?_unchanged {q : Process} {j : Nat} (h : procs[j]? = some q) (hij : j ≠ i) :
    (procs.set i p' ++ forks)[j]? = some q := by
  have hj := (List.getElem?_eq_some_iff.mp h).1
  rw [List.getElem?_append_left (by simpa using hj), List.getElem?_set_ne (Ne.symm hij), h]

theorem getElem?_moved (hi : procs[i]? = some p) : (procs.set i p' ++ forks)[i]? = some p' := by
  have hlt := (List.getElem?_eq_some_iff.mp hi).1
  rw [List.getElem?_append_left (by simpa using hlt), List.getElem?_set_self hlt]

theorem oneByOne_start (listening_fd : Int) :
    ∃ first, OneByOne first (.start listening_fd) := by
  refine ⟨_, ⟨rfl, rfl, nofun, ?_⟩⟩
  intro i q hq hne
  have hlt : i < 1 := (List.getElem?_eq_some_iff.mp hq).1
  omega

section OneByOne

variable {server : Process} (h : OneByOne server s)
include h

/-- A step of the server that waits for no child behind it. -/
theorem OneByOne.server_moved (ha : p'.pc.ofServer) (hnone : p'.pc.child? = none)
    (hothers : ∀ i q, s.procs[i]? = some q → i ≠ 0 → q.pc.detached) (hl : l.i = 0) :
    OneByOne p' (s.after l p' []) where
  first := hl ▸ getElem?_moved (hl ▸ h.first)
  ofServer := ha
  child := fun i hi => by simp [hnone] at hi
  others := by
    intro i q hq hne _
    have hfirst : s.procs[l.i]? = some server := hl ▸ h.first
    rcases getElem?_procs hq hfirst with ⟨rfl, -⟩ | ⟨-, hold⟩ | ⟨-, hnew⟩
    · exact absurd hl hne
    · exact hothers i q hold hne
    · cases hnew

/-- The server forks a child and waits for it. -/
theorem OneByOne.server_forked (hnone : server.pc.child? = none)
    (ha : p'.pc = .waiting fd s.procs.length) {q : Process} (hq : q.pc = .childClosing fd)
    (hl : l.i = 0) : OneByOne p' (s.after l p' [q]) := by
  have hfirst : s.procs[l.i]? = some server := hl ▸ h.first
  refine ⟨hl ▸ getElem?_moved hfirst, by rw [ha]; rfl, ?_, ?_⟩
  · intro i hi
    obtain rfl : s.procs.length = i := by simpa [ha, Pc.child?] using hi
    have hlt := (List.getElem?_eq_some_iff.mp h.first).1
    refine ⟨by omega, q, ?_, by rw [hq]; rfl⟩
    show (s.procs.set l.i p' ++ [q])[s.procs.length]? = some q
    rw [List.getElem?_append_right (by simp)]
    simp
  · intro i r hr hne hnot
    rcases getElem?_procs hr hfirst with ⟨rfl, -⟩ | ⟨-, hold⟩ | ⟨hle, -⟩
    · exact absurd hl hne
    · exact h.others i r hold hne (by simp [hnone])
    · -- the new process is the child
      have hlt : i < (s.procs.set l.i p' ++ [q]).length := (List.getElem?_eq_some_iff.mp hr).1
      have hlast : s.procs.length = i := by
        simp only [List.length_append, List.length_set, List.length_singleton] at hlt
        omega
      exact absurd (by rw [ha, ← hlast]; rfl) hnot

/-- A step of another process, which leaves the server waiting for the same child. -/
theorem OneByOne.other_moved (hi : s.procs[l.i]? = some p) (hl : l.i ≠ 0)
    (hchild : server.pc.child? = some l.i → p'.pc.awaited)
    (hother : server.pc.child? ≠ some l.i → p'.pc.detached)
    (hforks : ∀ q ∈ forks, q.pc.detached) : OneByOne server (s.after l p' forks) where
  first := getElem?_unchanged h.first (Ne.symm hl)
  ofServer := h.ofServer
  child := by
    intro i hwaits
    obtain ⟨hne, q, hq, hawaited⟩ := h.child i hwaits
    refine ⟨hne, ?_⟩
    by_cases hil : i = l.i
    · subst hil
      exact ⟨p', getElem?_moved hi, hchild hwaits⟩
    · exact ⟨q, getElem?_unchanged hq hil, hawaited⟩
  others := by
    intro i q hq hne hnot
    rcases getElem?_procs hq hi with ⟨rfl, rfl⟩ | ⟨-, hold⟩ | ⟨-, hnew⟩
    · exact hother hnot
    · exact h.others i q hold hne hnot
    · exact hforks q hnew

theorem OneByOne.ne_zero (hi : s.procs[i]? = some p) (hpc : p.pc.ofServer = false) : i ≠ 0 := by
  rintro rfl
  obtain rfl : server = p := Option.some.inj (h.first.symm.trans hi)
  simp [h.ofServer] at hpc

/-- A process that is neither the server nor detached is the child. -/
theorem OneByOne.eq_child (hi : s.procs[i]? = some p) (hpc : p.pc.ofServer = false)
    (hnot : p.pc.detached = false) : server.pc.child? = some i := by
  by_contra hne
  have := h.others i p hi (h.ne_zero hi hpc) hne
  simp [hnot] at this

/-- A process that cannot be a child is not the one the server waits for. -/
theorem OneByOne.not_child (hi : s.procs[i]? = some p) (hnot : p.pc.awaited = false) :
    server.pc.child? ≠ some i := by
  intro hchild
  obtain ⟨-, q, hq, hawaited⟩ := h.child i hchild
  obtain rfl : p = q := Option.some.inj (hi.symm.trans hq)
  simp [hnot] at hawaited

/-- Only the server is where the server can be. -/
theorem OneByOne.eq_server (hi : s.procs[i]? = some p) (hpc : p.pc.ofServer) :
    i = 0 ∧ p = server := by
  have hzero : i = 0 := by
    by_contra hne
    have hcannot : p.pc.awaited = false ∧ p.pc.detached = false := by
      revert hpc
      cases p.pc <;> simp [Pc.ofServer, Pc.awaited, Pc.detached]
    have := h.others i p hi hne (h.not_child hi hcannot.1)
    simp [hcannot.2] at this
  subst hzero
  exact ⟨rfl, Option.some.inj (hi.symm.trans h.first)⟩

/-- A server that waits for nobody is alone with detached processes. -/
theorem OneByOne.rest_detached (hnone : server.pc.child? = none) :
    ∀ i q, s.procs[i]? = some q → i ≠ 0 → q.pc.detached := by
  intro i q hq hne
  exact h.others i q hq hne (by simp [hnone])

/-- The server gets on when its child has exited. -/
theorem OneByOne.exited_detached (hready : s.ready server)
    (hwaits : server.pc = .waiting fd child) :
    ∀ i q, s.procs[i]? = some q → i ≠ 0 → q.pc.detached := by
  intro i q hq hne
  by_cases hchild : i = child
  · subst hchild
    have hexited : q.pc = .exited := by simpa [State.ready, hwaits, hq] using hready
    rw [hexited]
    rfl
  · exact h.others i q hq hne (by simpa [hwaits, Pc.child?] using Ne.symm hchild)

/-- A server that waits for nobody and detached processes add up to nothing if each counts for
    nothing. -/
theorem OneByOne.total_eq_zero {f : Process → Nat} (hnone : server.pc.child? = none)
    (hserver : f server = 0) (hdetached : ∀ q : Process, q.pc.detached → f q = 0) :
    s.total f = 0 := by
  apply List.sum_eq_zero
  intro k hk
  obtain ⟨q, hq, rfl⟩ := List.mem_map.mp hk
  obtain ⟨i, hi⟩ := List.getElem?_of_mem hq
  by_cases hzero : i = 0
  · subst hzero
    obtain rfl : server = q := Option.some.inj (h.first.symm.trans hi)
    exact hserver
  · exact hdetached q (h.rest_detached hnone i q hi hzero)

end OneByOne

/-- Every step keeps at most one connection on its way. -/
theorem OneByOne.next {server : Process} (h : OneByOne server s) (hi : s.procs[l.i]? = some p)
    (hready : s.ready p) (hsteps : p.Steps listening_fd n s.procs.length a p' forks) :
    ∃ first, OneByOne first (s.after l p' forks) := by
  cases hsteps with
  | accept hpc _ | acceptFails hpc | forkFails hpc | closed hpc =>
    obtain ⟨hl, rfl⟩ := h.eq_server hi (by rw [hpc]; rfl)
    exact ⟨_, h.server_moved rfl rfl (h.rest_detached (by rw [hpc]; rfl)) hl⟩
  | waited hpc =>
    obtain ⟨hl, rfl⟩ := h.eq_server hi (by rw [hpc]; rfl)
    exact ⟨_, h.server_moved rfl rfl (h.exited_detached hready hpc) hl⟩
  | fork hpc =>
    obtain ⟨hl, rfl⟩ := h.eq_server hi (by rw [hpc]; rfl)
    exact ⟨_, h.server_forked (by rw [hpc]; rfl) rfl rfl hl⟩
  | childClosed hpc | childForkFails hpc | childExits hpc =>
    have hchild := h.eq_child hi (by rw [hpc]; rfl) (by rw [hpc]; rfl)
    exact ⟨_, h.other_moved hi (h.ne_zero hi (by rw [hpc]; rfl)) (fun _ => rfl)
      (fun hnot => absurd hchild hnot) (List.forall_mem_nil _)⟩
  | childForks hpc =>
    -- the grandchild is in the callbacks, and nobody waits for it
    have hchild := h.eq_child hi (by rw [hpc]; rfl) (by rw [hpc]; rfl)
    exact ⟨_, h.other_moved hi (h.ne_zero hi (by rw [hpc]; rfl)) (fun _ => rfl)
      (fun hnot => absurd hchild hnot) (List.forall_mem_singleton.mpr rfl)⟩
  | writes hpc | reads hpc | funcCloses hpc | exits hpc =>
    have hnot := h.not_child hi (by rw [hpc]; rfl)
    exact ⟨_, h.other_moved hi (h.ne_zero hi (by rw [hpc]; rfl))
      (fun hchild => absurd hchild hnot) (fun _ => rfl) (List.forall_mem_nil _)⟩

theorem ready_of_step (h : step s l = some s') (hi : s.procs[l.i]? = some p) : s.ready p := by
  unfold step at h
  rw [hi] at h
  exact (Option.ite_none_right_eq_some.mp h).1

theorem oneByOne_of_reachable (h : server.Reachable s) : ∃ first, OneByOne first s := by
  refine h.invariant (I := fun s => ∃ first, OneByOne first s) ?_ ?_
  · rintro s ⟨listening_fd, rfl⟩
    exact oneByOne_start listening_fd
  · intro s l s' hs hstep
    obtain ⟨first, hfirst⟩ := hs
    obtain ⟨p, p', forks, hi, hsteps, rfl⟩ := steps_of_step hstep
    exact hfirst.next hi (ready_of_step hstep hi) hsteps

/-! ### Connections are handed over once -/

/-- The server is in `accept` or returned. -/
def Idle (s : State) : Prop :=
  ∃ p, s.procs[0]? = some p ∧ (p.pc = .accepting ∨ p.pc = .returned)

/-- While the server is in `accept` no connection is on its way. -/
theorem total_pending_of_idle (h : server.Reachable s) (hidle : Idle s) (c : Nat) :
    s.total (fun p => (p.pending c).toNat) = 0 := by
  obtain ⟨first, hone⟩ := oneByOne_of_reachable h
  obtain ⟨p, hp, hpc⟩ := hidle
  obtain rfl : first = p := Option.some.inj (hone.first.symm.trans hp)
  have hnone : first.pc.child? = none := by rcases hpc with hpc | hpc <;> rw [hpc] <;> rfl
  refine hone.total_eq_zero hnone ?_ ?_
  · rcases hpc with hpc | hpc <;> simp [Process.pending, hpc]
  · intro q hdetached
    cases hat : q.pc <;> simp [Pc.detached, Process.pending, hat] at hdetached ⊢

/-- In every run a connection is given to one grandchild or given up, and never both; while the
    server is in `accept`, this has happened to every connection it accepted. No two processes are
    in the callbacks with one connection. -/
theorem handed_over_once (h : server.Run tr s) (c : Nat) :
    s.total (fun p => (p.serves c).toNat) ≤ handed c tr ∧ handed c tr + givenUp c tr ≤ 1 ∧
      (Idle s → (handed c tr + givenUp c tr = 1 ↔ c < s.accepted.length)) := by
  have hc := handed_of_run h c
  have honce := hc.once
  refine ⟨hc.served, ?_, ?_⟩
  · split at honce <;> omega
  · intro hidle
    rw [total_pending_of_idle ⟨tr, h⟩ hidle c] at honce
    split at honce <;> omega

/-- Two connections under one descriptor: a grandchild is in the callbacks with the first, and the
    `fork` for the second failed. -/
theorem handed_over_once_two : ∃ tr s, server.Run tr s ∧ s.accepted = [5, 5] ∧ Idle s ∧
    handed 0 tr + givenUp 0 tr = 1 ∧ handed 1 tr + givenUp 1 tr = 1 := by
  let ls : List Label := [⟨0, .accept 5⟩, ⟨0, .fork⟩, ⟨1, .go⟩, ⟨1, .fork⟩, ⟨1, .go⟩, ⟨0, .go⟩,
    ⟨0, .go⟩, ⟨0, .accept 5⟩, ⟨0, .fork⟩, ⟨3, .go⟩, ⟨3, .forkFails⟩, ⟨3, .go⟩, ⟨0, .go⟩, ⟨0, .go⟩]
  let exits (c : Nat) : Process :=
    { pc := .exited, table := [], held := [c]
      closes := [(3, some .listening), (5, some (.connection c))] }
  let s : State :=
    { listening_fd := 3
      procs :=
        [{ pc := .accepting, table := [(3, .listening)], held := [1, 0]
           closes := [(5, some (.connection 0)), (5, some (.connection 1))] },
          exits 0,
          { pc := .writing 5, table := [(5, .connection 0)], held := [0], closes := [] },
          exits 1]
      accepted := [5, 5] }
  have hstart : server.Run [] (.start 3) := .start ⟨3, rfl⟩
  have hrun : server.Run (System.trace step (.start 3) ls) s := hstart.trace ls rfl
  have hidle : Idle s := ⟨_, rfl, Or.inl rfl⟩
  exact ⟨_, s, hrun, rfl, hidle, ((handed_over_once hrun 0).2.2 hidle).mpr (by decide),
    ((handed_over_once hrun 1).2.2 hidle).mpr (by decide)⟩

/-! ### The server is not delayed -/

/-- The process is between `accept` and the callbacks. -/
def Pc.handsOver : Pc → Bool
  | .forking _ | .waiting .. | .closing _ => true
  | .childClosing _ | .childForking _ | .childLeaving _ => true
  | _ => false

/-- The steps between `accept` and the callbacks, from a state on. -/
def handOver (s₀ : State) : System State Label :=
  .ofFun (fun s => s = s₀) fun s l =>
    if (s.procs[l.i]?).any (·.pc.handsOver) then step s l else none

/-- How many of these steps a process at `pc` brings with it. -/
def Pc.owed : Pc → Nat
  | .forking _ => 6
  | .waiting .. => 2
  | .closing _ => 1
  | .childClosing _ => 3
  | .childForking _ => 2
  | .childLeaving _ => 1
  | _ => 0

theorem handOver_step {s₀ : State} (h : (handOver s₀).step s l s') :
    step s l = some s' ∧ ∃ p, s.procs[l.i]? = some p ∧ p.pc.handsOver := by
  obtain ⟨hmember, hstep⟩ := Option.ite_none_right_eq_some.mp h
  exact ⟨hstep, (Option.any_eq_true _ _).mp hmember⟩

theorem Process.owed_step (hstep : p.Steps listening_fd n child a p' forks) :
    p'.pc.owed + (forks.map (·.pc.owed)).sum + p.pc.handsOver.toNat ≤
      p.pc.owed + 6 * a.accepts.length := by
  cases hstep <;> simp [Pc.owed, Pc.handsOver, goTo, acceptOk, forked, Action.accepts, *]

/-- Such a step is one of a process on the way, and accepts nothing. -/
theorem handOver_cases {s₀ : State} (h : (handOver s₀).step s l s') :
    ∃ p p' forks, s.procs[l.i]? = some p ∧ p.pc.handsOver = true ∧
      p.Steps s.listening_fd s.accepted.length s.procs.length l.action p' forks ∧
      l.action.accepts = [] ∧ s' = s.after l p' forks := by
  obtain ⟨hstep, q, hq, hpc⟩ := handOver_step h
  obtain ⟨p, p', forks, hi, hsteps, rfl⟩ := steps_of_step hstep
  obtain rfl : p = q := Option.some.inj (hi.symm.trans hq)
  refine ⟨p, p', forks, hi, hpc, hsteps, ?_, rfl⟩
  generalize l.action = a at hsteps
  cases hsteps with
  | accept hat _ => simp [hat, Pc.handsOver] at hpc
  | _ => rfl

theorem owed_lt {s₀ : State} (h : (handOver s₀).step s l s') :
    s'.total (·.pc.owed) + 1 ≤ s.total (·.pc.owed) := by
  obtain ⟨p, p', forks, hi, hpc, hsteps, hnone, rfl⟩ := handOver_cases h
  have hsum : (s.after l p' forks).total (·.pc.owed) + _ = _ := State.total_after _ hi
  have howed := Process.owed_step hsteps
  rw [hnone, hpc] at howed
  simp only [Bool.toNat_true, List.length_nil] at howed
  omega

/-- With the server in `accept` nothing is owed. -/
theorem owed_of_accepting {first : Process} (h : OneByOne first s) (hpc : first.pc = .accepting) :
    s.total (·.pc.owed) = 0 := by
  refine h.total_eq_zero (by rw [hpc]; rfl) (by rw [hpc]; rfl) ?_
  intro q hdetached
  cases hat : q.pc <;> simp [Pc.detached, Pc.owed, hat] at hdetached ⊢

theorem owed_le (h : server.Reachable s) : s.total (·.pc.owed) ≤ 6 := by
  obtain ⟨tr, hrun⟩ := h
  induction hrun with
  | start hs =>
    obtain ⟨listening_fd, rfl⟩ := hs
    exact Nat.zero_le 6
  | @next tr s s' l hrun hstep ih =>
    obtain ⟨first, hone⟩ := oneByOne_of_reachable ⟨tr, hrun⟩
    obtain ⟨p, p', forks, hi, hsteps, rfl⟩ := steps_of_step hstep
    have hsum : (s.after l p' forks).total (·.pc.owed) + _ = _ := State.total_after _ hi
    have howed := Process.owed_step hsteps
    show (s.after l p' forks).total (·.pc.owed) ≤ 6
    generalize l.action = a at hsteps howed
    cases hsteps with
    | accept hpc _ =>
      -- the server was in `accept`
      obtain ⟨-, rfl⟩ := hone.eq_server hi (by rw [hpc]; rfl)
      have := owed_of_accepting hone hpc
      simp only [Action.accepts, List.length_singleton] at howed
      omega
    | _ =>
      simp only [Action.accepts, List.length_nil] at howed
      omega

theorem handOver_reachable {s₀ : State} (h₀ : server.Reachable s₀) (h : (handOver s₀).Reachable s) :
    server.Reachable s := by
  refine h.invariant (I := server.Reachable) ?_ ?_
  · rintro s rfl
    exact h₀
  · intro s l s' hs hstep
    exact hs.next (handOver_step hstep).1

/-- A process that hands a connection over always has a next step. -/
theorem Process.can_step (hpc : p.pc.handsOver) (listening_fd : Int) (c child : Nat) :
    ∃ a, (p.step listening_fd c child a).isSome := by
  cases hat : p.pc with
  | forking fd | childForking fd => exact ⟨.fork, by simp [Process.step, hat]⟩
  | waiting fd _ | closing fd | childClosing fd | childLeaving fd =>
    exact ⟨.go, by simp [Process.step, hat]⟩
  | _ => simp [hat, Pc.handsOver] at hpc

/-- In a state at rest a process that hands a connection over can only be in `waitpid`. -/
theorem not_ready_of_rest {s₀ : State} (hrest : (handOver s₀).AtRest (fun _ => True) s)
    (hi : s.procs[i]? = some p) (hpc : p.pc.handsOver) : s.ready p = false := by
  by_contra hnot
  have hready : s.ready p = true := by simpa using hnot
  obtain ⟨a, ha⟩ := p.can_step hpc s.listening_fd s.accepted.length s.procs.length
  obtain ⟨r, hstep⟩ := Option.isSome_iff_exists.mp ha
  let l : Label := ⟨i, a⟩
  have hnext : step s l = some (s.after l r.1 r.2) := by
    unfold step
    simp only [l, hi, hready, if_true, hstep, Option.map_some]
    rfl
  refine hrest l (s.after l r.1 r.2) trivial ?_
  show (if _ then _ else _) = _
  rw [if_pos (by simp [l, hi, hpc]), hnext]

theorem idle_of_rest {s₀ : State} {first : Process} (h : OneByOne first s)
    (hrest : (handOver s₀).AtRest (fun _ => True) s) : Idle s := by
  refine ⟨first, h.first, ?_⟩
  have hnot : first.pc.handsOver → s.ready first = false := not_ready_of_rest hrest h.first
  have hserver := h.ofServer
  cases hpc : first.pc with
  | accepting => exact Or.inl rfl
  | returned => exact Or.inr rfl
  | forking _ | closing _ =>
    have := hnot (by rw [hpc]; rfl)
    simp [State.ready, hpc] at this
  | waiting fd child =>
    -- the child has exited or has a step to take
    obtain ⟨-, q, hq, hawaited⟩ := h.child child (by rw [hpc]; rfl)
    have hwaits := hnot (by rw [hpc]; rfl)
    have hchild : q.pc.handsOver → s.ready q = false := not_ready_of_rest hrest hq
    cases hat : q.pc with
    | exited => simp [State.ready, hpc, hq, hat] at hwaits
    | childClosing _ | childForking _ | childLeaving _ =>
      have := hchild (by rw [hat]; rfl)
      simp [State.ready, hat] at this
    | _ => simp [hat, Pc.awaited] at hawaited
  | _ => simp [hpc, Pc.ofServer] at hserver

/-- What these steps do not touch. -/
structure Untouched (s₀ s : State) : Prop where
  accepted : s.accepted = s₀.accepted
  others : ∀ (i : Nat) (p : Process), s₀.procs[i]? = some p → p.pc.handsOver = false →
    s.procs[i]? = some p

theorem Untouched.step {s₀ : State} (h : Untouched s₀ s) (hstep : (handOver s₀).step s l s') :
    Untouched s₀ s' := by
  obtain ⟨p, p', forks, hi, hpc, -, hnone, rfl⟩ := handOver_cases hstep
  refine ⟨?_, ?_⟩
  · show s.accepted ++ l.action.accepts = s₀.accepted
    rw [hnone, List.append_nil, h.accepted]
  · intro i q hq hnot
    have hsame := h.others i q hq hnot
    refine getElem?_unchanged hsame ?_
    -- the process that took the step is on the way
    rintro rfl
    obtain rfl : p = q := Option.some.inj (hi.symm.trans hsame)
    simp [hnot] at hpc

/-- From every reachable state on, the server and its child take six steps at most until the server
    is in `accept` again or has returned, whatever `fork` answers, and always have a step to take
    before. No step of a grandchild is among them. -/
theorem not_delayed {s₀ : State} (h : server.Reachable s₀) (hrun : (handOver s₀).Run tr s) :
    tr.length ≤ 6 ∧ Untouched s₀ s ∧ ((handOver s₀).AtRest (fun _ => True) s → Idle s) := by
  have hwork : work (fun _ => True) tr + s.total (·.pc.owed) ≤ 6 := by
    refine hrun.work_le (State.total (·.pc.owed)) ?_ ?_
    · rintro s rfl
      exact owed_le h
    · intro s l s' _ hstep
      exact owed_lt hstep
  have hall : work (fun _ => True) tr = tr.length := by simp [work]
  have hreach : (handOver s₀).Reachable s := ⟨tr, hrun⟩
  have huntouched : Untouched s₀ s := by
    refine hreach.invariant (I := Untouched s₀) ?_ fun s l s' hs hstep => hs.step hstep
    rintro s rfl
    exact ⟨rfl, fun i p hp _ => hp⟩
  obtain ⟨first, hone⟩ := oneByOne_of_reachable (handOver_reachable h hreach)
  exact ⟨by omega, huntouched, idle_of_rest hone⟩

/-- A connection is handed over beside a grandchild that does not get on. -/
theorem not_delayed_six : ∃ s₀ tr s, server.Reachable s₀ ∧ (handOver s₀).Run tr s ∧
    tr.length = 6 ∧ (s₀.procs[2]?).any (·.pc = .writing 5) ∧ Untouched s₀ s ∧ Idle s := by
  let before : List Label := [⟨0, .accept 5⟩, ⟨0, .fork⟩, ⟨1, .go⟩, ⟨1, .fork⟩, ⟨1, .go⟩, ⟨0, .go⟩,
    ⟨0, .go⟩, ⟨0, .accept 5⟩]
  let ls : List Label := [⟨0, .fork⟩, ⟨3, .go⟩, ⟨3, .fork⟩, ⟨3, .go⟩, ⟨0, .go⟩, ⟨0, .go⟩]
  let exits (c : Nat) : Process :=
    { pc := .exited, table := [], held := [c]
      closes := [(3, some .listening), (5, some (.connection c))] }
  let serves (c : Nat) : Process :=
    { pc := .writing 5, table := [(5, .connection c)], held := [c], closes := [] }
  let s₀ : State :=
    { listening_fd := 3
      procs :=
        [{ pc := .forking 5, table := [(5, .connection 1), (3, .listening)], held := [1, 0]
           closes := [(5, some (.connection 0))] }, exits 0, serves 0]
      accepted := [5, 5] }
  let s : State :=
    { listening_fd := 3
      procs :=
        [{ pc := .accepting, table := [(3, .listening)], held := [1, 0]
           closes := [(5, some (.connection 0)), (5, some (.connection 1))] },
          exits 0, serves 0, exits 1, serves 1]
      accepted := [5, 5] }
  have hreach : server.Reachable s₀ :=
    System.replay_reachable ⟨[], .start ⟨3, rfl⟩⟩ before rfl
  have hstart : (handOver s₀).Run [] s₀ := .start rfl
  have hrun : (handOver s₀).Run ([] ++ System.trace _ s₀ ls) s := hstart.trace ls rfl
  exact ⟨s₀, _, s, hreach, hrun, rfl, rfl, (not_delayed hreach hrun).2.1, _, rfl, Or.inl rfl⟩

end ProcessAccept
