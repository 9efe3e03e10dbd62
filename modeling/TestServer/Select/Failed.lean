import TestServer.Select.SelectAccept

/-! # Connections whose callbacks fail

    The loop prints the result of a callback that fails and goes on; `del_fd`
    and `close` are not called.

    * `Fails`: a callback of an iteration returns a negative value for a
      connection.
    * `Dropped`: a connection that fails is not in the table at the next loop
      head.
    * `dropped_iff`: the runs in which failed connections are dropped are those
      without failures. A connection that failed is watched ever after.
-/

open LTS

namespace Select

variable {s s' : State} {l : Answers} {fd : Int}

/-- `read_message` or `write_message` returns a negative value for the descriptor. -/
def Fails (s : State) (l : Answers) (fd : Int) : Prop := ∃ ret < 0, Served s l fd ret

/-- A connection that fails in the iteration is not in the table at the next loop head. -/
def Dropped (s : State) (l : Answers) : Prop :=
  ∀ s', step s l = some s' → ∀ fd, 0 < fd → Fails s l fd → fd ∉ s'.array_linkage_fd

/-- No callback of the iteration returns a negative value for a connection. -/
def AllServed (s : State) (l : Answers) : Prop := ∀ fd, 0 < fd → ¬ Fails s l fd

/-- A connection that fails is in the table at the next loop head. -/
theorem Fails.stays (h : Fails s l fd) (hstep : step s l = some s') :
    fd ∈ s'.array_linkage_fd := by
  obtain ⟨ret, -, hserved⟩ := h
  exact hserved.mem hstep

theorem dropped_iff_step (hstep : step s l = some s') : Dropped s l ↔ AllServed s l := by
  constructor
  · intro hdropped fd hpos hfails
    exact hdropped s' hstep fd hpos hfails (hfails.stays hstep)
  · intro hserved s' _ fd hpos hfails
    exact absurd hfails (hserved fd hpos)

/-- A connection that failed is in the table at every later loop head. -/
theorem failed_stays {tr : List (State × Answers)} (h : server.Run tr s) {p : State × Answers}
    (hp : p ∈ tr) (hpos : 0 < fd) (hfails : Fails p.1 p.2 fd) : fd ∈ s.array_linkage_fd := by
  have hno : ¬ Along (fun s l => ¬ Fails s l fd) tr := fun hok => hok p hp hfails
  refine h.broken (Q := fun s => fd ∈ s.array_linkage_fd) ?_ ?_ hno
  · intro tr s l s' _ _ hstep hfails
    exact (not_not.mp hfails).stays hstep
  · intro s l s' hstep hmem
    exact stays hstep hpos hmem

/-- Failed connections are dropped in the runs without failures, and in no others: `select` is
    asked to watch a connection that failed at every later call. -/
theorem dropped_iff {tr : List (State × Answers)} (h : server.Run tr s) :
    (Along Dropped tr ↔ Along AllServed tr) ∧
      ∀ p ∈ tr, ∀ fd, 0 < fd → Fails p.1 p.2 fd →
        fd ∈ s.array_linkage_fd ∧ fd ∈ s.sets.rfds ∧ fd ∈ s.sets.wfds := by
  constructor
  · apply forall_congr'
    intro p
    apply forall_congr'
    intro hp
    obtain ⟨s', hstep⟩ := h.step_of_mem hp
    exact dropped_iff_step hstep
  · intro p hp fd hpos hfails
    have hmem := failed_stays h hp hpos hfails
    exact ⟨hmem, State.mem_sets hmem hpos⟩

/-- A connection is accepted. -/
def accepting : Answers where
  ret := 1
  rfds := {3}
  wfds := ∅
  stray_rfds := fun _ => false
  stray_wfds := fun _ => false
  accept := 5
  read_message := fun _ => 0
  write_message := fun _ => 0

/-- The connection has hung up: `read_message` and `write_message` return -1. -/
def hangingUp : Answers where
  ret := 2
  rfds := {5}
  wfds := {5}
  stray_rfds := fun _ => false
  stray_wfds := fun _ => false
  accept := -1
  read_message := fun _ => -1
  write_message := fun _ => -1

/-- The state between the two iterations. -/
def connected : State := (State.start 3).linked accepting

theorem connected_reachable : server.Reachable connected := by
  have hstart : server.Reachable (.start 3) := ⟨[], .start ⟨3, rfl⟩⟩
  exact hstart.next (l := accepting) rfl

theorem hangs_up : step connected hangingUp = some (connected.linked hangingUp) := rfl

theorem hangs_up_fails : Fails connected hangingUp 5 := by
  refine ⟨-1, by decide, served_iff.mpr ⟨by decide, 0, rfl, Or.inl ⟨by decide, rfl⟩⟩⟩

theorem dropped_iff_hangs_up : ∃ s tr, server.Run tr s ∧ ¬ Along Dropped tr := by
  obtain ⟨tr, htr⟩ := connected_reachable
  have hrun := htr.next hangs_up
  refine ⟨_, _, hrun, ?_⟩
  intro hdropped
  have hserved := (along_snoc.mp ((dropped_iff hrun).1.mp hdropped)).2
  exact hserved 5 (by decide) hangs_up_fails

/-- A connection that hung up is still in the table, and in both sets of the next `select`. -/
theorem failed_watched : ∃ s s' l, server.Reachable s ∧ step s l = some s' ∧ Fails s l 5 ∧
    5 ∈ s'.array_linkage_fd ∧ 5 ∈ s'.sets.rfds ∧ 5 ∈ s'.sets.wfds := by
  have hmem := hangs_up_fails.stays hangs_up
  exact ⟨connected, connected.linked hangingUp, hangingUp, connected_reachable, hangs_up,
    hangs_up_fails, hmem, State.mem_sets hmem (by decide)⟩

end Select
