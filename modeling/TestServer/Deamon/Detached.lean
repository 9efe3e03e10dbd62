import TestServer.Deamon.Processes

/-! # What `deamon` leaves behind

    * `daemon_detached`: the process that calls `callback` leads a session of
      its own, and it is given to the reaper of orphans when its parent exits.
    * `daemon_descriptors`: its standard descriptors are those of `/dev/null`
      exactly when `open` succeeded; all others are inherited.
-/

open Descriptors LTS

namespace Deamon

variable {δ : Type*} {host : Host δ} {p : Process δ} {s : State δ}

/-- What holds of the daemon when it calls `callback`. -/
theorem redirected_of_callback (h : (processes host p).Reachable s) {d : Daemon δ}
    (hd : s.daemon = some d) (hpc : d.pc = .callback) :
    Redirected host.devNull p.table 2 d ∧
      ∃ pc c, s.child = some (pc, c) ∧ Forked host p pc c d := by
  obtain ⟨pc, c, hc, hforked⟩ := (inv_of_reachable h).daemon d hd
  have hat := hforked.at_
  simp only [Daemon.At, hpc] at hat
  exact ⟨hat, pc, c, hc, hforked⟩

/-- In every run in which `callback` is called, it is called by a process that leads a session and
    a process group of its own, other than those of the process that called `deamon`, in the root
    directory and with an empty file mode mask, though the result of `setsid` is not looked at. Its
    parent is the child of the first process until that one exits, and the reaper of orphans from
    then on: also when the first process goes on, unless it has other children. -/
theorem daemon_detached (h : (processes host p).Reachable s) (d : Daemon δ)
    (hd : s.daemon = some d) (hpc : d.pc = .callback) :
    Settled d.process ∧ d.process.pid ≠ p.pid ∧ d.process.pgid ≠ p.pgid ∧ d.process.sid ≠ p.sid ∧
    (∃ pc c, s.child = some (pc, c) ∧
      d.process.ppid = if pc = .exited then host.reaper else c.pid) ∧
    (s.fatherPc = .ended → host.others = false → d.process.ppid = host.reaper) := by
  obtain ⟨hredirected, pc, c, hc, hforked⟩ := redirected_of_callback h hd hpc
  have hsettled := hredirected.settled
  obtain ⟨hpid, hpgid, hsid⟩ := hforked.fresh
  refine ⟨hsettled, hpid, hsettled.pgid ▸ hpgid, hsettled.sid ▸ hsid,
    ⟨pc, c, hc, hforked.parent⟩, fun hended hnone => ?_⟩
  have hexited : pc = .exited := by
    rcases (inv_of_reachable h).ended hended pc c hc with hothers | hexited
    · rw [hnone] at hothers
      cases hothers
    · exact hexited
  rw [hforked.parent, if_pos hexited]

/-- A process with four descriptors. -/
def shell : Process Nat where
  pid := 8
  ppid := 2
  pgid := 8
  sid := 2
  cwd := "/root"
  umask := 18
  table := { slots := [some 1, some 1, some 1, some 5] }

/-- The first process has no other child, and `init` takes the orphans. -/
def machine : Host Nat where
  devNull := 0
  reaper := 1
  others := false

/-- The calls up to the one of `callback`, all of which succeed; the child exits late. -/
def calls : List Label :=
  [.fork 10, .childForks 11, .daemon true, .daemon true, .daemon true, .daemon true, .daemon true,
    .daemon true, .daemon true, .childExits, .wait]

theorem daemon_detached_shell :
    ∃ s, System.replay (Deamon.step machine) (.start shell) calls = some s ∧
      ∃ d, s.daemon = some d ∧ Settled d.process ∧ d.process.sid ≠ 2 ∧ d.process.ppid = 1 := by
  have hstart : (processes machine shell).Reachable (.start shell) := ⟨[], .start rfl⟩
  refine ⟨_, rfl, _, rfl, ?_⟩
  obtain ⟨hsettled, -, -, hsid, -, hreaper⟩ :=
    daemon_detached (System.replay_reachable hstart calls rfl) _ rfl rfl
  exact ⟨hsettled, hsid, hreaper rfl rfl⟩

/-- In every run in which `callback` is called, the descriptors 0, 1 and 2 are open on `/dev/null`
    exactly when `open` succeeded, and `open` then returned 0, whatever was open before. When it
    failed, 0 is closed, and 1 and 2 are still what they were in the process that called `deamon`.
    All other descriptors are inherited from there, and nothing has changed in that process. -/
theorem daemon_descriptors (h : (processes host p).Reachable s) (d : Daemon δ)
    (hd : s.daemon = some d) (hpc : d.pc = .callback) :
    (d.t = 0 ∨ d.t = -1) ∧
    ((∀ fd ≤ 2, d.process.table.get fd = some host.devNull) ↔ d.t = 0) ∧
    (d.t = -1 → d.process.table.get 0 = none ∧ d.process.table.get 1 = p.table.get 1 ∧
      d.process.table.get 2 = p.table.get 2) ∧
    (∀ fd, 2 < fd → d.process.table.get fd = p.table.get fd) ∧ s.father = p := by
  obtain ⟨hredirected, -⟩ := redirected_of_callback h hd hpc
  have hfather := (inv_of_reachable h).father
  rcases hredirected.opened with ⟨ht, hnull⟩ | ⟨ht, hfree, hsame⟩
  · refine ⟨Or.inl ht, ⟨fun _ => ht, fun _ => hnull⟩, fun hfailed => ?_, hredirected.others,
      hfather⟩
    rw [ht] at hfailed
    cases hfailed
  · refine ⟨Or.inr ht, ⟨fun hnull => ?_, fun hzero => ?_⟩, fun _ => ⟨hfree, ?_, ?_⟩,
      hredirected.others, hfather⟩
    · have hopen := hnull 0 (Nat.zero_le _)
      rw [hfree] at hopen
      cases hopen
    · rw [ht] at hzero
      cases hzero
    · exact hsame 1 (by decide) (by decide)
    · exact hsame 2 (by decide) (by decide)

theorem daemon_descriptors_shell :
    ∃ s, System.replay (Deamon.step machine) (.start shell) calls = some s ∧
      ∃ d, s.daemon = some d ∧ (∀ fd ≤ 2, d.process.table.get fd = some 0) ∧
        d.process.table.get 3 = some 5 := by
  have hstart : (processes machine shell).Reachable (.start shell) := ⟨[], .start rfl⟩
  refine ⟨_, rfl, _, rfl, ?_⟩
  obtain ⟨-, hnull, -, hothers, -⟩ :=
    daemon_descriptors (System.replay_reachable hstart calls rfl) _ rfl rfl
  exact ⟨hnull.mpr rfl, hothers 3 (by decide)⟩

end Deamon
